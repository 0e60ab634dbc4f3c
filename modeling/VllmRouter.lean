import VllmRouter.ProgramScheduling.Demand
import VllmRouter.ProgramScheduling.Deadlines
import VllmRouter.ProgramScheduling.Calls
import VllmRouter.ProgramScheduling.Lookups
import VllmRouter.ProgramScheduling.Isolation
import VllmRouter.Core.RegistryViews
import VllmRouter.Policies.LoadAccounting
import VllmRouter.KvIndex.Suspension
import VllmRouter.KvIndex.Snapshot
import VllmRouter.KvIndex.ConcurrentCalls
import VllmRouter.KvIndex.Identities
import VllmRouter.Tokenizer.EncodeProcess
import VllmRouter.ServiceDiscovery
import VllmRouter.Policies.WorkerCounts
import VllmRouter.ProgramScheduling.PoolWide
import VllmRouter.PrefixTree.Tenants
import VllmRouter.ProgramScheduling.Transitions
import VllmRouter.Tokenizer.Stop
import VllmRouter.Authorization
import VllmRouter.Core.CircuitBreaker
import VllmRouter.Backend.OutputFrame
import VllmRouter.Core.Retry
import VllmRouter.KvIndex.Admit
import VllmRouter.Backend.Grpc
import VllmRouter.Core.Health
import VllmRouter.DataConnector.ResponseChain
import VllmRouter.ProgramScheduling.Identity
import VllmRouter.TokenEstimator
import VllmRouter.Policies.FurcHash
import VllmRouter.Core.TokenBucket
