import VllmRouter.ProgramScheduling.Binding
import VllmRouter.ProgramScheduling.Factors

/-!
# Scheduler state (`program_scheduling/scheduler_state.rs`)

The configuration, the decision facts of one live Program, the observation of
one rank, and the state that one scheduler lock protects. `Env` holds what the
environment decides inside a lock section: the iteration order of the hash
maps and the answers of the affinity tree.
-/

namespace VllmRouter.ProgramScheduling

open Duration

/-! ## Configuration -/

/-- Ordinary paused-Program resume order within each priority tier. -/
inductive ProgramResumeOrder where
  | fcfs
  | mru
deriving DecidableEq, Repr

/-- Program scheduler configuration. -/
structure ProgramSchedulerConfig where
  bindingOnly : Bool
  globalQueue : Bool
  resumeOrder : ProgramResumeOrder
  crossRankHeadroomRatio : Rat
  bindingStrategy : ProgramBindingStrategy
  hashVirtualNodes : Nat
  maxActiveProgramsPerTarget : Nat
  metricsInterval : Duration
  admissionWaitingRequestThreshold : Nat
  queueTimeout : Duration
  forceResumeTimeout : Duration
  pausedRetentionTtl : Duration
  sharedPrefixFreshnessWarmup : Duration
  sharedPrefixFreshnessKvTurnovers : Rat
  progressTtl : ProgressTtlConfig
deriving DecidableEq, Repr

def ProgramSchedulerConfig.default : ProgramSchedulerConfig where
  bindingOnly := false
  globalQueue := false
  resumeOrder := .mru
  crossRankHeadroomRatio := 12 / 10
  bindingStrategy := .consistentHash
  hashVirtualNodes := 160
  maxActiveProgramsPerTarget := 64
  metricsInterval := fromSecs 1
  admissionWaitingRequestThreshold := 1
  queueTimeout := fromSecs 600
  forceResumeTimeout := fromSecs 300
  pausedRetentionTtl := fromSecs 1800
  sharedPrefixFreshnessWarmup := fromSecs 100
  sharedPrefixFreshnessKvTurnovers := 2
  progressTtl := .default

/-- The immutable part of the scheduler, with the third-party functions it
calls. -/
structure ProgramScheduler where
  config : ProgramSchedulerConfig
  libm : Libm
  fbiHash : String → Nat

/-- What the environment decides inside one lock section. -/
structure Env where
  programOrder : List RuntimeKey → List RuntimeKey
  nameOrder : List String → List String
  matchedChars : ModelPool → String → TargetId → Nat
  programOrder_perm : ∀ keys, (programOrder keys).Perm keys
  nameOrder_perm : ∀ names, (nameOrder names).Perm names

/-- Hash maps iterate in insertion order and the affinity tree knows nothing. -/
def Env.plain : Env := ⟨id, id, fun _ _ _ => 0, fun _ => .refl _, fun _ => .refl _⟩

/-! ## Decision facts -/

/-- Cause of the most recently committed pause. -/
inductive ProgramPauseReason where
  | ttlExpired
  | capacityRepair
  | maxSegmentYield
  | requestFailed
  | requestCancelled
deriving DecidableEq, Repr

/-- Scheduling facts associated with one exact live Program generation. -/
structure ProgramDecisionState where
  placementKey : String
  placementHashKey : String
  homeTarget : Option TargetId
  lastTarget : Option TargetId
  estimatedContextTokens : Nat
  outputTokenReservation : Option Nat
  contextShrinkObservations : Nat
  completedRequests : Nat
  segmentServedRounds : Nat
  roundsSinceActivation : Nat
  ttlPauseSampledSegmentRounds : Nat
  roundsSinceTtlPause : Nat
  segmentStartedAt : Option Instant
  lastContextTokens : Option Nat
  sharedPrefixTokens : Nat
  sharedPrefixObserved : Bool
  sharedPrefixFreshnessAnchorAt : Instant
  sharedPrefixFreshUntil : Option Instant
  lastRequestFinishedAt : Option Instant
  lastCacheMissImpactSeconds : Rat
  actingSince : Option Instant
  ttlDeadline : Option Instant
  queuedAt : Option Instant
  forceResumeDeadline : Option Instant
  forceResumeTimeout : Option Duration
  forceResumeActiveRemainingRounds : Rat
  forceResumePoolRemainingRounds : Rat
  forceResumeRequestThroughputPerSecond : Rat
  pausedAt : Option Instant
  lastPauseReason : Option ProgramPauseReason
  pauseWhenIdle : Bool
  terminateWhenIdle : Bool
deriving DecidableEq, Repr

namespace ProgramDecisionState

def new (placementKey placementHashKey : String) (homeTarget : Option TargetId)
    (estimatedContextTokens : Nat) (now : Instant) : ProgramDecisionState where
  placementKey := placementKey
  placementHashKey := placementHashKey
  homeTarget := homeTarget
  lastTarget := homeTarget
  estimatedContextTokens := estimatedContextTokens
  outputTokenReservation := none
  contextShrinkObservations := 0
  completedRequests := 0
  segmentServedRounds := 0
  roundsSinceActivation := 0
  ttlPauseSampledSegmentRounds := 0
  roundsSinceTtlPause := 0
  segmentStartedAt := none
  lastContextTokens := none
  sharedPrefixTokens := 0
  sharedPrefixObserved := false
  sharedPrefixFreshnessAnchorAt := now
  sharedPrefixFreshUntil := none
  lastRequestFinishedAt := none
  lastCacheMissImpactSeconds := 0
  actingSince := none
  ttlDeadline := none
  queuedAt := some now
  forceResumeDeadline := none
  forceResumeTimeout := none
  forceResumeActiveRemainingRounds := 0
  forceResumePoolRemainingRounds := 0
  forceResumeRequestThroughputPerSecond := 0
  pausedAt := some now
  lastPauseReason := none
  pauseWhenIdle := false
  terminateWhenIdle := false

variable (d : ProgramDecisionState)

def privateTokensWithOutput (decodeBufferTokens : Nat) (expectedOutputTokens : Option Nat) : Nat :=
  d.estimatedContextTokens - d.sharedPrefixTokens
    + (expectedOutputTokens.or d.outputTokenReservation).getD decodeBufferTokens

/-- Tokens that only this Program keeps in the backend's cache. -/
def privateTokens (decodeBufferTokens : Nat) : Nat :=
  d.privateTokensWithOutput decodeBufferTokens none

/-- A smaller context counts after two observations in a row. -/
def observeCompletedContext (observed : Nat) :
    ProgramDecisionState :=
  if d.estimatedContextTokens ≤ observed then
    { d with estimatedContextTokens := observed, contextShrinkObservations := 0 }
  else if 2 ≤ d.contextShrinkObservations + 1 then
    { d with estimatedContextTokens := observed, contextShrinkObservations := 0 }
  else { d with contextShrinkObservations := d.contextShrinkObservations + 1 }

/-- Keep the remaining freshness of the shared prefix across a pause. -/
def restartSharedPrefixFreshness (pauseAt : Instant) :
    ProgramDecisionState :=
  { d with
    sharedPrefixFreshnessAnchorAt := pauseAt
    sharedPrefixFreshUntil := d.sharedPrefixFreshUntil.map fun deadline =>
      pauseAt + deadline.saturatingDurationSince d.sharedPrefixFreshnessAnchorAt }

end ProgramDecisionState

/-! ## Observations -/

inductive CapacityAccountingSource where
  | backendObservation
  | routerLedgerMissingObservation
  | routerLedgerStaleObservation
  | routerLedgerMissingTokenEstimate
deriving DecidableEq, Repr

/-- Most recent raw backend observation plus router epoch accounting. -/
structure RankObservationState where
  kvCacheUsage : Option Rat
  runningRequests : Option Nat
  waitingRequests : Option Nat
  routerActiveReasoningPrograms : Nat
  routerActiveReasoningRequests : Nat
  estimatedActiveReasoningTokens : Option Rat
  estimatedActiveProgramTokens : Option Rat
  observedAt : Option Instant
  activeProgramTokenDelta : Rat
  reportedCapacitySource : Option CapacityAccountingSource
deriving DecidableEq, Repr

def RankObservationState.default : RankObservationState :=
  ⟨none, none, none, 0, 0, none, none, none, 0, none⟩

/-! ## The state under the lock -/

/-- A shared immutable target list; `addr` is the identity of the allocation. -/
structure TargetSnapshot where
  addr : Nat
  items : List ProgramTarget
deriving DecidableEq, Repr

/-- All mutable data committed under one scheduler lock. -/
structure ProgramSchedulerState where
  runtime : ProgramRuntime
  bindings : ProgramBindings
  decisions : Dict ProgramRef ProgramDecisionState
  targets : Dict TargetId ProgramTarget
  modelTargets : Dict ModelPool (List TargetId)
  modelTargetSnapshots : Dict ModelPool TargetSnapshot
  targetSnapshotRevision : Nat
  rankQueues : Dict TargetId (List ProgramRef)
  globalQueues : Dict ModelPool (List ProgramRef)
  observations : Dict TargetId RankObservationState
  rankFactors : Dict TargetId ProgressTtlFactors

namespace ProgramSchedulerState

def new (config : ProgramSchedulerConfig) : ProgramSchedulerState where
  runtime := ProgramRuntime.default
  bindings := ProgramBindings.new config.bindingStrategy config.hashVirtualNodes
  decisions := ∅
  targets := ∅
  modelTargets := ∅
  modelTargetSnapshots := ∅
  targetSnapshotRevision := 0
  rankQueues := ∅
  globalQueues := ∅
  observations := ∅
  rankFactors := ∅

variable (s : ProgramSchedulerState)

/-- `decisions[program]`. Every live Program has a decision (`Closed`), so the
fallback stands for the panic of the source. -/
def decisionAt (program : ProgramRef) : ProgramDecisionState :=
  (s.decisions.lookup program).getD (.new "" "" none 0 0)

/-- Update the decision of a Program that has one. -/
def modifyDecision (program : ProgramRef) (f : ProgramDecisionState → ProgramDecisionState) :
    ProgramSchedulerState :=
  { s with decisions := s.decisions.modify program f }

/-- Update the factors of a rank, creating them if needed. -/
def modifyFactors (target : TargetId) (f : ProgressTtlFactors → ProgressTtlFactors) :
    ProgramSchedulerState :=
  { s with rankFactors := s.rankFactors.upsert target .default f }

/-- Update the observation of a rank, creating it if needed. -/
def modifyObservation (target : TargetId) (f : RankObservationState → RankObservationState) :
    ProgramSchedulerState :=
  { s with observations := s.observations.upsert target .default f }

/-- Add to the token ledger of a rank. -/
def adjustUsage (target : TargetId) (deltaTokens : Rat) : ProgramSchedulerState :=
  s.modifyObservation target fun o =>
    { o with activeProgramTokenDelta := o.activeProgramTokenDelta + deltaTokens }

/-- Drop a Program from every admission queue. -/
def dequeue (program : ProgramRef) : ProgramSchedulerState :=
  { s with
    rankQueues := s.rankQueues.mapVal fun queue => queue.filter fun q => decide (q ≠ program)
    globalQueues := s.globalQueues.mapVal fun queue => queue.filter fun q => decide (q ≠ program) }

end ProgramSchedulerState

end VllmRouter.ProgramScheduling
