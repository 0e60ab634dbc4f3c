import Mathlib.Data.Rat.Floor
import VllmRouter.Lib.Dict

/-!
# Program scheduling values (`program_scheduling/domain.rs`, `identity.rs`)

The values that the Program scheduler and the router exchange.

- An `Instant` is a number of nanoseconds on the monotonic clock and a
  `Duration` a number of nanoseconds; seconds are exact rationals, as are all
  the token amounts and estimates that the source keeps in floating point.
- Counters are natural numbers, so their saturating additions do not saturate.
-/

namespace VllmRouter.ProgramScheduling

/-! ## Time -/

abbrev Instant := Nat

abbrev Duration := Nat

/-- `now - earlier`, or zero when the clock readings are the other way round. -/
def Instant.saturatingDurationSince (now earlier : Instant) : Duration := now - earlier

def Duration.fromSecs (secs : Nat) : Duration := secs * 1000000000

def Duration.asSecsF64 (d : Duration) : Rat := (d : Rat) / 1000000000

/-- Nearest nanosecond, ties to even. -/
def Duration.fromSecsF64 (secs : Rat) : Duration :=
  let nanos := secs * 1000000000
  let below := nanos.floor
  let rest := nanos - below
  if rest < 1 / 2 then below.toNat
  else if 1 / 2 < rest then (below + 1).toNat
  else if below % 2 = 0 then below.toNat
  else (below + 1).toNat

/-! ## Lifecycle values -/

abbrev TargetId := String

abbrev ModelPool := String

/-- Whether a Program currently owns logical admission capacity. -/
inductive ProgramState where
  | active
  | paused
deriving DecidableEq, Repr

/-- Whether a Program currently needs inference or is between model requests. -/
inductive ProgramStatus where
  | reasoning
  | acting
deriving DecidableEq, Repr

/-- Identity of one exact live Program generation. -/
structure ProgramRef where
  modelPool : ModelPool
  programId : String
  generation : Nat
deriving DecidableEq, Repr

/-- One concrete backend or internal DP rank. -/
structure ProgramTarget where
  id : TargetId
  baseUrl : String
  dpRank : Option Nat
deriving DecidableEq, Repr

/-- Scheduling hints whose lifetime is exactly one retained request. -/
structure ProgramRequestHints where
  priority : Int
  deadline : Option Duration
  expectedOutputTokens : Option Nat
  kvRetentionTtl : Option Duration
deriving DecidableEq, Repr

def ProgramRequestHints.default : ProgramRequestHints := ⟨0, none, none, none⟩

/-- Stable scheduling identity for one Program generation. -/
structure ProgramIdentity where
  modelPool : ModelPool
  programId : String
  placementHashKey : String
  placementKey : String
  expectedResume : Bool
  requestHints : ProgramRequestHints
deriving DecidableEq, Repr

/-- The identity a live Program is bound again with. -/
def ProgramIdentity.forRebinding (reference : ProgramRef) (placementHashKey placementKey : String)
    (expectedResume : Bool) : ProgramIdentity where
  modelPool := reference.modelPool
  programId := reference.programId
  placementHashKey := placementHashKey
  placementKey := placementKey
  expectedResume := expectedResume
  requestHints := .default

/-- Proof that one retained request was admitted to a target. -/
structure ProgramDispatch where
  program : ProgramRef
  targetId : TargetId
  placementEpoch : Nat
  requestArrivedAt : Instant
  dispatchedAt : Instant
  estimatedContextTokens : Nat
  /-- Whether this is the first request after admission or resume. -/
  placementStartRequest : Bool
  routingText : Option String
  requestHints : ProgramRequestHints
deriving DecidableEq, Repr

/-- Backend token usage of one request. -/
structure ProgramUsageObservation where
  promptTokens : Option Nat
  completionTokens : Option Nat
  cachedPromptTokens : Option Nat
deriving DecidableEq, Repr

/-- Errors returned before a Program request can enter native forwarding. -/
inductive ScheduleError where
  | invalidIdentity (message : String)
  | noTargets
  | queueTimeout
deriving DecidableEq, Repr

end VllmRouter.ProgramScheduling
