import VllmRouter.ProgramScheduling.RequestPool

/-!
# Program runtime (`program_scheduling/runtime.rs`)

Program generations, request retention and accepted runtime transitions. The
runtime makes no scheduling decision; an operation that does not apply returns
`none` where the source returns `false` or `None`. `admitFront` is the
exception: it can change the Program before it finds that the handle is not
the front request, so it returns the state in both cases.
-/

namespace VllmRouter.ProgramScheduling

structure RuntimeKey where
  modelPool : ModelPool
  programId : String
deriving DecidableEq, Repr

def ProgramIdentity.key (identity : ProgramIdentity) : RuntimeKey :=
  ⟨identity.modelPool, identity.programId⟩

def ProgramRef.key (reference : ProgramRef) : RuntimeKey :=
  ⟨reference.modelPool, reference.programId⟩

structure RuntimeProgram where
  reference : ProgramRef
  state : ProgramState
  status : ProgramStatus
  expectedResume : Bool
  placement : Option TargetId
  placementEpoch : Nat
  placementStartRequestPending : Bool
  estimatedContextTokens : Nat
  inFlightRequests : Nat
deriving DecidableEq, Repr

namespace RuntimeProgram

variable (program : RuntimeProgram)

/-- Paused, without a placement. -/
def off : RuntimeProgram :=
  { program with state := .paused, placement := none }

/-- Active on a new placement, whose first request is not dispatched yet. -/
def on (targetId : TargetId) (epoch : Nat) : RuntimeProgram :=
  { program with
    state := .active
    status := .reasoning
    placement := some targetId
    placementEpoch := epoch
    placementStartRequestPending := true }

/-- The placement has its first request. -/
def started : RuntimeProgram :=
  { program with placementStartRequestPending := false }

/-- One more request in flight. -/
def dispatched : RuntimeProgram :=
  { program with status := .reasoning, inFlightRequests := program.inFlightRequests + 1 }

/-- One request less in flight; acting when nothing is outstanding. -/
def completed (promptTokens waitingRequests : Nat) :
    RuntimeProgram :=
  { program with
    estimatedContextTokens := max program.estimatedContextTokens promptTokens
    inFlightRequests := program.inFlightRequests - 1
    status := if program.inFlightRequests - 1 = 0 ∧ waitingRequests = 0 then .acting
      else program.status }

/-- Between requests. -/
def acting : RuntimeProgram := { program with status := .acting }

/-- Between requests without having run the last one: also paused. -/
def idled : RuntimeProgram :=
  match program.state with
  | .active => program.acting.off
  | .paused => program.acting

/-- Without the placement that was lost; its requests in flight are forgotten. -/
def invalidated (epoch : Nat) : RuntimeProgram :=
  { program.off with
    placementEpoch := epoch
    placementStartRequestPending := false
    inFlightRequests := 0 }

/-- A known Program that a request arrives for. -/
def retained (expectedResume : Bool) (estimatedContextTokens : Nat) :
    RuntimeProgram :=
  { program with
    expectedResume := expectedResume
    estimatedContextTokens := max program.estimatedContextTokens estimatedContextTokens
    status := .reasoning }

/-- A new Program that a request arrives for. -/
def fresh (reference : ProgramRef) (expectedResume : Bool) (estimatedContextTokens : Nat) :
    RuntimeProgram where
  reference := reference
  state := .paused
  status := .reasoning
  expectedResume := expectedResume
  placement := none
  placementEpoch := 0
  placementStartRequestPending := false
  estimatedContextTokens := estimatedContextTokens
  inFlightRequests := 0

end RuntimeProgram

/-- Immutable lifecycle facts consumed by the scheduling decisions. -/
structure RuntimeProgramView where
  reference : ProgramRef
  state : ProgramState
  status : ProgramStatus
  expectedResume : Bool
  placement : Option TargetId
  estimatedContextTokens : Nat
  inFlightRequests : Nat
  waitingRequests : Nat
deriving DecidableEq, Repr

/-- Mutable Program runtime owned by the scheduler. Every Program is stored
under its own key. -/
structure ProgramRuntime where
  programs : Dict RuntimeKey RuntimeProgram
  lastGenerations : Dict RuntimeKey Nat
  releasedGenerationsAt : Dict RuntimeKey Instant
  requestPool : RequestPool
  nextPlacementEpoch : Nat
  keyed : ∀ key program, programs.lookup key = some program → program.reference.key = key

namespace ProgramRuntime

def default : ProgramRuntime where
  programs := ∅
  lastGenerations := ∅
  releasedGenerationsAt := ∅
  requestPool := RequestPool.default
  nextPlacementEpoch := 0
  keyed := fun key _ h => absurd h (by simp)

variable (rt : ProgramRuntime)

/-- The live Program with exactly this generation. -/
def program (reference : ProgramRef) : Option RuntimeProgram :=
  (rt.programs.lookup reference.key).filter fun program => decide (program.reference = reference)

/-- Store a Program under its key. -/
def setProgram (program : RuntimeProgram) : ProgramRuntime :=
  { rt with
    programs := rt.programs.insert program.reference.key program
    keyed := by
      intro key stored h
      rw [Dict.lookup_insert_eq] at h
      split at h
      · rename_i hk
        cases h
        exact hk.symm
      · exact rt.keyed key stored h }

/-- Drop the Program stored under a key. -/
def eraseProgram (key : RuntimeKey) : ProgramRuntime :=
  { rt with
    programs := rt.programs.erase key
    keyed := by
      intro key' stored h
      rw [Dict.lookup_erase_eq] at h
      split at h
      · cases h
      · exact rt.keyed key' stored h }

/-- Materialize or update the Program of an arriving request. -/
def materialize (identity : ProgramIdentity) (estimatedContextTokens : Nat) :
    ProgramRuntime × ProgramRef :=
  match rt.programs.lookup identity.key with
  | some program =>
    (rt.setProgram (program.retained identity.expectedResume estimatedContextTokens),
      program.reference)
  | none =>
    let generation := match rt.lastGenerations.lookup identity.key with
      | some generation => generation + 1
      | none => 0
    let reference : ProgramRef := ⟨identity.modelPool, identity.programId, generation⟩
    let rt := rt.setProgram (.fresh reference identity.expectedResume estimatedContextTokens)
    ({ rt with lastGenerations := rt.lastGenerations.insert identity.key generation }, reference)

/-- A key that is in use again is not aged out. -/
def keepGeneration (key : RuntimeKey) : ProgramRuntime :=
  { rt with releasedGenerationsAt := rt.releasedGenerationsAt.erase key }

/-- Materialize or update a Program, then retain the arriving request. -/
def retainRequest (identity : ProgramIdentity) (estimatedContextTokens : Nat)
    (routingText : Option String) (arrivedAt : Instant) : ProgramRuntime × ProgramRequestHandle :=
  let (rt, reference) :=
    (rt.keepGeneration identity.key).materialize identity estimatedContextTokens
  let (pool, handle) := rt.requestPool.retain reference arrivedAt estimatedContextTokens
    routingText identity.requestHints
  ({ rt with requestPool := pool }, handle)

/-- Put the Program on `targetId` if it is paused and consume the
placement-start marker. Returns the Program, the last placement epoch, and
whether the next request starts the placement. -/
def enterPlacement (program : RuntimeProgram) (targetId : TargetId) : RuntimeProgram × Nat × Bool :=
  match program.state with
  | .paused =>
    ({ program with
        state := .active
        placement := some targetId
        placementEpoch := rt.nextPlacementEpoch + 1
        placementStartRequestPending := false },
      rt.nextPlacementEpoch + 1, true)
  | .active => (program.started, rt.nextPlacementEpoch, program.placementStartRequestPending)

/-- Dispatch the front request if it is the one that `handle` names. -/
def dispatchFront (program : RuntimeProgram) (handle : ProgramRequestHandle) (targetId : TargetId)
    (startsPlacement : Bool) (dispatchedAt : Instant) : ProgramRuntime × Option ProgramDispatch :=
  match rt.requestPool.takeFront handle with
  | none => (rt, none)
  | some (pool, request) =>
    ({ rt.setProgram program.dispatched with
        requestPool := pool.notifyFront program.reference },
      some
        { program := program.reference
          targetId := targetId
          placementEpoch := program.placementEpoch
          requestArrivedAt := request.arrivedAt
          dispatchedAt := dispatchedAt
          estimatedContextTokens := request.estimatedContextTokens
          placementStartRequest := startsPlacement
          routingText := request.routingText
          requestHints := request.hints })

/-- Commit the front retained request to `targetId`. The placement-start marker
is consumed before the handle is checked to be the front one. -/
def admitFront (handle : ProgramRequestHandle) (targetId : TargetId) (dispatchedAt : Instant) :
    ProgramRuntime × Option ProgramDispatch :=
  match rt.program handle.program with
  | none => (rt, none)
  | some program =>
    if program.state = .active ∧ program.placement ≠ some targetId then (rt, none)
    else
      let (program, epoch, startsPlacement) := rt.enterPlacement program targetId
      let rt := { rt.setProgram program with nextPlacementEpoch := epoch }
      rt.dispatchFront program handle targetId startsPlacement dispatchedAt

/-- Record one request completion if its generation and placement are current. -/
def completeRequest (dispatch : ProgramDispatch) (usage : ProgramUsageObservation) :
    Option ProgramRuntime :=
  match rt.program dispatch.program with
  | none => none
  | some program =>
    if program.placementEpoch ≠ dispatch.placementEpoch ∨ program.inFlightRequests = 0 then none
    else
      some (rt.setProgram (program.completed
        (usage.promptTokens.getD dispatch.estimatedContextTokens)
        (rt.requestPool.programLen program.reference)))

/-- The Program after a cancellation; an idle active one is paused. -/
def settleCancelled (reference : ProgramRef) : ProgramRuntime :=
  match rt.program reference with
  | none => rt
  | some program =>
    if program.inFlightRequests = 0 ∧ rt.requestPool.programLen program.reference = 0 then
      rt.setProgram program.idled
    else rt

/-- Cancel one retained request and wake the next one if it was the front. -/
def cancelRequest (handle : ProgramRequestHandle) : Option ProgramRuntime :=
  match rt.requestPool.cancel handle with
  | none => none
  | some (pool, wasFront) =>
    let pool := if wasFront then pool.notifyFront handle.program else pool
    some (({ rt with requestPool := pool } : ProgramRuntime).settleCancelled handle.program)

/-- Pause an idle active Program and clear its runtime placement. -/
def pauseIdle (reference : ProgramRef) : Option ProgramRuntime :=
  match rt.program reference with
  | none => none
  | some program =>
    if program.state ≠ .active ∨ program.inFlightRequests ≠ 0 then none
    else some (rt.setProgram program.off)

/-- Activate one paused Program without consuming its retained request. -/
def activate (reference : ProgramRef) (targetId : TargetId) : Option ProgramRuntime :=
  match rt.program reference with
  | none => none
  | some program =>
    if program.state ≠ .paused ∨ rt.requestPool.programLen reference = 0 then none
    else
      let epoch := rt.nextPlacementEpoch + 1
      some { rt.setProgram (program.on targetId epoch) with nextPlacementEpoch := epoch }

/-- Release an idle Program generation with no retained requests. -/
def releaseIdle (reference : ProgramRef) (now : Instant) : Option ProgramRuntime :=
  match rt.program reference with
  | none => none
  | some program =>
    if program.inFlightRequests ≠ 0 ∨ rt.requestPool.programLen reference ≠ 0 then none
    else
      let key := reference.key
      some { rt.eraseProgram key with
        lastGenerations := rt.lastGenerations.insert key program.reference.generation
        releasedGenerationsAt := rt.releasedGenerationsAt.insert key now }

/-- Bound generation fencing history after released Programs age out. -/
def pruneReleasedGenerations (now : Instant) (retention : Duration) : ProgramRuntime :=
  let expired := rt.releasedGenerationsAt.keys.filter fun key =>
    (rt.programs.lookup key).isNone &&
      (rt.releasedGenerationsAt.lookup key).any fun releasedAt =>
        decide (retention ≤ now.saturatingDurationSince releasedAt)
  { rt with
    releasedGenerationsAt := expired.foldl (fun d key => d.erase key) rt.releasedGenerationsAt
    lastGenerations := expired.foldl (fun d key => d.erase key) rt.lastGenerations }

/-- Invalidate a placement whose backend disappeared from discovery. -/
def invalidatePlacement (reference : ProgramRef) (removedTargets : List TargetId) :
    Option ProgramRuntime :=
  match rt.program reference with
  | none => none
  | some program =>
    if ¬ program.placement.any (fun target => removedTargets.contains target) then none
    else
      let epoch := rt.nextPlacementEpoch + 1
      some { rt.setProgram (program.invalidated epoch) with nextPlacementEpoch := epoch }

/-- The lifecycle facts of a live Program. -/
def viewOf (program : RuntimeProgram) : RuntimeProgramView where
  reference := program.reference
  state := program.state
  status := program.status
  expectedResume := program.expectedResume
  placement := program.placement
  estimatedContextTokens := program.estimatedContextTokens
  inFlightRequests := program.inFlightRequests
  waitingRequests := rt.requestPool.programLen program.reference

def view (reference : ProgramRef) : Option RuntimeProgramView :=
  (rt.program reference).map rt.viewOf

/-- All live Programs, in the given order of the keys. -/
def iterViews (order : List RuntimeKey → List RuntimeKey) : List RuntimeProgramView :=
  (order rt.programs.keys).filterMap fun key => (rt.programs.lookup key).map rt.viewOf

/-- Current target that owns logical capacity for this Program. -/
def placement (reference : ProgramRef) : Option TargetId :=
  (rt.program reference).bind RuntimeProgram.placement

def frontRequestHints (reference : ProgramRef) : Option ProgramRequestHints :=
  rt.requestPool.frontHints reference

/-- Wake the front retained request after an accepted transition. -/
def notifyFront (reference : ProgramRef) : ProgramRuntime :=
  { rt with requestPool := rt.requestPool.notifyFront reference }

end ProgramRuntime

end VllmRouter.ProgramScheduling
