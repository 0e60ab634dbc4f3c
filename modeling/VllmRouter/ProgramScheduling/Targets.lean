import VllmRouter.ProgramScheduling.Lifecycle

/-!
# Target synchronization (`program_scheduling/scheduler.rs`)

A target snapshot replaces the targets of one model pool.

- A snapshot that is the current allocation, or that names the same targets
  with the same data, changes no scheduling state.
- Otherwise the entries of the removed targets are dropped, and every Program
  of the pool whose target is not in the snapshot is bound again (`failOver`).

Targets are keyed globally although snapshots belong to a pool.
-/

namespace VllmRouter.ProgramScheduling

/-- The targets of a snapshot by id; of two with one id the later one counts. -/
def incomingTargets (items : List ProgramTarget) : Dict TargetId ProgramTarget :=
  items.foldl (fun incoming target => incoming.insert target.id target) ∅

namespace ProgramSchedulerState

variable (s : ProgramSchedulerState)

/-- The snapshot names the targets the pool already has. -/
def unchanged (modelPool : ModelPool) (incoming : Dict TargetId ProgramTarget) : Bool :=
  decide (s.modelTargets.lookup modelPool = some (ProgramScheduler.sortedKeys incoming)) &&
    incoming.entries.all fun entry => decide (s.targets.lookup entry.1 = some entry.2)

/-- The targets that a snapshot of these ids takes from the pool. -/
def removedTargets (modelPool : ModelPool) (currentIds : List TargetId) : List TargetId :=
  ((s.modelTargets.lookup modelPool).getD []).filter fun target => !currentIds.contains target

/-- Register the targets of a snapshot. -/
def installTargets (modelPool : ModelPool) (targets : TargetSnapshot)
    (incoming : Dict TargetId ProgramTarget) : ProgramSchedulerState :=
  let currentIds := ProgramScheduler.sortedKeys incoming
  { s with
    targetSnapshotRevision := s.targetSnapshotRevision + 1
    modelTargetSnapshots := s.modelTargetSnapshots.insert modelPool targets
    modelTargets := s.modelTargets.insert modelPool currentIds
    targets := incoming.entries.foldl (fun all entry => all.insert entry.1 entry.2) s.targets
    globalQueues := s.globalQueues.upsert modelPool [] id
    rankQueues := currentIds.foldl (fun queues target => queues.upsert target [] id) s.rankQueues
    rankFactors := currentIds.foldl (fun factors target => factors.upsert target .default id)
      s.rankFactors
    observations := currentIds.foldl (fun all target => all.upsert target .default id)
      s.observations }

/-- Forget everything that is kept under a removed target. -/
def forgetTarget (target : TargetId) : ProgramSchedulerState :=
  { s with
    bindings := s.bindings.removeTarget target
    rankQueues := s.rankQueues.erase target
    rankFactors := s.rankFactors.erase target
    observations := s.observations.erase target }

/-- Drop the targets that no pool names. -/
def dropUnreferenced : ProgramSchedulerState :=
  let referenced := s.modelTargets.values.flatten
  { s with targets := s.targets.retain fun target _ => referenced.contains target }

/-- Put a Program at the end of the queue of its pool. -/
def enqueueGlobal (program : ProgramRef) : ProgramSchedulerState :=
  { s with
    globalQueues := s.globalQueues.upsert program.modelPool [] fun queue => queue ++ [program] }

/-- Put a Program at the end of the queue of a rank. -/
def enqueueRank (program : ProgramRef) (target : TargetId) : ProgramSchedulerState :=
  { s with rankQueues := s.rankQueues.upsert target [] fun queue => queue ++ [program] }

end ProgramSchedulerState

namespace ProgramScheduler

variable (self : ProgramScheduler)

/-! ## Failover -/

/-- A Program of the pool that has to be bound again, as it was when the
snapshot arrived. -/
structure AffectedProgram where
  program : ProgramRef
  expectedResume : Bool
  waitingRequests : Nat
  targetDisappeared : Bool
  placementKey : String
  placementHashKey : String

/-- The decision names no target of the snapshot. -/
def needsRebinding (currentIds : List TargetId) (decision : ProgramDecisionState) : Bool :=
  decision.lastTarget.all fun target => !currentIds.contains target

def affectedPrograms (env : Env) (s : ProgramSchedulerState) (modelPool : ModelPool)
    (currentIds removed : List TargetId) : List AffectedProgram :=
  ((s.runtime.iterViews env.programOrder).filter fun program =>
      decide (program.reference.modelPool = modelPool)).filterMap fun program =>
    ((s.decisions.lookup program.reference).filter (needsRebinding currentIds)).map
      fun decision =>
        { program := program.reference
          expectedResume := program.expectedResume
          waitingRequests := program.waitingRequests
          targetDisappeared := decision.lastTarget.any fun target => removed.contains target
          placementKey := decision.placementKey
          placementHashKey := decision.placementHashKey }

/-- The decision after failover to `replacement`. -/
def failedOver (replacement : Option TargetId) (interrupted : Bool) (now : Instant)
    (decision : ProgramDecisionState) : ProgramDecisionState :=
  let decision := { decision with homeTarget := replacement, lastTarget := replacement }
  if interrupted then
    { decision with
      pausedAt := some now
      pauseWhenIdle := false
      ttlDeadline := none
      segmentStartedAt := none }.restartSharedPrefixFreshness now
  else decision

/-- Take a Program off a removed target, and out of the bindings and queues. -/
def detach (s : ProgramSchedulerState) (removed : List TargetId) (program : ProgramRef) :
    ProgramSchedulerState :=
  { s.dequeue program with
    runtime := (s.runtime.invalidatePlacement program removed).getD s.runtime
    bindings := s.bindings.releaseProgram program }

/-- Queue a Program that has a retained request for its replacement. In the
global mode it is queued even when no replacement was found. -/
def requeue (s : ProgramSchedulerState) (program : ProgramRef) (waitingRequests : Nat)
    (replacement : Option TargetId) : ProgramSchedulerState :=
  if waitingRequests = 0 then s
  else if self.config.globalQueue then s.enqueueGlobal program
  else
    match replacement with
    | some target => s.enqueueRank program target
    | none => s

/-- Bind one affected Program again and queue it if it has a retained request. -/
def failOver (env : Env) (now : Instant) (removed : List TargetId)
    (s : ProgramSchedulerState) (affected : AffectedProgram) : ProgramSchedulerState :=
  let program := affected.program
  let invalidated := (s.runtime.invalidatePlacement program removed).isSome
  let identity := ProgramIdentity.forRebinding program affected.placementHashKey
    affected.placementKey affected.expectedResume
  let (s, replacement) := self.bind env (detach s removed program) identity none now
  let s := s.modifyDecision program
    (failedOver replacement (invalidated || affected.targetDisappeared) now)
  self.requeue s program affected.waitingRequests replacement

/-! ## Synchronization -/

variable (env : Env) (s : ProgramSchedulerState) (modelPool : ModelPool) (targets : TargetSnapshot)
  (now : Instant)

/-- Install a snapshot that changes the targets of the pool. -/
def changeTargets : ProgramSchedulerState :=
  let incoming := incomingTargets targets.items
  let currentIds := sortedKeys incoming
  let removed := s.removedTargets modelPool currentIds
  let s := s.installTargets modelPool targets incoming
  let s := removed.foldl ProgramSchedulerState.forgetTarget s
  let s := (affectedPrograms env s modelPool currentIds removed).foldl
    (self.failOver env now removed) s
  s.dropUnreferenced

def syncTargetSnapshotLocked : ProgramSchedulerState :=
  if (s.modelTargetSnapshots.lookup modelPool).any fun current =>
      decide (current.addr = targets.addr) then s
  else if s.unchanged modelPool (incomingTargets targets.items) then
    { s with modelTargetSnapshots := s.modelTargetSnapshots.insert modelPool targets }
  else self.changeTargets env s modelPool targets now

end ProgramScheduler

end VllmRouter.ProgramScheduling
