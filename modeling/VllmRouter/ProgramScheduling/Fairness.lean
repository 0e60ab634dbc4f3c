import VllmRouter.ProgramScheduling.Global

/-!
# Force-resume deadlines and segment yield (`program_scheduling/scheduler_fairness.rs`)

A Program that enters a queue gets a deadline after which its resume is
forced. The estimate behind it is the work ahead of the Program divided by the
request throughput, within fixed bounds.
-/

namespace VllmRouter.ProgramScheduling

structure ForceResumeEstimate where
  timeout : Duration
  activeRemainingRounds : Rat
  poolRemainingRounds : Rat
  requestThroughputPerSecond : Rat

def ForceResumeEstimate.fallback (timeout : Duration) : ForceResumeEstimate := ⟨timeout, 0, 0, 0⟩

namespace ProgramScheduler

variable (self : ProgramScheduler)

/-! ## Force-resume estimates -/

/-- Three times the work ahead, within thirty seconds and the configured
maximum. -/
def forceResumeBound (work throughput : Rat) : Duration :=
  let maximum := self.config.forceResumeTimeout.asSecsF64
  let minimum := min 30 maximum
  Duration.fromSecsF64 (min (max (3 * work / throughput) minimum) maximum)

/-- Rounds an active Program still has to run; a reasoning one has one left. -/
def remainingRounds (targetRounds : Rat) (program : RuntimeProgramView)
    (decision : ProgramDecisionState) : Rat :=
  max (targetRounds - decision.roundsSinceActivation)
    (if program.status = .reasoning then 1 else 0)

variable (env : Env) (s : ProgramSchedulerState)

def forceResumeTimeout (targetId : TargetId) (candidate : ProgramRef) (now : Instant) :
    ForceResumeEstimate :=
  match s.rankFactors.lookup targetId with
  | none => .fallback self.config.forceResumeTimeout
  | some factors =>
    let throughput := factors.requestThroughputPerSecond
    let targetRounds := self.config.progressTtl.targetRounds factors
    if targetRounds ≤ 0 ∨ throughput ≤ 0 then .fallback self.config.forceResumeTimeout
    else
      let activeRemaining := ((activeOn env s targetId).filterMap fun program =>
        (s.decisions.lookup program.reference).map (remainingRounds targetRounds program)).sum
      let queued := ((s.rankQueues.lookup targetId).getD []).filter fun program =>
        isWaiter s program &&
          decide ((s.decisions.lookup program).bind ProgramDecisionState.lastTarget
            = some targetId)
      let ahead := (self.orderResumeCandidates s queued now).takeWhile fun program =>
        decide (program ≠ candidate)
      let poolRemaining : Rat := ahead.length * max targetRounds 1
      { timeout := self.forceResumeBound (activeRemaining + poolRemaining) throughput
        activeRemainingRounds := activeRemaining
        poolRemainingRounds := poolRemaining
        requestThroughputPerSecond := throughput }

/-- Rounds and throughput of every target of a pool, when all are known. -/
def poolRates (targets : List TargetId) : Option (Dict TargetId Rat × Rat) :=
  targets.foldlM (fun (rounds, aggregate) target =>
    (s.rankFactors.lookup target).bind fun factors =>
      let targetRounds := self.config.progressTtl.targetRounds factors
      let throughput := factors.requestThroughputPerSecond
      if targetRounds ≤ 0 ∨ throughput ≤ 0 then none
      else some (rounds.insert target targetRounds, aggregate + throughput)) (∅, 0)

def globalForceResumeTimeout (candidate : ProgramRef) (now : Instant) : ForceResumeEstimate :=
  let fallback := ForceResumeEstimate.fallback self.config.forceResumeTimeout
  match s.modelTargets.lookup candidate.modelPool with
  | none => fallback
  | some targets =>
    if targets = [] then fallback
    else
      match self.poolRates s targets with
      | none => fallback
      | some (targetRounds, aggregateThroughput) =>
        if aggregateThroughput ≤ 0 then fallback
        else
          let active := (s.runtime.iterViews env.programOrder).filter fun program =>
            decide (program.state = .active)
          let activeRemaining := (active.filterMap fun program =>
            (program.placement.bind fun target => targetRounds.lookup target).bind fun rounds =>
              (s.decisions.lookup program.reference).map (remainingRounds rounds program)).sum
          let fallbackRounds := targetRounds.values.sum / (max targetRounds.keys.length 1 : Nat)
          let queued := self.orderResumeCandidates s
            (globalReasoningWaiters s candidate.modelPool) now
          let ahead := queued.takeWhile fun program => decide (program ≠ candidate)
          let poolRemaining := (ahead.filterMap fun program =>
            (s.decisions.lookup program).map fun decision =>
              max ((decision.lastTarget.bind fun target => targetRounds.lookup target).getD
                fallbackRounds) 1).sum
          { timeout := self.forceResumeBound (activeRemaining + poolRemaining)
              aggregateThroughput
            activeRemainingRounds := activeRemaining
            poolRemainingRounds := poolRemaining
            requestThroughputPerSecond := aggregateThroughput }

/-- The decision with a force-resume deadline `timeout` after `now`. -/
def withDeadline (now : Instant) (timeout : Duration) (estimate : ForceResumeEstimate)
    (decision : ProgramDecisionState) : ProgramDecisionState :=
  { decision with
    forceResumeDeadline := some (now + timeout)
    forceResumeTimeout := some timeout
    forceResumeActiveRemainingRounds := estimate.activeRemainingRounds
    forceResumePoolRemainingRounds := estimate.poolRemainingRounds
    forceResumeRequestThroughputPerSecond := estimate.requestThroughputPerSecond }

/-- Set the deadline of a Program that waits for `targetId`. A deadline hint of
its front request replaces the estimate. -/
def setForceResumeDeadline (targetId : TargetId) (candidate : ProgramRef) (now : Instant) :
    ProgramSchedulerState :=
  let estimate := if self.config.globalQueue then self.globalForceResumeTimeout env s candidate now
    else self.forceResumeTimeout env s targetId candidate now
  let hint := (s.runtime.frontRequestHints candidate).bind ProgramRequestHints.deadline
  let timeout := min (hint.getD estimate.timeout) self.config.queueTimeout
  s.modifyDecision candidate (withDeadline now timeout estimate)

/-! ## Segment yield -/

/-- The waiters that would use the place of a Program on `targetId`. -/
def yieldWaiters (modelPool : ModelPool) (targetId : TargetId) (now : Instant) : List ProgramRef :=
  if self.config.globalQueue then
    (self.orderResumeCandidates s (globalReasoningWaiters s modelPool) now).filter fun waiter =>
      (s.decisions.lookup waiter).any fun decision => decide (decision.lastTarget = some targetId)
  else
    self.orderResumeCandidates s
      (((s.rankQueues.lookup targetId).getD []).filter (isWaiter s)) now

/-- Yield an idle Program at the soft segment limit only for a local waiter. -/
def yieldCompletedSegment (program : ProgramRef) (now : Instant) : ProgramSchedulerState :=
  match s.runtime.view program, s.decisions.lookup program with
  | some runtime, some decision =>
    if runtime.state ≠ .active ∨ runtime.status ≠ .acting
        ∨ decision.roundsSinceActivation < self.config.progressTtl.maxSegmentRounds then s
    else
      match runtime.placement with
      | none => s
      | some targetId =>
        match (self.yieldWaiters s program.modelPool targetId now).find? fun waiter =>
            decide (waiter ≠ program) with
        | none => s
        | some waiter =>
          let waiterRequired := ((s.decisions.lookup waiter).map self.tokensOf).getD 0
          let futureRelief := (((activeOn env s targetId).filter fun runtime =>
              decide (runtime.status = .reasoning)).filterMap fun runtime =>
            ((s.decisions.lookup runtime.reference).filter
              ProgramDecisionState.pauseWhenIdle).map self.tokensOf).sum
          if futureRelief < waiterRequired then
            (self.pauseIdle s program .maxSegmentYield now).getD s
          else s
  | _, _ => s

end ProgramScheduler

end VllmRouter.ProgramScheduling
