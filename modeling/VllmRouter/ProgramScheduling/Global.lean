import VllmRouter.ProgramScheduling.Admission

/-!
# Model-wide scheduling (`program_scheduling/scheduler_global.rs`)

With the global queue on, every cycle exhausts the local resumes of a model
pool and then considers relocating a Program to another target of the pool.
-/

namespace VllmRouter.ProgramScheduling

namespace ProgramScheduler

variable (self : ProgramScheduler)

variable (env : Env) (s : ProgramSchedulerState)

def globalReasoningWaiters (modelPool : ModelPool) : List ProgramRef :=
  ((s.globalQueues.lookup modelPool).getD []).filter (isWaiter s)

def globalLocalResumeOrder (modelPool : ModelPool) (now : Instant) : List ProgramRef :=
  self.orderResumeCandidates s (globalReasoningWaiters s modelPool) now

/-- Only Programs that were paused before may move to another target. -/
def globalCrossRankOrder (modelPool : ModelPool) (now : Instant) : List ProgramRef :=
  orderCrossRankCandidates s ((globalReasoningWaiters s modelPool).filter fun program =>
    (s.decisions.lookup program).any fun decision => decision.lastPauseReason.isSome) now

/-! ## Relocation gates -/

def destinationHasLocalWaiter (candidate : ProgramRef) (destination : TargetId) : Bool :=
  ((s.globalQueues.lookup candidate.modelPool).getD []).any fun program =>
    decide (program ≠ candidate) && isWaiter s program &&
      decide ((s.decisions.lookup program).bind ProgramDecisionState.lastTarget
        = some destination)

/-- The Program has been queued for a whole observation interval. -/
def waitedForObservation (decision : ProgramDecisionState) (now : Instant) : Bool :=
  decision.queuedAt.any fun queuedAt =>
    decide (self.config.metricsInterval ≤ now.saturatingDurationSince queuedAt)

def crossRankCandidateIsMature (program : ProgramRef) (destination : TargetId) (now : Instant) :
    Bool :=
  let decision := s.decisionAt program
  let complete (target : TargetId) : Bool := (s.rankFactors.lookup target).any fun factors =>
    factors.requestWindowComplete self.config.progressTtl.statsWindowSize
  match decision.lastTarget with
  | none => false
  | some source => complete source && complete destination && self.waitedForObservation decision now

def higherPrioritySourceWaiters (candidate : ProgramRef) (now : Instant) : Nat :=
  match (s.decisionAt candidate).lastTarget with
  | none => 0
  | some source =>
    ((globalReasoningWaiters s candidate.modelPool).filter fun program =>
      decide (program ≠ candidate) &&
        ((s.decisions.lookup program).any fun decision =>
          decide (decision.lastTarget = some source) && self.waitedForObservation decision now) &&
        decide (self.localResumeCmp s now program candidate = .lt)).length

def sourceHasResumePressure (program : ProgramRef) (now : Instant) : Bool :=
  if self.config.admissionWaitingRequestThreshold = 0 then true
  else
    ((s.decisionAt program).lastTarget.any fun source => self.backendWaiting s source now) ||
      decide (1 ≤ self.higherPrioritySourceWaiters s program now)

def destinationHasContextHeadroom (program : ProgramRef) (destination : TargetId) (now : Instant) :
    Bool :=
  match self.config.progressTtl.tokenCapacity with
  | none => true
  | some capacity =>
    let decision := s.decisionAt program
    match decision.lastTarget with
    | none => false
    | some source =>
      let limit := capacity * self.config.progressTtl.lowWatermarkRatio
      let headroom (target : TargetId) : Rat := max (limit - self.targetUsage env s target now) 0
      decide (headroom source
        + self.config.crossRankHeadroomRatio * decision.estimatedContextTokens
          ≤ headroom destination)

/-! ## Relocation target -/

def freshWaiting (now : Instant) (targetId : TargetId) : Nat :=
  (((s.observations.lookup targetId).filter fun o => self.observationIsFresh o now).bind
    RankObservationState.waitingRequests).getD 0

def relocationPressure (targetId : TargetId) (plan : RankAdmissionPlan) : Rat :=
  match plan.capacityTokens with
  | none => ((activeOn env s targetId).length + 1 : Nat)
      / (max self.config.maxActiveProgramsPerTarget 1 : Nat)
  | some capacity =>
    (plan.usedTokens + plan.requiredTokens + plan.reserveTokens) / (max capacity 1 : Nat)

/-- Fewest backend waiters, then pressure, then active Programs, then name. -/
def relocationCmp (now : Instant) (left right : TargetId × RankAdmissionPlan) : Ordering :=
  (((compare (self.freshWaiting s now left.1) (self.freshWaiting s now right.1)).then
    (compare (self.relocationPressure env s left.1 left.2)
      (self.relocationPressure env s right.1 right.2))).then
    (compare (activeOn env s left.1).length (activeOn env s right.1).length)).then
      (compare left.1 right.1)

def selectCrossRankAdmission (program : ProgramRef) (now : Instant) :
    Option (TargetId × RankAdmissionPlan) :=
  match s.decisions.lookup program with
  | none => none
  | some decision =>
    match decision.lastPauseReason, decision.lastTarget,
        s.modelTargets.lookup program.modelPool with
    | some _, some source, some targets =>
      let candidates := (targets.filter fun target =>
          decide (target ≠ source) && !destinationHasLocalWaiter s program target &&
            self.crossRankCandidateIsMature s program target now &&
            self.sourceHasResumePressure s program now &&
            self.destinationHasContextHeadroom env s program target now).filterMap fun target =>
        (self.rankAdmissionPlan env s program target now).map fun plan => (target, plan)
      minBy? (self.relocationCmp env s now) candidates
    | _, _, _ => none

/-! ## The scheduling loops -/

/-- The first waiter of the pool with a plan on its own target. -/
def globalLocalCandidate (modelPool : ModelPool) (now : Instant) : Option (ProgramRef × TargetId) :=
  (self.globalLocalResumeOrder s modelPool now).findSome? fun program =>
    ((s.decisions.lookup program).bind ProgramDecisionState.lastTarget).bind fun targetId =>
      (self.rankAdmissionPlan env s program targetId now).map fun _ => (program, targetId)

/-- The first waiter of the pool that may move, with its destination. -/
def globalCrossCandidate (modelPool : ModelPool) (now : Instant) : Option (ProgramRef × TargetId) :=
  (globalCrossRankOrder s modelPool now).findSome? fun program =>
    (self.selectCrossRankAdmission env s program now).map fun choice => (program, choice.1)

/-- One more round than there are queued Programs. -/
def poolFuel (modelPool : ModelPool) : Nat :=
  ((s.globalQueues.lookup modelPool).getD []).length + 1

def schedulePool (now : Instant) (s : ProgramSchedulerState) (modelPool : ModelPool) :
    ProgramSchedulerState :=
  let s := self.scheduleBy (fun s => self.globalLocalCandidate env s modelPool now) now
    (poolFuel s modelPool) s
  self.scheduleBy (fun s => self.globalCrossCandidate env s modelPool now) now
    (poolFuel s modelPool) s

def scheduleGlobalWaiting (now : Instant) : ProgramSchedulerState :=
  (env.nameOrder s.globalQueues.keys).foldl (self.schedulePool env now) s

def scheduleWaiting (now : Instant) : ProgramSchedulerState :=
  if self.config.globalQueue then self.scheduleGlobalWaiting env s now
  else self.scheduleRankLocal env s now

end ProgramScheduler

end VllmRouter.ProgramScheduling
