import VllmRouter.ProgramScheduling.Accounting

/-!
# Rank-local admission (`program_scheduling/scheduler_admission.rs`)

The resume order, the admission plan of one Program on one target, the commit
of an admission and of a pause, and the rank-local scheduling loop.
-/

namespace VllmRouter.ProgramScheduling

structure RankAdmissionPlan where
  usedTokens : Rat
  requiredTokens : Rat
  reserveTokens : Rat
  capacityTokens : Option Nat
  forced : Bool
  batchGain : Bool
deriving DecidableEq, Repr

namespace ProgramScheduler

variable (self : ProgramScheduler)

/-! ## Resume order -/

/-- The force-resume deadline has passed. -/
def forcedAt (decision : ProgramDecisionState) (now : Instant) : Bool :=
  decision.forceResumeDeadline.any fun deadline => decide (deadline ≤ now)

variable (env : Env) (s : ProgramSchedulerState)

def priorityOf (program : ProgramRef) : Int :=
  ((s.runtime.frontRequestHints program).map ProgramRequestHints.priority).getD 0

/-- Forced Programs first, then higher priorities. -/
def resumeTierCmp (now : Instant) (left right : ProgramRef) : Ordering :=
  (compare (forcedAt (s.decisionAt right) now) (forcedAt (s.decisionAt left) now)).then
    (compare (priorityOf s right) (priorityOf s left))

/-- A Program that yielded its segment goes behind its peers. -/
def segmentYieldCmp (left right : ProgramRef) : Ordering :=
  let yielded (program : ProgramRef) : Bool :=
    decide ((s.decisionAt program).lastPauseReason = some .maxSegmentYield)
  compare (yielded left) (yielded right)

def fcfsResumeCmp (left right : ProgramRef) : Ordering :=
  (compare (s.decisionAt left).queuedAt (s.decisionAt right).queuedAt).then
    (compare left.programId right.programId)

def ordinaryResumeCmp (left right : ProgramRef) : Ordering :=
  match self.config.resumeOrder with
  | .fcfs => fcfsResumeCmp s left right
  | .mru =>
    ((compare (s.decisionAt right).lastRequestFinishedAt
        (s.decisionAt left).lastRequestFinishedAt).then
      (compare (s.decisionAt left).queuedAt (s.decisionAt right).queuedAt)).then
        (compare left.programId right.programId)

def localResumeCmp (now : Instant) (left right : ProgramRef) : Ordering :=
  ((resumeTierCmp s now left right).then (segmentYieldCmp s left right)).then
    (self.ordinaryResumeCmp s left right)

/-- Force-resume, request priority, one-shot yield, then the local order. -/
def orderResumeCandidates (queued : List ProgramRef) (now : Instant) : List ProgramRef :=
  sortBy (self.localResumeCmp s now) queued

/-- Cross-rank escape is first come, first served within the tiers. -/
def orderCrossRankCandidates (queued : List ProgramRef) (now : Instant) : List ProgramRef :=
  sortBy (fun left right => ((resumeTierCmp s now left right).then
    (segmentYieldCmp s left right)).then (fcfsResumeCmp s left right)) queued

/-- A paused reasoning Program with a retained request. -/
def isWaiter (program : ProgramRef) : Bool :=
  (s.runtime.view program).any fun view =>
    decide (view.state = .paused ∧ view.status = .reasoning ∧ 0 < view.waitingRequests)

/-! ## Admission plan -/

/-- The backend reports at least the configured number of waiting requests. -/
def backendWaiting (targetId : TargetId) (now : Instant) : Bool :=
  (((s.observations.lookup targetId).filter fun o => self.observationIsFresh o now).bind
    RankObservationState.waitingRequests).any fun waiting =>
      decide (self.config.admissionWaitingRequestThreshold ≤ waiting)

/-- The batch-gain bypass of the growth reserve. -/
def batchGainInputs (active : List RuntimeProgramView) (factors : ProgressTtlFactors)
    (decision : ProgramDecisionState) (usedTokens requiredTokens : Rat) : BatchGainInputs :=
  let targetRounds := self.config.progressTtl.targetRounds factors
  let running := active.filter fun program => decide (program.status = .reasoning)
  let protectedPrograms := active.filterMap fun program =>
    (s.decisions.lookup program.reference).bind fun d =>
      let remaining := max (targetRounds - d.roundsSinceActivation) 0
      if 0 < remaining then some (remaining, d.lastCacheMissImpactSeconds) else none
  { factors := factors
    batchSizeBefore := running.length
    totalContextTokensBefore := (running.filterMap fun program =>
      (s.decisions.lookup program.reference).map
        ProgramDecisionState.estimatedContextTokens).sum
    candidateContextTokens := decision.estimatedContextTokens
    usedTokens := usedTokens
    requiredTokens := requiredTokens
    protectedRemainingRounds := protectedPrograms.map Prod.fst
    protectedRecoveryCostSeconds := protectedPrograms.map Prod.snd
    candidateRecoveryCostSeconds := self.config.progressTtl.cacheMissImpactSeconds
      (decision.estimatedContextTokens - decision.sharedPrefixTokens) }

/-- Tokens reserved for the continuous growth of the active Programs. -/
def growthReserve (active : List RuntimeProgramView) (targetId : TargetId) : Rat :=
  match s.rankFactors.lookup targetId with
  | none => 0
  | some factors =>
    let targetRounds := self.config.progressTtl.targetRounds factors
    self.config.progressTtl.continuousGrowthReserveTokens factors
      (active.filterMap fun program => (s.decisions.lookup program.reference).map fun d =>
        max (targetRounds - d.roundsSinceActivation) 0)

/-- Whether and how a waiting Program may be admitted to a target now. -/
def rankAdmissionPlan (program : ProgramRef) (targetId : TargetId) (now : Instant) :
    Option RankAdmissionPlan :=
  match s.runtime.view program, s.decisions.lookup program with
  | some runtime, some decision =>
    if self.config.globalQueue = false ∧ decision.lastTarget ≠ some targetId then none
    else if runtime.state ≠ .paused ∨ runtime.status ≠ .reasoning
        ∨ runtime.waitingRequests = 0 then none
    else
      let forced := forcedAt decision now
      if 0 < self.config.admissionWaitingRequestThreshold
          ∧ self.backendWaiting s targetId now = true then none
      else
        let active := activeOn env s targetId
        let usedTokens := self.targetUsage env s targetId now
        let expectedOutputTokens :=
          (s.runtime.frontRequestHints program).bind ProgramRequestHints.expectedOutputTokens
        let requiredTokens : Rat := (decision.privateTokensWithOutput
          self.config.progressTtl.decodeBufferTokens expectedOutputTokens : Nat)
        let countFits := decide
          (active.length + 1 ≤ self.config.maxActiveProgramsPerTarget)
        match self.config.progressTtl.tokenCapacity with
        | none =>
          if !forced && !countFits then none
          else some ⟨usedTokens, requiredTokens, 0, none, forced, false⟩
        | some capacityTokens =>
          let low := capacityTokens * self.config.progressTtl.lowWatermarkRatio
          let immediateFits := decide (usedTokens + requiredTokens ≤ low)
          let reserveTokens := self.growthReserve s active targetId
          let reserveFits := decide (usedTokens + requiredTokens + reserveTokens ≤ low)
          if forced || (countFits && immediateFits && reserveFits) then
            some ⟨usedTokens, requiredTokens, reserveTokens, some capacityTokens, forced, false⟩
          else if !countFits || !immediateFits then none
          else
            match s.rankFactors.lookup targetId with
            | none => none
            | some factors =>
              let estimate := self.config.progressTtl.estimateBatchGain
                (self.batchGainInputs s active factors decision usedTokens requiredTokens)
              if estimate.admits then
                some ⟨usedTokens, requiredTokens, reserveTokens, some capacityTokens, forced,
                  true⟩
              else none
  | _, _ => none

/-! ## Committed transitions -/

/-- The decision after an admission to `targetId`. -/
def admitted (decision : ProgramDecisionState) (targetId : TargetId) (now : Instant) :
    ProgramDecisionState :=
  { decision with
    lastTarget := some targetId
    roundsSinceActivation := 0
    actingSince := none
    ttlDeadline := none
    segmentStartedAt := decision.segmentStartedAt.or (some now)
    pausedAt := none
    lastPauseReason := none
    pauseWhenIdle := false
    queuedAt := none
    forceResumeDeadline := none
    forceResumeTimeout := none
    forceResumeActiveRemainingRounds := 0
    forceResumePoolRemainingRounds := 0
    forceResumeRequestThroughputPerSecond := 0 }

/-- Commit an admission; `none` when the Program cannot be activated. -/
def commitAdmission (program : ProgramRef) (targetId : TargetId) (now : Instant) :
    Option ProgramSchedulerState :=
  match s.decisions.lookup program, s.runtime.activate program targetId with
  | some decision, some runtime =>
    let s := { s with runtime := runtime }
    let s := s.modifyDecision program fun d => admitted d targetId now
    let s := s.adjustUsage targetId (self.tokensOf decision)
    let s := s.dequeue program
    some { s with runtime := s.runtime.notifyFront program }
  | _, _ => none

/-- The decision after a pause. -/
def pausedFor (decision : ProgramDecisionState) (reason : ProgramPauseReason) (now : Instant) :
    ProgramDecisionState :=
  { decision with
    pausedAt := some now
    lastPauseReason := some reason
    roundsSinceActivation := 0
    actingSince := none
    ttlDeadline := none
    pauseWhenIdle := false }.restartSharedPrefixFreshness now

/-- Commit a pause; `none` when the Program is not idle on a placement. -/
def pauseIdle (program : ProgramRef) (reason : ProgramPauseReason) (now : Instant) :
    Option ProgramSchedulerState :=
  match s.runtime.placement program, s.decisions.lookup program,
      s.runtime.pauseIdle program with
  | some targetId, some decision, some runtime =>
    let s := { s with runtime := runtime }
    let s := s.modifyDecision program fun d => pausedFor d reason now
    some (s.adjustUsage targetId (-self.tokensOf decision))
  | _, _, _ => none

/-! ## Rank-local scheduling -/

/-- Admit what `candidate` proposes until it proposes nothing. Each admission
takes a Program out of its queue, so `fuel` beyond the queue's length is never
used. -/
def scheduleBy (candidate : ProgramSchedulerState → Option (ProgramRef × TargetId))
    (now : Instant) : Nat → ProgramSchedulerState → ProgramSchedulerState
  | 0, s => s
  | fuel + 1, s =>
    match candidate s with
    | none => s
    | some (program, targetId) =>
      scheduleBy candidate now fuel ((self.commitAdmission s program targetId now).getD s)

/-- The first waiter in resume order that has a plan on the target. -/
def rankCandidate (targetId : TargetId) (now : Instant) : Option (ProgramRef × TargetId) :=
  let queued := ((s.rankQueues.lookup targetId).getD []).filter (isWaiter s)
  (self.orderResumeCandidates s queued now).findSome? fun candidate =>
    (self.rankAdmissionPlan env s candidate targetId now).map fun _ => (candidate, targetId)

def scheduleRankLocal (now : Instant) : ProgramSchedulerState :=
  (env.nameOrder s.rankQueues.keys).foldl (fun s targetId =>
    self.scheduleBy (fun s => self.rankCandidate env s targetId now) now
      (((s.rankQueues.lookup targetId).getD []).length + 1) s) s

end ProgramScheduler

end VllmRouter.ProgramScheduling
