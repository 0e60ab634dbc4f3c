import VllmRouter.ProgramScheduling.Fairness

/-!
# Completion, acting TTL, release and capacity repair
(`program_scheduling/scheduler_lifecycle.rs`)

Completion is the only path that records request-derived rolling factors.
Periodic decisions evaluate existing deadlines.
-/

namespace VllmRouter.ProgramScheduling

open ProgramDecisionState

namespace ProgramScheduler

variable (self : ProgramScheduler)

/-! ## Release -/

variable (env : Env) (s : ProgramSchedulerState)

/-- The capacity that a Program gives back when it is released. -/
def activeRelief (program : ProgramRef) : Option (TargetId × Rat) :=
  match s.runtime.view program, s.decisions.lookup program with
  | some view, some decision =>
    if view.state = .active then
      view.placement.map fun targetId => (targetId, self.tokensOf decision)
    else none
  | _, _ => none

/-- Release a Program that has no outstanding request, with its decision and
its binding; it leaves the queues in any case. -/
def releaseProgram (program : ProgramRef) (now : Instant) : ProgramSchedulerState :=
  let s := s.dequeue program
  let relief := self.activeRelief s program
  match s.runtime.releaseIdle program now with
  | none => s
  | some runtime =>
    let s := { s with runtime := runtime }
    let s := match relief with
      | some (targetId, tokens) => s.adjustUsage targetId (-tokens)
      | none => s
    { s with
      decisions := s.decisions.erase program
      bindings := s.bindings.releaseProgram program }

/-- The condition under which a paused Program is released at `now`. -/
def retentionExpired (view : RuntimeProgramView) (now : Instant) : Bool :=
  decide (view.state = .paused ∧ view.status = .acting ∧ view.inFlightRequests = 0
    ∧ view.waitingRequests = 0) &&
    (s.decisions.lookup view.reference).any fun decision =>
      decision.pausedAt.any fun pausedAt =>
        decide (self.config.pausedRetentionTtl ≤ now.saturatingDurationSince pausedAt)

def releaseExpiredPaused (now : Instant) : ProgramSchedulerState :=
  let expired := (s.runtime.iterViews env.programOrder).filter fun view =>
    self.retentionExpired s view now
  (expired.map RuntimeProgramView.reference).foldl (fun s program =>
    self.releaseProgram s program now) s

/-! ## Acting TTL -/

/-- An idle active Program whose acting deadline has passed. -/
def actingExpired (view : RuntimeProgramView) (now : Instant) : Bool :=
  decide (view.state = .active ∧ view.status = .acting ∧ view.inFlightRequests = 0) &&
    (s.decisions.lookup view.reference).any fun decision =>
      decision.ttlDeadline.any fun deadline => decide (deadline ≤ now)

/-- The decision after its segment was sampled by a TTL pause. -/
def ttlSampled (segmentRounds : Nat) (decision : ProgramDecisionState) : ProgramDecisionState :=
  { decision with ttlPauseSampledSegmentRounds := segmentRounds, roundsSinceTtlPause := 0 }

/-- Sample the segment of a Program that was paused at its acting deadline;
`decision` is the one before the pause. -/
def sampleTtlPause (program : ProgramRef) (decision : Option ProgramDecisionState) :
    ProgramSchedulerState :=
  let segmentRounds := (decision.map segmentServedRounds).getD 0
  let sampled := (decision.map ttlPauseSampledSegmentRounds).getD 0
  let s := s.modifyDecision program (ttlSampled segmentRounds)
  match decision.bind lastTarget with
  | none => s
  | some target => s.modifyFactors target fun factors =>
      factors.pushTtlPauseRounds (segmentRounds - sampled)
        self.config.progressTtl.statsWindowSize

/-- Pause one Program at its acting deadline and sample its segment length. -/
def expireActingTtl (now : Instant) (s : ProgramSchedulerState) (program : ProgramRef) :
    ProgramSchedulerState :=
  match self.pauseIdle s program .ttlExpired now with
  | none => s
  | some paused => self.sampleTtlPause paused program (s.decisions.lookup program)

def expireActingTtls (now : Instant) : ProgramSchedulerState :=
  let expired := (s.runtime.iterViews env.programOrder).filter fun view => actingExpired s view now
  (expired.map RuntimeProgramView.reference).foldl (self.expireActingTtl now) s

/-! ## Capacity repair -/

structure CapacityVictim where
  reference : ProgramRef
  status : ProgramStatus
  score : Rat
  sortPrivateTokens : Rat

/-- A Program that repair may pause now or mark for its next idle moment. -/
def isVictim (view : RuntimeProgramView) (decision : ProgramDecisionState) : Bool :=
  match view.status with
  | .acting => decide (view.inFlightRequests = 0)
  | .reasoning => !decision.pauseWhenIdle && decide (0 < view.inFlightRequests)

def victimOf (averagePrompt : Rat) (now : Instant) (view : RuntimeProgramView)
    (decision : ProgramDecisionState) : CapacityVictim :=
  let elapsed : Rat := match decision.segmentStartedAt with
    | none => 0
    | some started => (now.saturatingDurationSince started).asSecsF64
  let input : Nat := match view.status with
    | .acting => decision.lastContextTokens.getD decision.estimatedContextTokens
    | .reasoning => decision.estimatedContextTokens
  { reference := view.reference
    status := view.status
    score := elapsed
      * max (1 / self.libm.sqrt (max ((input : Rat) / averagePrompt) (1 / 1000000))) (1 / 2)
    sortPrivateTokens := self.tokensOf decision }

def victimCmp (left right : CapacityVictim) : Ordering :=
  ((compare right.score left.score).then
    (compare right.sortPrivateTokens left.sortPrivateTokens)).then
      (compare left.reference.programId right.reference.programId)

/-- The decision of a Program that pauses at its next idle moment. -/
def marked (decision : ProgramDecisionState) : ProgramDecisionState :=
  { decision with pauseWhenIdle := true }

/-- Pause an acting victim, or mark a reasoning one. -/
def relieve (victim : CapacityVictim) (now : Instant) : Option ProgramSchedulerState :=
  match victim.status with
  | .acting => self.pauseIdle s victim.reference .capacityRepair now
  | .reasoning =>
    if (s.decisions.lookup victim.reference).isSome then
      some (s.modifyDecision victim.reference marked)
    else none

/-- Relieve victims until the projection is at most `low`. -/
def relieveVictims (low averageCompletion : Rat) (now : Instant) :
    List CapacityVictim → Rat → ProgramSchedulerState → ProgramSchedulerState
  | [], _, s => s
  | victim :: victims, projected, s =>
    if projected ≤ low then s
    else
      let relief := self.tokensOf (s.decisionAt victim.reference)
        + (if victim.status = .reasoning then averageCompletion else 0)
      match self.relieve s victim now with
      | some s => relieveVictims low averageCompletion now victims (max (projected - relief) 0) s
      | none => relieveVictims low averageCompletion now victims projected s

/-- Usage expected at the next idle boundary, less the relief that earlier
repairs have already committed. -/
def projectedUsage (targetId : TargetId) (averageCompletion : Rat) (now : Instant) : Rat :=
  let active := activeOn env s targetId
  let reasoning := active.filter fun view => decide (view.status = .reasoning)
  let marked := reasoning.filterMap fun view =>
    (s.decisions.lookup view.reference).filter pauseWhenIdle
  let routerUsage := (active.filterMap fun view =>
    (s.decisions.lookup view.reference).map self.tokensOf).sum
  let targetUsage := (self.observedTargetUsage s targetId now).getD routerUsage
  max (targetUsage + averageCompletion * reasoning.length - (marked.map self.tokensOf).sum
    - averageCompletion * marked.length) 0

/-- Average completion length of a rank, in whole tokens. -/
def averageCompletion (targetId : TargetId) : Rat :=
  match s.rankFactors.lookup targetId with
  | none => 0
  | some factors => factors.averageCompletionTokens.ceil

def averagePrompt (targetId : TargetId) : Rat :=
  match s.rankFactors.lookup targetId with
  | none => 1
  | some factors => max factors.averagePromptTokens 1

/-- The Programs of a rank that repair may choose from. -/
def victims (targetId : TargetId) (now : Instant) : List CapacityVictim :=
  (activeOn env s targetId).filterMap fun view =>
    ((s.decisions.lookup view.reference).filter (isVictim view)).map
      (self.victimOf (averagePrompt s targetId) now view)

def repairTarget (capacity : Nat) (now : Instant) (s : ProgramSchedulerState)
    (targetId : TargetId) : ProgramSchedulerState :=
  let high := capacity * self.config.progressTtl.highWatermarkRatio
  let low := capacity * self.config.progressTtl.lowWatermarkRatio
  let projected := self.projectedUsage env s targetId (averageCompletion s targetId) now
  if projected ≤ high then s
  else self.relieveVictims low (averageCompletion s targetId) now
    (sortBy victimCmp (self.victims env s targetId now)) projected s

def repairCapacity (now : Instant) : ProgramSchedulerState :=
  match self.config.progressTtl.tokenCapacity with
  | none => s
  | some capacity => (sortedKeys s.targets).foldl (self.repairTarget env capacity now) s

/-! ## Decision sequences -/

/-- The request-arrival decision sequence. -/
def runRequestArrivalDecisions (now : Instant) : ProgramSchedulerState :=
  let s := self.releaseExpiredPaused env s now
  let s := self.expireActingTtls env s now
  let s := self.repairCapacity env s now
  self.scheduleWaiting env s now

def runPeriodicDecisions (now : Instant) : ProgramSchedulerState :=
  let retention := max self.config.pausedRetentionTtl (Duration.fromSecs 60)
  let s := { s with runtime := s.runtime.pruneReleasedGenerations now retention }
  let s := self.expireActingTtls env s now
  let s := self.releaseExpiredPaused env s now
  if self.config.bindingOnly then s
  else
    let s := self.repairCapacity env s now
    self.scheduleWaiting env s now

/-! ## Completion -/

inductive CompletionAction where
  | terminate
  | pause (reason : ProgramPauseReason)
  | startActingTtl
deriving DecidableEq, Repr

/-- One completion, with the estimates taken before it is recorded. -/
structure CompletionFacts where
  dispatch : ProgramDispatch
  success : Bool
  usage : ProgramUsageObservation
  decodeSeconds : Option Rat
  now : Instant
  observedPromptTokens : Nat
  cachedPromptTokens : Nat
  explicitlyObservedCacheTokens : Nat
  cacheMissImpactSeconds : Rat
  actingTtl : Duration
  freshness : Duration

/-- How long a shared prefix counts as fresh: the time in which the rank turns
its cache over, once it is known. -/
def sharedPrefixFreshness (targetId : TargetId) : Duration :=
  let warmup := self.config.sharedPrefixFreshnessWarmup
  match s.rankFactors.lookup targetId, self.config.progressTtl.tokenCapacity with
  | some factors, some capacity =>
    if !factors.requestWindowComplete self.config.progressTtl.statsWindowSize then warmup
    else
      let activeReasoning := ((activeOn env s targetId).filter fun program =>
        decide (program.status = .reasoning)).length
      let averageUncached := factors.averageUncachedPromptTokens
      let averageLatency := factors.averageE2eSeconds
      if activeReasoning = 0 ∨ averageUncached ≤ 0 ∨ averageLatency ≤ 0 then warmup
      else
        let seconds := self.config.sharedPrefixFreshnessKvTurnovers * capacity * averageLatency
          / activeReasoning / averageUncached
        if 0 ≤ seconds then Duration.fromSecsF64 seconds else warmup
  | _, _ => warmup

/-- Round a non-negative amount to the nearest integer, halves up. -/
def roundToNat (amount : Rat) : Nat := (amount + 1 / 2).floor.toNat

def completionFacts (dispatch : ProgramDispatch) (decisionBefore : ProgramDecisionState)
    (success : Bool) (usage : ProgramUsageObservation) (decodeSeconds : Option Rat)
    (now : Instant) : CompletionFacts :=
  let factors := s.rankFactors.lookup dispatch.targetId
  let observedPromptTokens := usage.promptTokens.getD dispatch.estimatedContextTokens
  let fallbackCachedTokens : Nat := match factors with
    | none => 0
    | some factors => roundToNat factors.averageCachedPromptTokens
  let sharedPrefixForCost := min decisionBefore.sharedPrefixTokens observedPromptTokens
  let cacheMissImpactSeconds := self.config.progressTtl.cacheMissImpactSeconds
    (observedPromptTokens - sharedPrefixForCost)
  let policyActingTtl : Duration := match factors with
    | none => 0
    | some factors =>
      self.config.progressTtl.fittedActingTtl self.libm factors cacheMissImpactSeconds
  { dispatch := dispatch
    success := success
    usage := usage
    decodeSeconds := decodeSeconds
    now := now
    observedPromptTokens := observedPromptTokens
    cachedPromptTokens :=
      min (usage.cachedPromptTokens.getD fallbackCachedTokens) observedPromptTokens
    explicitlyObservedCacheTokens := min (usage.cachedPromptTokens.getD 0) observedPromptTokens
    cacheMissImpactSeconds := cacheMissImpactSeconds
    actingTtl := dispatch.requestHints.kvRetentionTtl.getD policyActingTtl
    freshness := self.sharedPrefixFreshness env s dispatch.targetId }

namespace CompletionFacts

variable (facts : CompletionFacts) (decision : ProgramDecisionState)

/-- At least nine tenths of the previous context was served from the cache. -/
def cacheContinuous : Bool :=
  decision.lastContextTokens.all fun previous =>
    decide (9 / 10 * (previous : Rat) ≤ (facts.cachedPromptTokens : Rat))

def startsNewSegment : Bool :=
  facts.dispatch.placementStartRequest &&
    (decision.lastContextTokens.isNone || !facts.cacheContinuous decision)

def freshnessDue : Bool :=
  facts.startsNewSegment decision &&
    (!decision.sharedPrefixObserved ||
      decision.sharedPrefixFreshUntil.all fun deadline => decide (deadline ≤ facts.now))

def contextGrowthTokens : Option Nat :=
  decision.lastContextTokens.bind fun previous =>
    let growth := facts.observedPromptTokens - previous
    if 0 < previous ∧ 0 < growth ∧ growth < previous then some growth else none

/-- The context estimate after the completion. -/
def observeContext : ProgramDecisionState :=
  if facts.usage.promptTokens.isSome then
    decision.observeCompletedContext facts.observedPromptTokens
  else if decision.estimatedContextTokens ≤ facts.observedPromptTokens then
    { decision with
      estimatedContextTokens := facts.observedPromptTokens, contextShrinkObservations := 0 }
  else decision

/-- A new cache segment, with a new shared prefix when the old one is stale. -/
def startSegment :
    ProgramDecisionState :=
  let started := { decision with
    segmentServedRounds := 0
    ttlPauseSampledSegmentRounds := 0
    segmentStartedAt := some facts.dispatch.dispatchedAt }
  if facts.freshnessDue decision then
    { started with
      sharedPrefixTokens := facts.explicitlyObservedCacheTokens
      sharedPrefixObserved := true
      sharedPrefixFreshUntil := some (decision.sharedPrefixFreshnessAnchorAt + facts.freshness) }
  else started

/-- The counters of a successful request. -/
def countRound : ProgramDecisionState :=
  let continuous := if facts.cacheContinuous decision then 1 else 0
  { decision with
    completedRequests := decision.completedRequests + 1
    segmentServedRounds := decision.segmentServedRounds + 1
    roundsSinceActivation := decision.roundsSinceActivation + continuous
    roundsSinceTtlPause := decision.roundsSinceTtlPause + continuous
    lastContextTokens := some facts.observedPromptTokens
    lastRequestFinishedAt := some facts.now
    lastCacheMissImpactSeconds := facts.cacheMissImpactSeconds }

/-- The decision after the completion. -/
def completed (facts : CompletionFacts) (action : Option CompletionAction)
    (decision : ProgramDecisionState) : ProgramDecisionState :=
  let decision := facts.observeContext decision
  let decision := if facts.success then
      facts.countRound
        (if facts.startsNewSegment decision then facts.startSegment decision else decision)
    else decision
  let decision := if action = some .startActingTtl then
      { decision with
        actingSince := some facts.now, ttlDeadline := some (facts.now + facts.actingTtl) }
    else decision
  { decision with outputTokenReservation := none }

/-- The sample of a successful request; `decision` is the one before it. -/
def requestSample (facts : CompletionFacts) (decision : ProgramDecisionState) :
    Option RequestSample :=
  if facts.success then
    some
      { promptTokens := facts.observedPromptTokens
        completionTokens := facts.usage.completionTokens.getD 0
        cachedPromptTokens := facts.cachedPromptTokens
        contextGrowthTokens := facts.contextGrowthTokens decision
        e2eSeconds := (facts.now.saturatingDurationSince facts.dispatch.requestArrivedAt).asSecsF64
        decodeSeconds := facts.decodeSeconds
        queueSeconds := (facts.dispatch.dispatchedAt.saturatingDurationSince
          facts.dispatch.requestArrivedAt).asSecsF64
        roundsSinceTtlPause :=
          decision.roundsSinceTtlPause + if facts.cacheContinuous decision then 1 else 0
        finishedAt := facts.now }
  else none

end CompletionFacts

/-- What follows a completion that leaves nothing outstanding. -/
def completionAction (program : ProgramRef) (success : Bool) : Option CompletionAction :=
  match s.runtime.view program, s.decisions.lookup program with
  | some runtime, some decision =>
    if runtime.inFlightRequests = 0 ∧ runtime.waitingRequests = 0 then
      if decision.terminateWhenIdle then some .terminate
      else if decision.pauseWhenIdle then some (.pause .capacityRepair)
      else if success then some .startActingTtl
      else some (.pause .requestFailed)
    else none
  | _, _ => none

/-- A retained successor cancels a deferred pause; termination is remembered. -/
def noted (continues terminate : Bool) (decision : ProgramDecisionState) :
    ProgramDecisionState :=
  { decision with
    pauseWhenIdle := if continues then false else decision.pauseWhenIdle
    terminateWhenIdle := decision.terminateWhenIdle || terminate }

def noteCompletion (program : ProgramRef) (terminate : Bool) : ProgramSchedulerState :=
  let continues := (s.runtime.view program).any fun runtime =>
    decide (runtime.inFlightRequests = 0 ∧ 0 < runtime.waitingRequests)
  s.modifyDecision program (noted continues terminate)

/-- Pause the Program if that is what follows its completion. -/
def pauseCompleted (program : ProgramRef) (action : Option CompletionAction) (now : Instant) :
    ProgramSchedulerState :=
  match action with
  | some (.pause reason) => (self.pauseIdle s program reason now).getD s
  | _ => s

/-- Account what the completion changed of a Program that is still active. -/
def accountCompletion (program : ProgramRef) (targetId : TargetId) (accountedTokensBefore : Rat) :
    ProgramSchedulerState :=
  if (s.runtime.view program).any fun runtime => decide (runtime.state = .active) then
    s.adjustUsage targetId (self.tokensOf (s.decisionAt program) - accountedTokensBefore)
  else s

/-- Record a request sample on the rank that served the request. -/
def sampleRequest (targetId : TargetId) (sample : Option RequestSample) : ProgramSchedulerState :=
  match sample with
  | some sample => s.modifyFactors targetId fun factors =>
      factors.pushRequest sample self.config.progressTtl.statsWindowSize
  | none => s

/-- The effects of a completion on the Program and its rank. -/
def recordCompletion (facts : CompletionFacts) (accountedTokensBefore : Rat)
    (action : Option CompletionAction) : ProgramSchedulerState :=
  let program := facts.dispatch.program
  let targetId := facts.dispatch.targetId
  let s := self.pauseCompleted s program action facts.now
  let sample := (s.decisions.lookup program).bind facts.requestSample
  let s := s.modifyDecision program (facts.completed action)
  let s := self.accountCompletion s program targetId accountedTokensBefore
  self.sampleRequest s targetId sample

/-- Record a completion and release a Program that it terminates. -/
def settleCompletion (facts : CompletionFacts) (accountedTokensBefore : Rat) (terminate : Bool) :
    ProgramSchedulerState :=
  let program := facts.dispatch.program
  let s := noteCompletion s program terminate
  let action := completionAction s program facts.success
  let s := self.recordCompletion s facts accountedTokensBefore action
  if action = some .terminate then self.releaseProgram s program facts.now else s

/-- Record one backend completion and run the follow-up decisions of a tick. A
completion of another generation, placement or epoch changes nothing. -/
def complete (dispatch : ProgramDispatch) (success terminate : Bool)
    (usage : ProgramUsageObservation) (decodeSeconds : Option Rat) (now : Instant) :
    ProgramSchedulerState :=
  match s.runtime.view dispatch.program, s.decisions.lookup dispatch.program with
  | some runtimeBefore, some decisionBefore =>
    if runtimeBefore.placement ≠ some dispatch.targetId then s
    else
      let facts := self.completionFacts env s dispatch decisionBefore success usage
        decodeSeconds now
      match s.runtime.completeRequest dispatch usage with
      | none => s
      | some runtime =>
        let s := self.settleCompletion { s with runtime := runtime } facts
          (self.tokensOf decisionBefore) terminate
        let s := if self.config.bindingOnly then s
          else self.yieldCompletedSegment env s dispatch.program now
        self.runPeriodicDecisions env s now
  | _, _ => s

/-- Evaluate deadlines, repair capacity, and admit waiters. -/
def tick (now : Instant) : ProgramSchedulerState :=
  self.reportCapacityAccountingTransitions (self.runPeriodicDecisions env s now) now

end ProgramScheduler

end VllmRouter.ProgramScheduling
