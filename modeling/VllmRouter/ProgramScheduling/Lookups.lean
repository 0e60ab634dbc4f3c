import VllmRouter.ProgramScheduling.Steps

/-!
# The indices of the scheduler are closed

The decision table, the runtime, the request pool, the admission queues and the
target sets refer to each other by Program reference and target id. `Closed` says
that every such reference resolves; it holds after every lock section.

The source also indexes the decision table without a check, in the middle of lock
sections: `decisions[program]` panics when the Program has no decision. The model
reads such a place with `decisionAt`. `System.lookups` lists, for one action, the
states and references at which this happens (all waiters of a queue where the
source only looks at those that a sort compares), and `run_closed` shows that each
of them finds a decision.
-/

namespace VllmRouter.ProgramScheduling

open ProgramScheduler Option List ProgramRuntime

/-- One unchecked `decisions[program]`. -/
structure Lookup where
  state : ProgramSchedulerState
  program : ProgramRef

/-- The Program has a decision, so the source does not panic. -/
def Lookup.found (l : Lookup) : Bool := (l.state.decisions.lookup l.program).isSome

namespace ProgramScheduler

variable (self : ProgramScheduler)

/-! ## The lookups of a lock section -/

/-- The comparisons of one loop over one queue index its waiters. -/
def loopLookups (candidate : ProgramSchedulerState → Option (ProgramRef × TargetId))
    (queue : ProgramSchedulerState → List ProgramRef) (now : Instant) (fuel : Nat)
    (s : ProgramSchedulerState) : List Lookup :=
  (heads (self.propose candidate now) fuel s).flatMap fun head =>
    ((queue head).filter (isWaiter head)).map (Lookup.mk head)

def rankLookups (env : Env) (now : Instant) (s : ProgramSchedulerState) (targetId : TargetId) :
    List Lookup :=
  self.loopLookups (fun s => self.rankCandidate env s targetId now)
    (fun s => (s.rankQueues.lookup targetId).getD []) now
    (((s.rankQueues.lookup targetId).getD []).length + 1) s

/-- The two loops of a pool, the second one with the gates of a relocation. -/
def poolLookups (env : Env) (now : Instant) (s : ProgramSchedulerState)
    (modelPool : ModelPool) : List Lookup :=
  let resumed := self.poolResumed env now s modelPool
  let queue (s : ProgramSchedulerState) := (s.globalQueues.lookup modelPool).getD []
  self.loopLookups (fun s => self.globalLocalCandidate env s modelPool now) queue now
      (poolFuel s modelPool) s
    ++ self.loopLookups (fun s => self.globalCrossCandidate env s modelPool now) queue now
      (poolFuel resumed modelPool) resumed

def waitingLookups (env : Env) (s : ProgramSchedulerState) (now : Instant) : List Lookup :=
  if self.config.globalQueue then
    runLog (self.schedulePool env now) (self.poolLookups env now) s
      (env.nameOrder s.globalQueues.keys)
  else
    runLog (self.scheduleRank env now) (self.rankLookups env now) s
      (env.nameOrder s.rankQueues.keys)

/-- The accounting of each victim, at the time it is relieved. -/
def relieveLookups (low averageCompletion : Rat) (now : Instant) :
    List CapacityVictim → Rat → ProgramSchedulerState → List Lookup
  | [], _, _ => []
  | victim :: victims, projected, s =>
    if projected ≤ low then []
    else
      let relief := self.tokensOf (s.decisionAt victim.reference)
        + (if victim.status = .reasoning then averageCompletion else 0)
      ⟨s, victim.reference⟩ :: match self.relieve s victim now with
        | some s => relieveLookups low averageCompletion now victims (max (projected - relief) 0) s
        | none => relieveLookups low averageCompletion now victims projected s

def repairTargetLookups (env : Env) (capacity : Nat) (now : Instant) (s : ProgramSchedulerState)
    (targetId : TargetId) : List Lookup :=
  let high := capacity * self.config.progressTtl.highWatermarkRatio
  let low := capacity * self.config.progressTtl.lowWatermarkRatio
  let projected := self.projectedUsage env s targetId (averageCompletion s targetId) now
  if projected ≤ high then []
  else self.relieveLookups low (averageCompletion s targetId) now
    (sortBy victimCmp (self.victims env s targetId now)) projected s

def repairLookups (env : Env) (s : ProgramSchedulerState) (now : Instant) : List Lookup :=
  match self.config.progressTtl.tokenCapacity with
  | none => []
  | some capacity =>
    runLog (self.repairTarget env capacity now) (self.repairTargetLookups env capacity now) s
      (sortedKeys s.targets)

/-- The lookups of a decision sequence. -/
def followLookups (s : ProgramSchedulerState) : FollowUp → List Lookup
  | .nothing => []
  | .waiting env now => self.waitingLookups env s now
  | .arrival env now =>
    self.repairLookups env (self.expireActingTtls env (self.releaseExpiredPaused env s now) now) now
      ++ self.waitingLookups env (self.arrivalSettled env s now) now
  | .periodic env now | .tick env now =>
    if self.config.bindingOnly then []
    else self.repairLookups env (self.deadlinesSettled env s now) now
      ++ self.waitingLookups env (self.periodicSettled env s now) now
  | .activation _ _ => []

/-- An order of the waiters for `targetId` compares their decisions. -/
def orderLookups (s : ProgramSchedulerState) (modelPool : ModelPool) (targetId : TargetId) :
    List Lookup :=
  (if self.config.globalQueue then globalReasoningWaiters s modelPool
    else ((s.rankQueues.lookup targetId).getD []).filter (isWaiter s)).map (Lookup.mk s)

/-- The deadline of an arrival that waits is estimated from the order of the queue
it has entered. -/
def deadlineLookups (s : ProgramSchedulerState) (program : ProgramRef) (arrivedAt : Instant) :
    List Lookup :=
  match s.runtime.placement program, (s.decisionAt program).lastTarget with
  | none, some targetId =>
    self.orderLookups ((self.enqueueOnce s program targetId).modifyDecision program
      (queuedSince arrivedAt)) program.modelPool targetId
  | _, _ => []

/-- A completed segment is yielded to the first waiter of the order. -/
def yieldLookups (env : Env) (s : ProgramSchedulerState) (dispatch : ProgramDispatch)
    (success terminate : Bool) (usage : ProgramUsageObservation) (decodeSeconds : Option Rat)
    (now : Instant) : List Lookup :=
  match s.runtime.view dispatch.program, s.decisions.lookup dispatch.program with
  | some runtimeBefore, some decisionBefore =>
    if runtimeBefore.placement ≠ some dispatch.targetId ∨ self.config.bindingOnly then []
    else
      match s.runtime.completeRequest dispatch usage with
      | none => []
      | some runtime =>
        let s := self.settleCompletion { s with runtime := runtime }
          (self.completionFacts env s dispatch decisionBefore success usage decodeSeconds now)
          (self.tokensOf decisionBefore) terminate
        match s.runtime.placement dispatch.program with
        | none => []
        | some targetId => self.orderLookups s dispatch.program.modelPool targetId
  | _, _ => []

/-- The state in which a completion accounts its Program. -/
def completionRecorded (env : Env) (s : ProgramSchedulerState) (dispatch : ProgramDispatch)
    (success terminate : Bool) (usage : ProgramUsageObservation) (decodeSeconds : Option Rat)
    (now : Instant) : Option ProgramSchedulerState :=
  (s.decisions.lookup dispatch.program).bind fun decisionBefore =>
    (s.runtime.completeRequest dispatch usage).map fun runtime =>
      let facts := self.completionFacts env s dispatch decisionBefore success usage
        decodeSeconds now
      let s := noteCompletion { s with runtime := runtime } dispatch.program terminate
      let action := completionAction s dispatch.program success
      (self.pauseCompleted s dispatch.program action now).modifyDecision dispatch.program
        (facts.completed action)

end ProgramScheduler

/-- The lookups that a section makes before its decision sequence. -/
def System.bodyLookups (sched : ProgramScheduler) (sys : System) (now : Instant) :
    Action → List Lookup
  | .acquire env identity estimatedContextTokens targets routingText arrivedAt =>
    if arrivedAt ≤ now ∧ targets ≠ [] then
      let (arrived, handle) :=
        sched.arrive env sys.state identity estimatedContextTokens routingText arrivedAt
      ⟨arrived, handle.program⟩ :: sched.deadlineLookups arrived handle.program arrivedAt
    else []
  | .complete env dispatch success terminate usage decodeSeconds =>
    match sys.dispatches[dispatch]? with
    | none => []
    | some dispatch =>
      ((sched.completionRecorded env sys.state dispatch success terminate usage decodeSeconds
        now).map fun s => Lookup.mk s dispatch.program).toList
        ++ sched.yieldLookups env sys.state dispatch success terminate usage decodeSeconds now
  | _ => []

/-- Every unchecked lookup of an action. -/
def System.lookups (sched : ProgramScheduler) (sys : System) (event : Instant × Action) :
    List Lookup :=
  if sys.clock ≤ event.1 then
    let body := sys.body sched event.1 event.2
    sys.bodyLookups sched event.1 event.2 ++ sched.followLookups body.1 body.2
  else []

/-! ## They find a decision -/

variable {sched : ProgramScheduler} {s : ProgramSchedulerState}

/-- Every live Program has a decision. -/
def ProgramSchedulerState.Decided (s : ProgramSchedulerState) : Prop :=
  ∀ r, (s.runtime.program r).isSome = true → (s.decisions.lookup r).isSome = true

lemma Consistent.decided (h : Consistent sched s) : s.Decided := by
  intro r hr
  obtain ⟨P, hP⟩ := isSome_iff_exists.1 hr
  obtain ⟨d, hd, -⟩ := (h.sound r).of_program hP
  rw [show s.decisions.lookup r = some d from hd]
  rfl

/-- A waiter is live. -/
lemma ProgramSchedulerState.Decided.found (h : s.Decided) {queue : List ProgramRef} :
    ∀ l ∈ (queue.filter (isWaiter s)).map (Lookup.mk s), l.found = true := by
  intro l hl
  obtain ⟨p, hp, rfl⟩ := mem_map.1 hl
  refine h p ?_
  have hwaiter := (mem_filter.1 hp).2
  unfold isWaiter view at hwaiter
  cases hP : s.runtime.program p with
  | none =>
    rw [hP] at hwaiter
    cases hwaiter
  | some => rfl

variable {now : Instant} {sys : System}
  {candidate : ProgramSchedulerState → Option (ProgramRef × TargetId)}

lemma Consistent.propose (h : Consistent sched s) (hcandidate : sched.Elects candidate now)
    (hpropose : sched.propose candidate now s = some s') : Consistent sched s' := by
  obtain ⟨_, hchoice, rfl⟩ := map_eq_some_iff.1 hpropose
  obtain ⟨hchosen, s', hcommit⟩ := hcandidate s _ _ hchoice
  rw [hcommit]
  exact h.decides (ProgramScheduler.Admits.single hchosen hcommit).decides

lemma loopLookups_found (hcandidate : sched.Elects candidate now) (h : Consistent sched s) :
    ∀ l ∈ sched.loopLookups candidate queue now fuel s, l.found = true := by
  intro l hl
  obtain ⟨head, hhead, hmem⟩ := mem_flatMap.1 hl
  have hconsistent : Consistent sched head :=
    heads_invariant (fun _ _ h hnext => h.propose hcandidate hnext) fuel s h head hhead
  exact hconsistent.decided.found l hmem

/-- What a logged loop over a list looks up, when every round finds its own. -/
lemma runLog_found {α : Type} {f : ProgramSchedulerState → α → ProgramSchedulerState}
    {out : ProgramSchedulerState → α → List Lookup} (hstep : ∀ s x, Consistent sched s →
      Consistent sched (f s x) ∧ ∀ l ∈ out s x, l.found = true) (xs) :
    ∀ s, Consistent sched s → ∀ l ∈ runLog f out s xs, l.found = true := by
  induction xs with
  | nil =>
    intro s _ l hl
    cases hl
  | cons x xs ih =>
    intro s h l hl
    obtain ⟨hnext, hout⟩ := hstep s x h
    rcases mem_append.1 hl with hnow | hlater
    · exact hout l hnow
    · exact ih (f s x) hnext l hlater

lemma waitingLookups_found (env now) (h : Consistent sched s) :
    ∀ l ∈ sched.waitingLookups env s now, l.found = true := by
  unfold waitingLookups
  split
  · rename_i hglobal
    refine runLog_found (fun s pool h => ?_) _ s h
    have hlocal := sched.globalLocalCandidate_elects env pool now
    have hcross := sched.globalCrossCandidate_elects env pool now hglobal
    have hresumed : Consistent sched (sched.poolResumed env now s pool) :=
      h.decides (sched.scheduleBy_admits hlocal _ s).decides
    refine ⟨hresumed.decides (sched.scheduleBy_admits hcross _ _).decides, fun l hl => ?_⟩
    rcases mem_append.1 hl with hl | hl
    · exact loopLookups_found hlocal h l hl
    · exact loopLookups_found hcross hresumed l hl
  · rename_i hglobal
    rw [Bool.not_eq_true] at hglobal
    refine runLog_found (fun s t h => ?_) _ s h
    have hrank := sched.rankCandidate_elects env t now hglobal
    exact ⟨h.decides (sched.scheduleBy_admits hrank _ s).decides, loopLookups_found hrank h⟩

/-! ## Capacity repair -/

/-- Updating decisions keeps the Programs that have one. -/
lemma isSome_modifyDecision (s : ProgramSchedulerState) (p r)
    (f : ProgramDecisionState → ProgramDecisionState) :
    ((s.modifyDecision p f).decisions.lookup r).isSome = (s.decisions.lookup r).isSome := by
  unfold ProgramSchedulerState.modifyDecision
  rw [Dict.lookup_modify]
  split
  · rename_i hr
    rw [hr, isSome_map]
  · rfl

lemma isSome_pauseIdle (h : sched.pauseIdle s p reason now = some s') (r) :
    (s'.decisions.lookup r).isSome = (s.decisions.lookup r).isSome := by
  obtain ⟨P, d, t, -, -, -, -, -, rfl⟩ := pauseIdle_eq_some h
  exact isSome_modifyDecision _ p r _

lemma isSome_relieve (h : sched.relieve s victim now = some s') (r) :
    (s'.decisions.lookup r).isSome = (s.decisions.lookup r).isSome := by
  unfold relieve at h
  split at h
  · exact isSome_pauseIdle h r
  split at h
  · cases h
    exact isSome_modifyDecision s _ r _
  · cases h

lemma relieveLookups_found (low averageCompletion now) :
    ∀ victims projected
      (s : ProgramSchedulerState), (∀ v ∈ victims, (s.decisions.lookup v.reference).isSome = true) →
      ∀ l ∈ sched.relieveLookups low averageCompletion now victims projected s, l.found = true := by
  intro victims
  induction victims with
  | nil =>
    intro _ _ _ _ hl
    cases hl
  | cons v victims ih =>
    intro _ s hvictims l hl
    have hrest : ∀ w ∈ victims, (s.decisions.lookup w.reference).isSome = true :=
      fun w hw => hvictims w (mem_cons_of_mem _ hw)
    unfold relieveLookups at hl
    split at hl
    · cases hl
    rcases mem_cons.1 hl with rfl | hl
    · exact hvictims v mem_cons_self
    cases hrelieve : sched.relieve s v now with
    | none =>
      rw [hrelieve] at hl
      exact ih _ s hrest l hl
    | some s1 =>
      rw [hrelieve] at hl
      refine ih _ s1 (fun w hw => ?_) l hl
      rw [isSome_relieve hrelieve]
      exact hrest w hw

lemma repairLookups_found (env now) (h : Consistent sched s) :
    ∀ l ∈ sched.repairLookups env s now, l.found = true := by
  unfold repairLookups
  cases sched.config.progressTtl.tokenCapacity with
  | none =>
    intro l hl
    cases hl
  | some capacity =>
    refine runLog_found (fun s t h => ⟨?_, fun l hl => ?_⟩) _ s h
    · exact h.decides (sched.repairTarget_settles env capacity now s t).decides
    unfold repairTargetLookups at hl
    simp only at hl
    split at hl
    · cases hl
    refine relieveLookups_found _ _ now _ _ s (fun v hv => ?_) l hl
    obtain ⟨view, -, hvictim⟩ := mem_filterMap.1 (mem_sortBy.1 hv)
    obtain ⟨d, hd, rfl⟩ := map_eq_some_iff.1 hvictim
    obtain ⟨hd, -⟩ := filter_eq_some_iff.1 hd
    show (s.decisions.lookup view.reference).isSome = true
    rw [hd]
    rfl

/-! ## Sections -/

lemma followLookups_found (followUp) (h : Consistent sched s) :
    ∀ l ∈ sched.followLookups s followUp, l.found = true := by
  have hperiodic : ∀ env now, ∀ l ∈ sched.repairLookups env (sched.deadlinesSettled env s now) now
      ++ sched.waitingLookups env (sched.periodicSettled env s now) now, l.found = true := by
    intro env now l hl
    rcases mem_append.1 hl with hl | hl
    · exact repairLookups_found env now
        (h.decides (sched.deadlinesSettled_settles env s now).decides) l hl
    · exact waitingLookups_found env now
        (h.decides (sched.periodicSettled_settles env s now).decides) l hl
  intro l hl
  cases followUp with
  | nothing
  | activation => cases hl
  | waiting env now => exact waitingLookups_found env now h l hl
  | arrival env now =>
    rcases mem_append.1 hl with hl | hl
    · refine repairLookups_found env now (h.decides ?_) l hl
      exact ((sched.releaseExpiredPaused_settles env s now).trans
        (sched.expireActingTtls_settles env _ now)).decides
    · exact waitingLookups_found env now
        (h.decides (sched.arrivalSettled_settles env s now).decides) l hl
  | periodic env now
  | tick env now =>
    simp only [followLookups] at hl
    split at hl
    · cases hl
    · exact hperiodic env now l hl

lemma completionRecorded_found
    (h : sched.completionRecorded env s dispatch success terminate usage decodeSeconds now
      = some s') : (Lookup.mk s' dispatch.program).found = true := by
  obtain ⟨d, hd, hmap⟩ := bind_eq_some_iff.1 h
  obtain ⟨rt, -, rfl⟩ := map_eq_some_iff.1 hmap
  have hnoted : (((noteCompletion { s with runtime := rt } dispatch.program
      terminate).decisions).lookup dispatch.program).isSome = true := by
    refine (isSome_modifyDecision { s with runtime := rt } dispatch.program dispatch.program
      _).trans
      ?_
    show (s.decisions.lookup dispatch.program).isSome = true
    rw [hd]
    rfl
  refine (isSome_modifyDecision _ dispatch.program dispatch.program _).trans ?_
  unfold pauseCompleted
  split
  · rename_i reason _
    cases hpause : sched.pauseIdle (noteCompletion { s with runtime := rt }
        dispatch.program terminate) dispatch.program reason now with
    | none => exact hnoted
    | some => exact (isSome_pauseIdle hpause dispatch.program).trans hnoted
  · exact hnoted

lemma orderLookups_found (h : s.Decided) (modelPool targetId) :
    ∀ l ∈ sched.orderLookups s modelPool targetId, l.found = true := by
  unfold orderLookups
  split
  · exact h.found
  · exact h.found

/-- An arrival enters its queue with a decision. -/
lemma deadlineLookups_found (h : s.Decided) (p arrivedAt) :
    ∀ l ∈ sched.deadlineLookups s p arrivedAt, l.found = true := by
  intro l hl
  unfold deadlineLookups at hl
  split at hl
  · rename_i t _ _
    obtain ⟨_, _, henqueue⟩ := enqueueOnce_eq sched s p t
    rw [henqueue] at hl
    refine orderLookups_found (fun r hr => ?_) _ _ l hl
    exact (isSome_modifyDecision _ p r _).trans (h r hr)
  · cases hl

lemma isSome_program_pauseIdle (h : sched.pauseIdle s p reason now = some s')
    (hr : (s.runtime.program r).isSome = true) : (s'.runtime.program r).isSome = true := by
  obtain ⟨P, d, t, hP, -, -, -, -, rfl⟩ := pauseIdle_eq_some h
  have hlive : s.runtime.program P.off.reference = some P := by
    rw [show P.off.reference = p from (program_eq_some.1 hP).2]
    exact hP
  show ((s.runtime.setProgram P.off).program r).isSome = true
  rw [program_setProgram_live hlive]
  split
  · rfl
  · exact hr

/-- A yield pauses the Program or does nothing. -/
lemma yieldCompletedSegment_or (env s p now) : sched.yieldCompletedSegment env s p now = s ∨
    sched.pauseIdle s p .maxSegmentYield now = some (sched.yieldCompletedSegment env s p now) := by
  unfold yieldCompletedSegment
  split
  · split
    · exact .inl rfl
    split
    · exact .inl rfl
    split
    · exact .inl rfl
    show (if _ then _ else s) = s ∨ _ = some (if _ then _ else s)
    split
    · cases sched.pauseIdle s p .maxSegmentYield now with
      | none => exact .inl rfl
      | some => exact .inr rfl
    · exact .inl rfl
  · exact .inl rfl

/-- A yield leaves Programs and decisions, so a state before it had them too. -/
lemma decided_of_yield (h : (sched.yieldCompletedSegment env s p now).Decided) : s.Decided := by
  rcases yieldCompletedSegment_or env s p now with heq | hpause
  · rwa [heq] at h
  intro r hr
  rw [← isSome_pauseIdle hpause r]
  exact h r (isSome_program_pauseIdle hpause hr)

lemma yieldLookups_found (hbody : ∀ s',
      sched.completeBody env s dispatch success terminate usage decodeSeconds now = some s' →
        s'.Decided) :
    ∀ l ∈ sched.yieldLookups env s dispatch success terminate usage decodeSeconds now,
      l.found = true := by
  intro l hl
  unfold yieldLookups at hl
  unfold completeBody at hbody
  split at hl
  · rename_i hview hd
    rw [hview, hd] at hbody
    split at hl
    · cases hl
    rename_i hguard
    rw [not_or, not_not] at hguard
    cases hrt : s.runtime.completeRequest dispatch usage with
    | none =>
      rw [hrt] at hl
      cases hl
    | some =>
      rw [hrt] at hl hbody
      simp only [hguard.1, hguard.2, ne_eq, not_true_eq_false, if_false, Option.map_some] at hl hbody
      split at hl
      · cases hl
      · exact orderLookups_found (decided_of_yield (hbody _ rfl)) _ _ l hl
  · cases hl

/-- The state in which the decision sequence of an action starts is consistent. -/
lemma body_consistent (now action) (h : Consistent sched sys.state) :
    Consistent sched (sys.body sched now action).1 := by
  obtain ⟨s1, houtcome, hsettles⟩ := perform_leads h now action
  exact (houtcome.consistent h).decides hsettles.decides

lemma bodyLookups_found (now action) (h : Consistent sched sys.state) :
    ∀ l ∈ sys.bodyLookups sched now action, l.found = true := by
  intro l hl
  cases action with
  | acquire env identity tokens _ text arrivedAt =>
    simp only [System.bodyLookups] at hl
    split at hl
    · obtain ⟨s0, p, harrive, -, harrives, hframe, -⟩ := arrive_arrives env identity
        tokens text arrivedAt h.sound h.policy
      obtain ⟨Q, e, -, he⟩ := harrives.live
      have hp : (s0.decisions.lookup p).isSome = true := by
        rw [show s0.decisions.lookup p = some e from he]
        rfl
      have hdecided : s0.Decided := by
        intro r hr
        by_cases hrp : r = p
        · rw [hrp]
          exact hp
        have hsame := hframe.others r hrp
        rw [show s0.decisions.lookup r = sys.state.decisions.lookup r from congrArg
          Facts.decision hsame]
        refine h.decided r ?_
        rwa [← show s0.runtime.program r = sys.state.runtime.program r from congrArg
          Facts.program hsame]
      rw [harrive] at hl
      rcases mem_cons.1 hl with rfl | hl
      · exact hp
      · exact deadlineLookups_found hdecided p arrivedAt l hl
    · cases hl
  | complete env i success terminate usage decodeSeconds =>
    have hbody := (body_consistent now
      (.complete env i success terminate usage decodeSeconds) h).decided
    simp only [System.bodyLookups] at hl
    split at hl
    · cases hl
    rename_i dispatch hdispatch
    rcases mem_append.1 hl with hl | hl
    · obtain ⟨s', hs', rfl⟩ := map_eq_some_iff.1 (mem_toList.1 hl)
      exact completionRecorded_found hs'
    · refine yieldLookups_found (fun s' hs' => ?_) l hl
      simp only [System.body, System.finishBody, hdispatch, Option.bind_some, hs'] at hbody
      exact hbody
  | _ => cases hl

lemma lookups_found (event) (h : Consistent sched sys.state) :
    ∀ l ∈ sys.lookups sched event, l.found = true := by
  intro l hl
  unfold System.lookups at hl
  split at hl
  · rcases mem_append.1 hl with hl | hl
    · exact bodyLookups_found event.1 event.2 h l hl
    · exact followLookups_found _ (body_consistent event.1 event.2 h) l hl
  · cases hl

/-! ## Closed indices -/

/-- A reference names a stored Program of exactly its generation. -/
def ProgramSchedulerState.stored (s : ProgramSchedulerState) (r : ProgramRef) : Prop :=
  ∃ P, s.runtime.programs.lookup r.key = some P ∧ P.reference = r

/-- Every index of the scheduler resolves. -/
structure Closed (s : ProgramSchedulerState) : Prop where
  decisions : ∀ r, r ∈ s.decisions ↔ s.stored r
  rankQueues : ∀ t queue, s.rankQueues.lookup t = some queue → ∀ r ∈ queue, s.stored r
  globalQueues : ∀ pool queue, s.globalQueues.lookup pool = some queue → ∀ r ∈ queue, s.stored r
  requests : ∀ r, s.runtime.requestPool.queue r ≠ [] → s.stored r
  placements : ∀ key P, s.runtime.programs.lookup key = some P → P.state = .active →
    ∃ t d, P.placement = some t ∧ s.decisions.lookup P.reference = some d ∧
      d.lastTarget = some t ∧ t ∈ (s.modelTargets.lookup P.reference.modelPool).getD []

lemma stored_iff : s.stored r ↔ (s.facts r).program.isSome = true := by
  rw [isSome_iff_exists]
  constructor
  · rintro ⟨P, hP, href⟩
    exact ⟨P, program_eq_some.2 ⟨hP, href⟩⟩
  · rintro ⟨P, hP⟩
    exact ⟨P, program_eq_some.1 hP⟩

/-- A Program in a queue is stored. -/
lemma Consistent.stored_of_queued (h : Consistent sched s) (hqueued : (s.facts r).Queued) :
    s.stored r := by
  refine stored_iff.2 ?_
  cases h.sound r with
  | dead _ _ _ hnot => exact absurd hqueued hnot
  | live hP =>
    rw [hP]
    rfl

lemma Consistent.closed (h : Consistent sched s) : Closed s where
  decisions := by
    intro r
    rw [stored_iff, ← (h.sound r).decision_isSome, ← AList.lookup_isSome]
    rfl
  rankQueues := by
    intro t _ hqueue r hr
    refine h.stored_of_queued (.inl ⟨t, ?_⟩)
    show ((s.rankQueues.lookup t).getD []).count r ≠ 0
    rw [hqueue]
    exact (count_pos_iff.2 hr).ne'
  globalQueues := by
    intro pool _ hqueue r hr
    refine h.stored_of_queued (.inr ⟨pool, ?_⟩)
    show ((s.globalQueues.lookup pool).getD []).count r ≠ 0
    rw [hqueue]
    exact (count_pos_iff.2 hr).ne'
  requests := by
    intro r hr
    obtain ⟨P, d, hP, -⟩ := (h.sound r).of_pending hr
    rw [stored_iff, hP]
    rfl
  placements := by
    intro _ P hP hactive
    have hlive : (s.facts P.reference).program = some P := program_of_lookup hP
    obtain ⟨d, hd, hlive⟩ := (h.sound P.reference).of_program hlive
    obtain ⟨t, ht⟩ := isSome_iff_exists.1 (hlive.placed.1 hactive)
    have hlast : d.lastTarget = some t := (hlive.last hactive).trans ht
    exact ⟨t, d, ht, hd, hlast, hlive.home t hlast⟩

/-- After every lock section the indices are closed, and no section that follows
indexes the decision table by a Program that has no decision. -/
theorem run_closed (sched : ProgramScheduler) (events : List (Instant × Action)) :
    Closed ((System.empty sched.config).run sched events).state ∧
      ∀ event, ∀ l ∈ ((System.empty sched.config).run sched events).lookups sched event,
        l.found = true := by
  have h := run_consistent sched events
  exact ⟨h.closed, fun event => lookups_found event h⟩

end VllmRouter.ProgramScheduling
