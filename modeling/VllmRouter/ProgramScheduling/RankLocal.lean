import VllmRouter.ProgramScheduling.Usage

/-!
# Rank-local scheduling reaches a fixpoint

Three facts make the loops of `schedule_rank_local` end in a fixpoint:

- A plan can always be committed, and the commit takes the Program out of the
  queue, so the loop over a queue ends.
- A plan on a target depends on the Program and on what is placed on that target
  (`rankAdmissionPlan_congr`), in no particular order. An admission to another target
  changes neither.
- A queued Program is queued for the target it is bound to (`Aligned`), so what is
  admitted from one queue was not in another.

The resume order is a total preorder, so the first waiter with a plan precedes
every other one.
-/

namespace VllmRouter.ProgramScheduling

open ProgressTtlConfig Duration ProgramDecisionState
open ProgramScheduler ProgramRuntime Option ProgramSchedulerState List ProgressTtlFactors

variable {sched : ProgramScheduler} {s s' : ProgramSchedulerState}

/-! ## The resume order -/

instance (s : ProgramSchedulerState) (now : Instant) : Std.TransCmp (resumeTierCmp s now) :=
  inferInstanceAs (Std.TransCmp (compareLex
    (fun left right => compareOn (fun p => forcedAt (s.decisionAt p) now) right left)
    (fun left right => compareOn (priorityOf s) right left)))

instance (s : ProgramSchedulerState) : Std.TransCmp (segmentYieldCmp s) :=
  inferInstanceAs (Std.TransCmp (compareOn fun p =>
    decide ((s.decisionAt p).lastPauseReason = some .maxSegmentYield)))

instance (s : ProgramSchedulerState) : Std.TransCmp (fcfsResumeCmp s) :=
  inferInstanceAs (Std.TransCmp (compareLex (compareOn fun p => (s.decisionAt p).queuedAt)
    (compareOn ProgramRef.programId)))

instance (sched : ProgramScheduler) (s : ProgramSchedulerState) :
    Std.TransCmp (sched.ordinaryResumeCmp s) := by
  unfold ordinaryResumeCmp
  cases sched.config.resumeOrder with
  | fcfs => exact inferInstanceAs (Std.TransCmp (fcfsResumeCmp s))
  | mru =>
    exact inferInstanceAs (Std.TransCmp (compareLex (compareLex
      (fun left right => compareOn (fun p => (s.decisionAt p).lastRequestFinishedAt) right left)
      (compareOn fun p => (s.decisionAt p).queuedAt)) (compareOn ProgramRef.programId)))

instance (sched : ProgramScheduler) (s : ProgramSchedulerState) (now : Instant) :
    Std.TransCmp (sched.localResumeCmp s now) :=
  inferInstanceAs (Std.TransCmp (compareLex (compareLex (resumeTierCmp s now) (segmentYieldCmp s))
    (sched.ordinaryResumeCmp s)))

/-! ## What a plan reads -/

lemma view_congr {r : ProgramRef} (h : s'.facts r = s.facts r) :
    s'.runtime.view r = s.runtime.view r := by
  have hprogram : s'.runtime.program r = s.runtime.program r := congrArg Facts.program h
  have hpending : s'.runtime.requestPool.queue r = s.runtime.requestPool.queue r :=
    congrArg Facts.pending h
  unfold view
  rw [hprogram]
  cases hP : s.runtime.program r with
  | none => rfl
  | some P =>
    have hlen : s'.runtime.requestPool.programLen P.reference
        = s.runtime.requestPool.programLen P.reference := by
      rw [program_reference hP]
      exact congrArg length hpending
    rw [map_some, map_some]
    unfold viewOf
    rw [hlen]

variable {env : Env} {p : ProgramRef}

variable {view : RuntimeProgramView}

lemma mem_activeOn {t : TargetId} : view ∈ activeOn env s t ↔
      s.isOn t view.reference = true ∧ s.runtime.view view.reference = some view := by
  unfold activeOn
  rw [mem_filter, decide_eq_true_iff, isOn_iff]
  constructor
  · rintro ⟨hview, hstate, hplace⟩
    obtain ⟨P, hP, hviewOf⟩ := ProgramRuntime.mem_iterViews hview
    refine ⟨⟨P, hP, ?_, ?_⟩, ?_⟩
    · rw [← hstate, ← hviewOf]
      rfl
    · rw [← hplace, ← hviewOf]
      rfl
    · unfold ProgramRuntime.view
      rw [hP, map_some, hviewOf]
  · rintro ⟨⟨P, hP, hstate, hplace⟩, hview⟩
    obtain ⟨_, hview', href⟩ := (mem_iterViews_iff env).2 ⟨P, hP⟩
    obtain ⟨P', hP', hviewOf'⟩ := ProgramRuntime.mem_iterViews hview'
    unfold ProgramRuntime.view at hview
    rw [href, hP] at hP'
    cases hP'
    rw [hP, map_some, some.injEq] at hview
    rw [← hview, hviewOf']
    refine ⟨hview', ?_⟩
    rw [← hviewOf']
    exact ⟨hstate, hplace⟩

/-- The states agree on what a plan on the target reads of the target. -/
structure SameRank (t : TargetId) (s s' : ProgramSchedulerState) : Prop where
  on : ∀ r, s'.isOn t r = s.isOn t r
  facts : ∀ r, s.isOn t r = true → s'.facts r = s.facts r
  observation : s'.observations.lookup t = s.observations.lookup t
  factors : s'.rankFactors.lookup t = s.rankFactors.lookup t

lemma SameRank.refl (t s) : SameRank t s s := ⟨fun _ => rfl, fun _ _ => rfl, rfl, rfl⟩

variable {t : TargetId} {now : Instant}

/-- The scans find the same Programs. -/
lemma SameRank.perm (h : SameRank t s s') (env env') :
    (activeOn env' s' t).Perm (activeOn env s t) := by
  refine (perm_ext_iff_of_nodup (nodup_activeOn env' s' t).of_map
    (nodup_activeOn env s t).of_map).2 fun view => ?_
  rw [mem_activeOn, mem_activeOn, h.on]
  refine and_congr_right fun hon => ?_
  rw [view_congr (h.facts view.reference hon)]

lemma SameRank.decision (h : SameRank t s s') {env' : Env} (hview : view ∈ activeOn env' s' t) :
    s'.decisions.lookup view.reference = s.decisions.lookup view.reference := by
  have hon : s.isOn t view.reference = true := by
    rw [← h.on]
    exact (mem_activeOn.1 hview).1
  exact congrArg Facts.decision (h.facts view.reference hon)

/-- What is read of the decisions of the active Programs. -/
lemma SameRank.filterMap_perm {β : Type} (h : SameRank t s s') (env env')
    (f : ProgramDecisionState → Option β) :
    ((activeOn env' s' t).filterMap fun view => (s'.decisions.lookup view.reference).bind f).Perm
      ((activeOn env s t).filterMap fun view => (s.decisions.lookup view.reference).bind f) := by
  have hread : ((activeOn env' s' t).filterMap fun view =>
      (s'.decisions.lookup view.reference).bind f)
        = (activeOn env' s' t).filterMap fun view => (s.decisions.lookup view.reference).bind f :=
    filterMap_congr fun _ hview => by rw [h.decision hview]
  rw [hread]
  exact (h.perm env env').filterMap _

lemma perm_nil_iff {α : Type} {l l' : List α} (h : l'.Perm l) : l' = [] ↔ l = [] := by
  rw [← length_eq_zero_iff, h.length_eq, length_eq_zero_iff]

lemma average_perm {values values' : List Rat} (h : values'.Perm values) :
    average values' = average values := by
  unfold average optionalAverage
  simp [h.sum_eq, h.length_eq, perm_nil_iff h]

/-- The batch gain does not depend on the order of the protected Programs. -/
lemma estimateBatchGain_perm (cfg : ProgressTtlConfig) {input input' : BatchGainInputs}
    {rounds costs : List Rat} (hinput : input' = { input with
      protectedRemainingRounds := rounds
      protectedRecoveryCostSeconds := costs })
    (hrounds : rounds.Perm input.protectedRemainingRounds)
    (hcosts : costs.Perm input.protectedRecoveryCostSeconds) :
    cfg.estimateBatchGain input' = cfg.estimateBatchGain input := by
  have hloss : ∀ capacity, cfg.continuityLossSeconds { input with
      protectedRemainingRounds := rounds
      protectedRecoveryCostSeconds := costs } capacity
        = cfg.continuityLossSeconds input capacity := by
    intro _
    unfold continuityLossSeconds
    simp [hrounds.sum_eq, average_perm hcosts, perm_nil_iff hcosts]
  rw [hinput]
  unfold estimateBatchGain
  simp [hloss]

section

variable (h : SameRank t s s')
include h

lemma SameRank.growthReserve (env env') :
    sched.growthReserve s' (activeOn env' s' t) t = sched.growthReserve s (activeOn env s t) t := by
  unfold ProgramScheduler.growthReserve
  rw [h.factors]
  cases s.rankFactors.lookup t with
  | none => rfl
  | some factors =>
    have hsum := (h.filterMap_perm env env' fun d => some
      (max (sched.config.progressTtl.targetRounds factors - d.roundsSinceActivation) 0)).sum_eq
    unfold continuousGrowthReserveTokens
    simp only [map_eq_bind, Function.comp_def, hsum]

lemma SameRank.estimateBatchGain (env env' factors d) (usedTokens requiredTokens : Rat) :
    sched.config.progressTtl.estimateBatchGain (sched.batchGainInputs s' (activeOn env' s' t)
        factors d usedTokens requiredTokens)
      = sched.config.progressTtl.estimateBatchGain (sched.batchGainInputs s (activeOn env s t)
        factors d usedTokens requiredTokens) := by
  have hrunning := (h.perm env env').filter fun view => decide (view.status = .reasoning)
  have hprotected := h.filterMap_perm env env' fun d =>
    let remaining := max (sched.config.progressTtl.targetRounds factors
      - d.roundsSinceActivation) 0
    if 0 < remaining then some (remaining, d.lastCacheMissImpactSeconds) else none
  refine estimateBatchGain_perm _ ?_ (hprotected.map Prod.fst) (hprotected.map Prod.snd)
  have htotal : ∀ view ∈ (activeOn env' s' t).filter fun view => decide (view.status = .reasoning),
      (s'.decisions.lookup view.reference).map estimatedContextTokens
        = (s.decisions.lookup view.reference).map estimatedContextTokens := by
    intro _ hview
    rw [h.decision (mem_filter.1 hview).1]
  unfold batchGainInputs
  simp [hrunning.length_eq, filterMap_congr htotal, (hrunning.filterMap _).sum_eq]

lemma SameRank.targetUsage (env env') :
    sched.targetUsage env' s' t now = sched.targetUsage env s t now := by
  have hsum := (h.filterMap_perm env env' fun d => some (sched.tokensOf d)).sum_eq
  unfold ProgramScheduler.targetUsage ProgramScheduler.observedTargetUsage
  simp only [h.observation, map_eq_bind, Function.comp_def, hsum]

/-- A plan depends on the facts of its Program and on what is placed on its
target. -/
lemma rankAdmissionPlan_congr (hp : s'.facts p = s.facts p) (env env') :
    sched.rankAdmissionPlan env' s' p t now = sched.rankAdmissionPlan env s p t now := by
  have hdecision : s'.decisions.lookup p = s.decisions.lookup p := congrArg Facts.decision hp
  have hhints : s'.runtime.frontRequestHints p = s.runtime.frontRequestHints p :=
    congrArg (fun f => f.pending.head?.map PendingProgramRequest.hints) hp
  have hgate : sched.backendWaiting s' t now = sched.backendWaiting s t now := by
    unfold backendWaiting
    rw [h.observation]
  unfold rankAdmissionPlan
  simp [view_congr hp, hdecision, hhints, hgate, h.targetUsage env env', (h.perm env
    env').length_eq, h.growthReserve env env', h.factors, h.estimateBatchGain env env']

end

/-! ## Queued Programs are bound to their target -/

/-- A Program is queued only for the target it is bound to. -/
structure Aligned (f : Facts) : Prop where
  rank : ∀ t, f.inRank t ≠ 0 → f.lastTarget = some t
  pool : ∀ pool, f.inPool pool = 0

namespace Aligned

variable {f f' : Facts}

lemma of_zero (hrank : ∀ t, f.inRank t = 0) (hpool : ∀ pool, f.inPool pool = 0) : Aligned f :=
  ⟨fun t h => absurd (hrank t) h, hpool⟩

lemma congr (h : Aligned f) (hrank : f'.inRank = f.inRank) (hpool : f'.inPool = f.inPool)
    (hlast : f'.lastTarget = f.lastTarget) : Aligned f' where
  rank := by
    rw [hrank, hlast]
    exact h.rank
  pool := by
    rw [hpool]
    exact h.pool

lemma tail (htail : Tail sched f f') (h : Aligned f) : Aligned f' := by
  cases htail with
  | retouch marked sampled rounds hd
  | pause _ _ _ hd => exact h.congr rfl rfl (Facts.lastTarget_eq hd).symm
  | wake => exact h.congr rfl rfl rfl
  | admission
  | release
  | leave => exact of_zero (fun _ => rfl) fun _ => rfl

lemma arrive (harrives : Arrives sched p identity request f f') (hsound : Sound sched f)
    (h : Aligned f) : Aligned f' := by
  by_cases hP : f.program = none
  · -- a Program that was not live was in no queue
    have hqueued : ¬ f.Queued := by
      cases hsound with
      | dead _ _ _ hqueued => exact hqueued
      | live hlive => rw [hlive] at hP; cases hP
    have hzero : f'.inRank = f.inRank ∧ f'.inPool = f.inPool := by
      cases harrives with
      | known
      | fresh => exact ⟨rfl, rfl⟩
    refine of_zero (fun t => ?_) fun pool => ?_
    · rw [hzero.1]
      exact not_not.1 fun hne => hqueued (.inl ⟨t, hne⟩)
    · rw [hzero.2]
      exact h.pool pool
  · have hlast := lastTarget_arrive harrives hP
    cases harrives with
    | known
    | fresh => exact h.congr rfl rfl hlast

lemma retain {error : Option ScheduleError} (hglobal : sched.config.globalQueue = false)
    (hretains : Retains sched p identity request f f' error) (hsound : Sound sched f)
    (h : Aligned f) : Aligned f' := by
  cases hretains with
  | placed harrives
  | unbound harrives => exact h.arrive harrives hsound
  | @queued f1 _ d t _ harrives _ _ hd hlast =>
    have h1 := h.arrive harrives hsound
    have hqueues : f1.enqueuedOnce sched p.modelPool t
        = { f1 with inRank := atLeastOnce t f1.inRank } := by
      unfold Facts.enqueuedOnce
      rw [hglobal]
      rfl
    rw [hqueues]
    refine ⟨fun t' ht' => ?_, h1.pool⟩
    show d.lastTarget = some t'
    by_cases htt : t' = t
    · rw [htt]
      exact hlast
    have hcount : f1.inRank t' ≠ 0 := by
      intro hzero
      refine ht' ?_
      show atLeastOnce t f1.inRank t' = 0
      unfold atLeastOnce
      rw [if_neg fun hand => htt hand.1, hzero]
    rw [← Facts.lastTarget_eq hd]
    exact h1.rank t' hcount

lemma sync {r : ProgramRef} {pool : ModelPool} {removed ids : List TargetId}
    (hglobal : sched.config.globalQueue = false) (hsyncs : Syncs sched r pool removed ids f f')
    (h : Aligned f) : Aligned f' := by
  have hretargeted : ∀ home, Aligned (f.retargeted removed home) := by
    refine fun _ => ⟨fun t ht => h.rank t fun hzero => ht ?_, h.pool⟩
    show (if t ∈ removed then 0 else f.inRank t) = 0
    rw [hzero, ite_self]
  -- a Program that is bound again is in the queue of its replacement or in none
  have hrequeued : ∀ (f0 : Facts) (replacement : Option TargetId) program
      (d : ProgramDecisionState), d.lastTarget = replacement → Aligned
        { f0.requeued sched pool replacement with program := program, decision := some d } := by
    intro _ _ _ d hlast
    unfold Facts.requeued
    rw [hglobal]
    split
    · exact of_zero (fun _ => rfl) fun _ => rfl
    refine ⟨fun t ht => ?_, fun _ => rfl⟩
    show d.lastTarget = some t
    rw [hlast]
    by_contra hne
    exact ht (if_neg hne)
  cases hsyncs with
  | other => exact hretargeted f.home
  | kept => exact hretargeted ids
  | rebound _ hrebinds =>
    generalize f.retargeted removed ids = f0 at hrebinds
    cases hrebinds with
    | @paused _ d replacement interrupted now =>
      have hlast := (failedOver_fields replacement interrupted now d).1
      have hsame := hrequeued f0 replacement (f0.requeued sched pool replacement).program _ hlast
      exact hsame
    | @active _ d replacement _ now =>
      exact hrequeued f0 replacement _ _ (failedOver_fields replacement true now d).1

end Aligned

lemma alignedRule {action : Action} (hglobal : sched.config.globalQueue = false)
    (h : Consistent sched sys.state) (now) :
    SectionRule sched sys now action fun _ f => Aligned f where
  permit := fun _ _ _ _ _ _ hf => hf.congr rfl rfl rfl
  claim := by
    intro _ _ _ f' _ _ _ _ hclaims hf
    cases hclaims with
    | front
    | behind => exact hf.congr rfl rfl rfl
    | unplaced => exact hf
  cancel := by
    intro _ _ _ f' _ _ hcancels hf
    cases hcancels with
    | waiting => exact hf.congr rfl rfl rfl
    | running
    | paused
    | active => exact .of_zero (fun _ => rfl) fun _ => rfl
  complete := by
    intro _ f' _ hcompletes hf
    cases hcompletes with
    | runs promptTokens hP hd hactive hbusy hsame
    | pauses _ _ hd _ _ _ hsame =>
      exact hf.congr rfl rfl (hsame.last.trans (Facts.lastTarget_eq hd).symm)
  retain := fun _ _ _ _ _ _ r _ _ _ _ _ hretains hf => hf.retain hglobal hretains (h.sound r)
  sync := fun _ _ _ _ _ _ _ hsyncs hf => hf.sync hglobal hsyncs

/-- The states between two lock sections, and those in which a section starts to
schedule. -/
inductive Reached (sched : ProgramScheduler) : ProgramSchedulerState → Prop
  | between (events : List (Instant × Action)) :
      Reached sched ((System.empty sched.config).run sched events).state
  | within (events : List (Instant × Action)) {now : Instant} {action : Action}
      {scheduling : Scheduling}
      (h : sched.scheduling
        (((System.empty sched.config).run sched events).body sched now action).1
        (((System.empty sched.config).run sched events).body sched now action).2
          = some scheduling) : Reached sched scheduling.start

/-- An invariant of the facts of single Programs holds in every state reached. -/
lemma Reached.facts {I : ProgramRef → Facts → Prop}
    (hinit : ∀ r, I r ((System.empty sched.config).state.facts r))
    (hrule : ∀ sys now action, Consistent sched sys.state → SectionRule sched sys now action I)
    (htail : ∀ r f f', Tail sched f f' → I r f → I r f') (h : Reached sched s) :
    Consistent sched s ∧ ∀ r, I r (s.facts r) := by
  have hrun : ∀ events r, I r (((System.empty sched.config).run sched events).state.facts r) :=
    fun events => run_facts hinit (fun sys event h _ => hrule sys event.1 event.2 h)
      (fun r f f' ht _ hf => htail r f f' ht hf) (guardedRun_true events _)
  cases h with
  | between events => exact ⟨run_consistent sched events, hrun events⟩
  | within events hscheduling =>
    have hconsistent := run_consistent sched events
    obtain ⟨s1, houtcome, hsettles⟩ := perform_leads hconsistent _ _
    have hdecides := (hsettles.trans (sched.scheduling_settles hscheduling)).decides
    refine ⟨(houtcome.consistent hconsistent).decides hdecides, fun r => ?_⟩
    exact (hdecides.tails r).keeps (htail r)
      (houtcome.keeps (hrule _ _ _ hconsistent) (hrun events) r)

lemma Reached.aligned (h : Reached sched s) (hglobal : sched.config.globalQueue = false) :
    Consistent sched s ∧ ∀ r, Aligned (s.facts r) :=
  h.facts (I := fun _ f => Aligned f) (fun _ => .of_zero (fun _ => rfl) fun _ => rfl)
    (fun _ now _ hconsistent => alignedRule hglobal hconsistent now) fun _ _ _ => Aligned.tail

/-! ## One admission -/

/-- The Programs queued for a target. -/
def ProgramSchedulerState.rankQueue (s : ProgramSchedulerState) (t : TargetId) :
    List ProgramRef :=
  (s.rankQueues.lookup t).getD []

lemma mem_rankQueue : p ∈ s.rankQueue t ↔ (s.facts p).inRank t ≠ 0 := by
  show p ∈ s.rankQueue t ↔ (s.rankQueue t).count p ≠ 0
  rw [ne_eq, count_eq_zero, not_not]

lemma rankQueue_commit (h : sched.commitAdmission s p t' now = some s') (t) :
    s'.rankQueue t = (s.rankQueue t).filter fun q => decide (q ≠ p) := by
  obtain ⟨P, d, rt, -, -, -, -, -, rfl⟩ := commitAdmission_eq_some h
  show ((s.rankQueues.mapVal _).lookup t).getD [] = _
  unfold rankQueue
  rw [Dict.lookup_mapVal]
  cases s.rankQueues.lookup t with
  | none => rfl
  | some => rfl

lemma facts_commit_ne {q : ProgramRef} (h : sched.commitAdmission s p t' now = some s')
    (hq : q ≠ p) : s'.facts q = s.facts q := by
  obtain ⟨P, d, rt, hP, -, -, hd, -, -⟩ := commitAdmission_eq_some h
  rw [facts_commitAdmission hP hd h, if_neg hq]

/-- An admission changes nothing that a plan on another target reads. -/
lemma sameRank_commit (h : sched.commitAdmission s p t' now = some s') (ht : t ≠ t') :
    SameRank t s s' := by
  obtain ⟨P, d, rt, hP, hpaused, -, hd, -, hs'⟩ := commitAdmission_eq_some h
  have hfacts := facts_commitAdmission hP hd h
  have hothers : ∀ r, r ≠ p → s'.facts r = s.facts r := fun r hr => facts_commit_ne h hr
  -- the Program was on no target before, and is on another one now
  have hbefore : s.isOn t p = false := by
    unfold isOn
    rw [hP, any_some, hpaused]
    simp
  have hafter : s'.isOn t p = false := by
    have hprogram := congrArg Facts.program (hfacts p)
    rw [if_pos rfl] at hprogram
    unfold isOn
    rw [show s'.runtime.program p = _ from hprogram]
    simp [RuntimeProgram.on, ht.symm]
  refine ⟨fun r => ?_, fun r hon => ?_, ?_, ?_⟩
  · by_cases hr : r = p
    · rw [hr, hbefore, hafter]
    unfold isOn
    rw [show s'.runtime.program r = s.runtime.program r from
      congrArg Facts.program (hothers r hr)]
  · refine hothers r fun hr => ?_
    rw [hr, hbefore] at hon
    cases hon
  · rw [hs']
    exact (Dict.lookup_upsert _ _ _ _ _).trans (if_neg ht)
  · rw [hs']
    rfl

/-! ## The loop over one queue -/

/-- A loop that admits what waits in a queue ends, because it finds no candidate: each
admission takes a Program out of the queue. -/
lemma scheduleBy_ends {candidate : ProgramSchedulerState → Option (ProgramRef × TargetId)}
    (queue : ProgramSchedulerState → List ProgramRef)
    (hround : ∀ s s', sched.propose candidate now s = some s' → ∃ p ∈ queue s, ∃ t,
      sched.commitAdmission s p t now = some s' ∧
        queue s' = (queue s).filter fun q => decide (q ≠ p)) (s) :
    let s' := sched.scheduleBy candidate now ((queue s).length + 1) s
    sched.propose candidate now s' = none ∧ Ends (sched.propose candidate now) s s' := by
  have hshrinks : ∀ s s', True → sched.propose candidate now s = some s' →
      (queue s').length < (queue s).length := by
    intro s s' _ h
    obtain ⟨p, hp, t, -, hqueue⟩ := hround s s' h
    rw [hqueue]
    exact length_filter_lt_length_iff_exists.2 ⟨p, hp, by simp⟩
  have hstops := repeatWhile_stops (fun _ _ _ _ => trivial) hshrinks _ s trivial
    (Nat.lt_succ_self (queue s).length)
  rw [sched.scheduleBy_eq]
  exact ⟨hstops, ends_repeatWhile _ s hstops⟩

lemma isWaiter_of_plan {plan : RankAdmissionPlan}
    (h : sched.rankAdmissionPlan env s p t now = some plan) : isWaiter s p = true := by
  obtain ⟨P, d, hP, -, hpaused, hreasoning, hwait⟩ := waiter_of_plan h
  unfold isWaiter view
  rw [hP, map_some, any_some, decide_eq_true_iff]
  refine ⟨hpaused, hreasoning, ?_⟩
  show 0 < (s.runtime.requestPool.queue P.reference).length
  rw [program_reference hP]
  exact length_pos_iff.2 hwait

/-- The Program is queued for the target and has a plan, and is in the resume order
not behind any other such Program. -/
structure First (sched : ProgramScheduler) (env : Env) (s : ProgramSchedulerState)
    (p : ProgramRef) (t : TargetId) (now : Instant) : Prop where
  queued : p ∈ s.rankQueue t
  planned : (sched.rankAdmissionPlan env s p t now).isSome = true
  before : ∀ q ∈ s.rankQueue t, (sched.rankAdmissionPlan env s q t now).isSome = true →
    sched.localResumeCmp s now p q ≠ .gt

lemma rankCandidate_first {choice : ProgramRef × TargetId}
    (h : sched.rankCandidate env s t now = some choice) :
    choice.2 = t ∧ First sched env s choice.1 t now := by
  obtain ⟨p, hp, hfound, hfirst⟩ := first_of_findSome?_sortBy h
  obtain ⟨_, hplan, rfl⟩ := map_eq_some_iff.1 hfound
  refine ⟨rfl, (mem_filter.1 hp).1, ?_, fun q hq hsome => ?_⟩
  · rw [hplan]
    rfl
  obtain ⟨_, hplan'⟩ := isSome_iff_exists.1 hsome
  refine hfirst q (mem_filter.2 ⟨hq, isWaiter_of_plan hplan'⟩) ?_
  rw [hplan']
  rfl

lemma rankCandidate_none (h : sched.rankCandidate env s t now = none) (p)
    (hp : p ∈ s.rankQueue t) : sched.rankAdmissionPlan env s p t now = none := by
  by_contra hne
  obtain ⟨_, hplan⟩ := ne_none_iff_exists'.1 hne
  have hnone := findSome?_eq_none_iff.1 h p
    (mem_sortBy.2 (mem_filter.2 ⟨hp, isWaiter_of_plan hplan⟩))
  rw [hplan] at hnone
  cases hnone

/-- The body of the loop over the queue of a target. -/
def ProgramScheduler.rankRound (sched : ProgramScheduler) (env : Env) (now : Instant)
    (t : TargetId) : ProgramSchedulerState → Option ProgramSchedulerState :=
  sched.propose (fun s => sched.rankCandidate env s t now) now

/-- A round admits the first Program that has a plan. -/
lemma rankRound_some (h : sched.rankRound env now t s = some s') :
    ∃ p, First sched env s p t now ∧ sched.commitAdmission s p t now = some s' := by
  obtain ⟨⟨p, t'⟩, hchoice, hs'⟩ := map_eq_some_iff.1 h
  obtain ⟨rfl, hfirst⟩ := rankCandidate_first hchoice
  obtain ⟨_, hplan⟩ := isSome_iff_exists.1 hfirst.planned
  obtain ⟨s1, hcommit⟩ := commit_of_plan hplan
  refine ⟨p, hfirst, ?_⟩
  rw [hcommit] at hs'
  rw [← hs']
  exact hcommit

lemma rankRound_none (h : sched.rankRound env now t s = none) (p) (hp : p ∈ s.rankQueue t) :
    sched.rankAdmissionPlan env s p t now = none :=
  rankCandidate_none (map_eq_none_iff.1 h) p hp

/-! ## All queues -/

/-- No Program that is queued for the target has a plan on it. -/
def Exhausted (sched : ProgramScheduler) (now : Instant) (t : TargetId)
    (s : ProgramSchedulerState) : Prop :=
  ∀ p ∈ s.rankQueue t, ∀ env, sched.rankAdmissionPlan env s p t now = none

/-- A round for one target leaves the others exhausted. -/
lemma rankRound_exhausted (h : Exhausted sched now t s) (ht : t ≠ t')
    (hround : sched.rankRound env now t' s = some s') : Exhausted sched now t s' := by
  obtain ⟨_, _, hcommit⟩ := rankRound_some hround
  intro q hq env'
  rw [rankQueue_commit hcommit, mem_filter, decide_eq_true_iff] at hq
  rw [rankAdmissionPlan_congr (sameRank_commit hcommit ht) (facts_commit_ne hcommit hq.2) env' env']
  exact h q hq.1 env'

lemma scheduleRank_eq (sched : ProgramScheduler) (env now) (s : ProgramSchedulerState) (t) :
    sched.scheduleRank env now s t
      = repeatWhile (sched.rankRound env now t) ((s.rankQueue t).length + 1) s :=
  sched.scheduleBy_eq _ now _ s

/-- The loop over a queue ends because nothing in the queue has a plan. -/
lemma scheduleRank_ends (env now s t) :
    sched.rankRound env now t (sched.scheduleRank env now s t) = none ∧
      Ends (sched.rankRound env now t) s (sched.scheduleRank env now s t) := by
  refine scheduleBy_ends (fun s => s.rankQueue t) (fun s s' h => ?_) s
  obtain ⟨p, hfirst, hcommit⟩ := rankRound_some h
  exact ⟨p, hfirst.queued, t, hcommit, rankQueue_commit hcommit t⟩

lemma scheduleRank_exhausts (env t) :
    Exhausted sched now t (sched.scheduleRank env now s t) := by
  intro p hp env'
  rw [rankAdmissionPlan_congr (.refl t _) rfl env env']
  exact rankRound_none (scheduleRank_ends env now s t).1 p hp

lemma scheduleRank_exhausted (env) (h : Exhausted sched now t s) (ht : t ≠ t') :
    Exhausted sched now t (sched.scheduleRank env now s t') := by
  rw [scheduleRank_eq]
  exact repeatWhile_invariant (fun _ _ hI hround => rankRound_exhausted hI ht hround) _ s h

/-- After the loops over a list of targets every target is exhausted, if those
outside the list were. -/
lemma foldl_exhausts (env) : ∀ (targets : List TargetId) (s : ProgramSchedulerState),
    (∀ t, t ∉ targets → Exhausted sched now t s) →
      ∀ t, Exhausted sched now t (targets.foldl (sched.scheduleRank env now) s) := by
  intro targets
  induction targets with
  | nil => exact fun s h t => h t not_mem_nil
  | cons t0 _ ih =>
    intro s h
    refine ih (sched.scheduleRank env now s t0) fun t ht => ?_
    by_cases htt : t = t0
    · rw [htt]
      exact scheduleRank_exhausts env t0
    refine scheduleRank_exhausted env (h t fun hmem => ?_) htt
    rcases mem_cons.1 hmem with heq | hrest
    · exact htt heq
    · exact ht hrest

lemma scheduleRankLocal_exhausts (env s t) :
    Exhausted sched now t (sched.scheduleRankLocal env s now) := by
  refine foldl_exhausts env _ s (fun t ht p hp => ?_) t
  -- a target without a queue has nothing queued
  have hnone : s.rankQueues.lookup t = none := by
    rw [← not_not (a := s.rankQueues.lookup t = none), ← ne_eq, ne_none_iff_exists']
    intro hqueue
    exact ht ((env.nameOrder_perm _).mem_iff.2 ((Dict.mem_keys_iff _ _).2 hqueue))
  unfold rankQueue at hp
  rw [hnone] at hp
  cases hp

/-! ## What is admitted, and what stays queued -/

lemma rankAdmissions_first {a : Admission} (h : a ∈ sched.rankAdmissions env now s t) :
    a.now = now ∧ First sched env a.before a.program a.target now := by
  obtain ⟨_, -, hchoice⟩ := mem_filterMap.1 h
  obtain ⟨_, hcandidate, rfl⟩ := map_eq_some_iff.1 hchoice
  obtain ⟨htarget, hfirst⟩ := rankCandidate_first hcandidate
  rw [← htarget] at hfirst
  exact ⟨rfl, hfirst⟩

lemma waitingAdmissions_first (hglobal : sched.config.globalQueue = false) :
    ∀ a ∈ sched.waitingAdmissions env s now,
      a.now = now ∧ First sched env a.before a.program a.target now := by
  unfold waitingAdmissions
  rw [if_neg (by rw [hglobal]; exact Bool.false_ne_true)]
  refine foldl_logged (I := fun _ (log : List Admission) => ∀ a ∈ log, a.now = now ∧
    First sched env a.before a.program a.target now) (fun s _ _ hlog a ha => ?_) _ s []
    nofun
  rcases mem_append.1 ha with hold | hnew
  · exact hlog a hold
  · exact rankAdmissions_first hnew

/-- A queued Program past its force-resume deadline has a plan on its target
while the gate is open. -/
lemma gate_of_forced {d : ProgramDecisionState} (h : Consistent sched s)
    (hqueued : (s.facts p).Queued) (hd : s.decisions.lookup p = some d)
    (hlast : d.lastTarget = some t) (hforced : forcedAt d now = true)
    (hplan : sched.rankAdmissionPlan env s p t now = none) :
    0 < sched.config.admissionWaitingRequestThreshold ∧ sched.backendWaiting s t now = true := by
  obtain ⟨P, hP, hpaused, hreasoning, hwait⟩ : ∃ P, s.runtime.program p = some P ∧
      P.state = .paused ∧ P.status = .reasoning ∧ s.runtime.requestPool.queue p ≠ [] := by
    cases h.sound p with
    | dead _ _ _ hnot => exact absurd hqueued hnot
    | @live P _ hP _ hlive =>
      obtain ⟨hpaused, hwait⟩ := hlive.queued hqueued
      refine ⟨P, hP, hpaused, ?_, hwait⟩
      cases hstatus : P.status with
      | reasoning => rfl
      | acting => exact absurd (hlive.acting hstatus).2 hwait
  have hview : s.runtime.view p = some (s.runtime.viewOf P) := by
    unfold view
    rw [hP]
    rfl
  have hwaiter : ¬ ((s.runtime.viewOf P).state ≠ .paused ∨ (s.runtime.viewOf P).status ≠ .reasoning
      ∨ (s.runtime.viewOf P).waitingRequests = 0) := by
    rintro (hstate | hstatus | hzero)
    · exact hstate hpaused
    · exact hstatus hreasoning
    refine hwait (length_eq_zero_iff.1 ?_)
    rw [← program_reference hP]
    exact hzero
  by_contra hopen
  unfold rankAdmissionPlan at hplan
  simp only [hview, hd] at hplan
  rw [if_neg fun hmoved => hmoved.2 hlast, if_neg hwaiter, if_neg hopen, hforced] at hplan
  -- a forced Program is admitted with and without a capacity
  cases hcapacity : sched.config.progressTtl.tokenCapacity with
  | none
  | some => simp [hcapacity] at hplan

/-- For every state in which the scheduler can be, the loops of
`schedule_rank_local` end. Afterwards a queued Program has no plan on the target it
is bound to, and one past its force-resume deadline waits for its backend gate.
Each admission takes the first of the queued Programs of its target that have a
plan. -/
theorem scheduleRankLocal_settles (sched : ProgramScheduler)
    (hglobal : sched.config.globalQueue = false) (s : ProgramSchedulerState) (hs : Reached sched s)
    (env : Env) (now : Instant) : let s' := sched.scheduleRankLocal env s now
    let log := sched.waitingAdmissions env s now
    Passes (fun t => Ends (sched.rankRound env now t)) (env.nameOrder s.rankQueues.keys) s s' ∧
    (∀ p, (s'.facts p).Queued → ∃ t d, s'.decisions.lookup p = some d ∧ d.lastTarget = some t ∧
      (∀ env', sched.rankAdmissionPlan env' s' p t now = none) ∧
      (forcedAt d now = true → 0 < sched.config.admissionWaitingRequestThreshold ∧
        sched.backendWaiting s' t now = true)) ∧ sched.Admits s log s' ∧
    ∀ a ∈ log, a.now = now ∧ First sched env a.before a.program a.target now := by
  intro s' log
  have hadmits : sched.Admits s log s' := by
    have hwaiting := sched.scheduleWaiting_admits env s now
    unfold scheduleWaiting at hwaiting
    rw [if_neg (by rw [hglobal]; exact Bool.false_ne_true)] at hwaiting
    exact hwaiting
  obtain ⟨hconsistent, haligned⟩ := hs.aligned hglobal
  have haligned' : ∀ r, Aligned (s'.facts r) := fun r =>
    (hadmits.decides.tails r).keeps (fun _ _ => Aligned.tail) (haligned r)
  refine ⟨?_, fun p hqueued => ?_, hadmits, waitingAdmissions_first hglobal⟩
  · refine passes_foldl (I := fun _ => True) (fun s t _ => ?_) (fun _ _ _ => trivial) _ s trivial
    exact (scheduleRank_ends env now s t).2
  obtain ⟨t, ht⟩ : ∃ t, (s'.facts p).inRank t ≠ 0 := by
    rcases hqueued with hrank | ⟨pool, hpool⟩
    · exact hrank
    · exact absurd ((haligned' p).pool pool) hpool
  obtain ⟨d, hd, hlast⟩ := bind_eq_some_iff.1 ((haligned' p).rank t ht)
  have hnone := scheduleRankLocal_exhausts env s t p (mem_rankQueue.2 ht)
  exact ⟨t, d, hd, hlast, hnone, fun hforced =>
    gate_of_forced (hconsistent.decides hadmits.decides) hqueued hd hlast hforced (hnone env)⟩

/-- `p` and `x` wait behind `q`. -/
def crowdedRun : List (Instant × Action) :=
  [(1, syncOf "m" 0 ["a"]), (2, arrivalOf "m" "q" ["a"] 2), (3, arrivalOf "m" "p" ["a"] 3),
    (4, arrivalOf "m" "x" ["a"] 4)]

/-- Ten minutes later both are past their deadlines and are admitted in order. -/
theorem scheduleRankLocal_settles_crowded :
    (smallScheduler.waitingAdmissions .plain (smallRun crowdedRun).state
        (fromSecs 600)).map (fun a => (a.program.programId, a.target)) = [("p", "a"), ("x", "a")] ∧
      ∀ a ∈ smallScheduler.waitingAdmissions .plain (smallRun crowdedRun).state
        (fromSecs 600), a.now = fromSecs 600 ∧
          First smallScheduler .plain a.before a.program a.target (fromSecs 600) :=
  ⟨by decide +kernel, (scheduleRankLocal_settles smallScheduler rfl _ (.between crowdedRun) .plain
    (fromSecs 600)).2.2.2⟩

end VllmRouter.ProgramScheduling
