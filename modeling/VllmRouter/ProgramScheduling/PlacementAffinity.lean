import VllmRouter.ProgramScheduling.Watermark

/-!
# Placement affinity

- With rank queues a Program keeps the target it is bound to for as long as it is
  live and the target is in its pool (`step_bound`). So two dispatches of one
  Program that go to different targets have such a step between them. The number of
  a generation is reused once its release is forgotten, and the new Program may be
  bound elsewhere (`reusedRun`).
- With the global queue an admission to another target is a `Relocation`: it passed
  the gates of `select_cross_rank_admission`. Every placement was given by one of
  the admissions of the run.
-/

namespace VllmRouter.ProgramScheduling

open ProgramScheduler ProgramScheduling.System Facts Duration

variable {sched : ProgramScheduler} {s s' : ProgramSchedulerState} {sys : System}

/-! ## Bindings -/

/-- A Program that is bound to a target is live and has it in its pool. -/
lemma Sound.of_lastTarget (h : Sound sched f) (ht : f.lastTarget = some t) :
    ∃ P d, f.program = some P ∧ f.decision = some d ∧ d.lastTarget = some t ∧ t ∈ f.home := by
  cases h with
  | dead hP hd =>
    unfold lastTarget at ht
    rw [hd] at ht
    cases ht
  | @live P d hP hd hlive =>
    have hlast : d.lastTarget = some t := (lastTarget_eq hd).symm.trans ht
    exact ⟨P, d, hP, hd, hlast, hlive.home t hlast⟩

/-- The Program is still bound to the target, or was released, or a
synchronization has removed the target. -/
def Stays (action : Action) (r : ProgramRef) (t : TargetId) (f : Facts) : Prop :=
  f.lastTarget = some t ∨ f.program = none ∨
    t ∉ f.home ∧ ∃ env targets, action = .sync env r.modelPool targets

variable {action : Action} {r : ProgramRef} {t : TargetId}

lemma stays_tail (hglobal : sched.config.globalQueue = false)
    (htail : Tail sched f f') (h : Stays action r t f) : Stays action r t f' := by
  cases htail with
  | retouch _ _ _ hd =>
    rw [Stays, lastTarget_eq hd] at h
    exact h
  | wake => exact h
  | pause _ _ hP hd =>
    rw [Stays, lastTarget_eq hd, hP] at h
    rcases h with hlast | hnone | hdropped
    · exact .inl hlast
    · cases hnone
    · exact .inr (.inr hdropped)
  | admission _ _ hP hd _ _ ht =>
    rw [Stays, lastTarget_eq hd, hP] at h
    rcases h with hlast | hnone | hdropped
    · -- without the global queue the target is the one that the Program is bound to
      rcases ht with ht | ⟨htrue, -⟩
      · exact .inl (ht.symm.trans hlast)
      · rw [hglobal] at htrue
        cases htrue
    · cases hnone
    · exact .inr (.inr hdropped)
  | release => exact .inr (.inl rfl)
  | leave hP => exact .inr (.inl hP)

/-- A Program is bound again only when its target is gone. -/
lemma stays_sync (haction : action = .sync env pool targets)
    (hsyncs : Syncs sched r pool removed targets.ids f f') (ht : f.lastTarget = some t) :
    Stays action r t f' := by
  cases hsyncs with
  | other hpool
  | kept => exact .inl ht
  | rebound hpool hrebinds =>
    refine .inr (.inr ⟨?_, env, targets, hpool ▸ haction⟩)
    have hgone : ∀ d, f.decision = some d →
        needsRebinding targets.ids d = true → t ∉ targets.ids := by
      intro d hd hneeds
      rw [lastTarget_eq hd] at ht
      unfold needsRebinding at hneeds
      rw [ht] at hneeds
      simpa using hneeds
    generalize hf : f.retargeted removed targets.ids = f0 at hrebinds
    have hdecision : f0.decision = f.decision := by
      rw [← hf]
      rfl
    have hhome : f0.home = targets.ids := by
      rw [← hf]
      rfl
    cases hrebinds with
    | @paused P d replacement interrupted now hP hd hpaused hneeds
    | @active _ d replacement _ _ _ hd _ hneeds =>
      rw [hhome] at hneeds
      show t ∉ (f0.requeued sched pool replacement).home
      rw [(f0.requeued_fields sched pool replacement).2.2.2, hhome]
      exact hgone d (hdecision.symm.trans hd) hneeds

/-- A step leaves a Program bound as it was, unless it releases the Program or
removes the target. -/
lemma step_stays (hglobal : sched.config.globalQueue = false)
    (h : Consistent sched sys.state) (event)
    (ht : (sys.state.facts r).lastTarget = some t) :
    Stays event.2 r t ((sys.step sched event).state.facts r) := by
  obtain ⟨P, d, hP, hd, hlast, -⟩ := (h.sound r).of_lastTarget ht
  have hlive : (sys.state.facts r).program ≠ none := by
    rw [hP]
    exact Option.some_ne_none P
  have hkept : ∀ {f'}, f'.lastTarget = (sys.state.facts r).lastTarget →
      Stays event.2 r t f' := fun hsame => .inl (hsame.trans ht)
  have rule : SectionRule sched sys event.1 event.2 fun r' f => r' = r → Stays event.2 r t f := {
    permit := fun _ _ _ _ _ _ hf => hf
    claim := by
      rintro _ _ _ _ _ _ _ _ hclaims - rfl
      cases hclaims with
      | front
      | behind
      | unplaced => exact hkept rfl
    cancel := by
      rintro _ _ _ f' _ _ hcancels - rfl
      cases hcancels with
      | waiting
      | running
      | paused => exact hkept rfl
      | active _ _ hd =>
        refine hkept ?_
        rw [lastTarget_eq hd]
        rfl
    complete := by
      rintro _ f' _ hcompletes - rfl
      cases hcompletes with
      | runs promptTokens hP hd hactive hbusy hsame
      | pauses _ _ hd _ _ _ hsame =>
        refine hkept ?_
        rw [lastTarget_eq hd]
        exact hsame.last
    retain := by
      rintro _ _ _ _ _ _ _ f' _ _ _ _ hretains - rfl
      exact hkept (lastTarget_retain hretains hlive)
    sync := by
      rintro _ _ _ _ f' haction _ hsyncs - rfl
      exact stays_sync haction hsyncs ht }
  refine step_facts h rule (fun _ f f' htail _ hf hr => stays_tail hglobal htail (hf hr))
    (fun r' hr => ?_) r rfl
  rw [hr]
  exact .inl ht

/-- The targets of a model pool. -/
def ProgramSchedulerState.targetsOf (s : ProgramSchedulerState) (pool : ModelPool) :
    List TargetId :=
  (s.modelTargets.lookup pool).getD []

/-- A synchronization takes the target out of the pool. -/
def Drops (sched : ProgramScheduler) (sys : System) (event : Instant × Action)
    (pool : ModelPool) (t : TargetId) : Prop :=
  (∃ env targets, event.2 = .sync env pool targets) ∧ t ∈ sys.state.targetsOf pool ∧
    t ∉ (sys.step sched event).state.targetsOf pool

/-- A step releases the Program. -/
def Releases (sched : ProgramScheduler) (sys : System) (event : Instant × Action)
    (r : ProgramRef) : Prop :=
  sys.state.runtime.program r ≠ none ∧ (sys.step sched event).state.runtime.program r = none

lemma step_bound (hglobal : sched.config.globalQueue = false)
    (h : Consistent sched sys.state) (event)
    (ht : (sys.state.facts r).lastTarget = some t) :
    ((sys.step sched event).state.facts r).lastTarget = some t ∨
      (Drops sched sys event r.modelPool t ∨ Releases sched sys event r) := by
  obtain ⟨P, d, hP, -, -, hhome⟩ := (h.sound r).of_lastTarget ht
  rcases step_stays hglobal h event ht with hlast | hnone | ⟨hgone, hsync⟩
  · exact .inl hlast
  · refine .inr (.inr ⟨fun hdead => ?_, hnone⟩)
    rw [show sys.state.runtime.program r = some P from hP] at hdead
    cases hdead
  · exact .inr (.inl ⟨hsync, hhome, hgone⟩)

/-! ## Dispatches -/

lemma claim_dispatches (h : Consistent sched sys.state) (i : Nat) (now) :
    (sys.claim i now).dispatches = sys.dispatches ∨
      ∃ dispatch, (sys.claim i now).dispatches = sys.dispatches ++ [dispatch] ∧
        (sys.state.facts dispatch.program).lastTarget = some dispatch.targetId ∧
        ((sys.claim i now).state.facts dispatch.program).lastTarget = some dispatch.targetId := by
  unfold claim callStep
  cases hc : sys.calls[i]? with
  | none => exact .inl rfl
  | some c =>
    cases hhandle : c.handle with
    | none => simp only [hhandle, true_or]
    | some handle =>
      simp only [hhandle]
      cases hlive : c.live with
      | false => exact .inl rfl
      | true =>
        obtain ⟨hclaims, -⟩ := claimDispatch_claims now (h.sound handle.program)
        cases hphase : c.phase with
        | claiming =>
          generalize claimDispatch sys.state handle now = claimed at hclaims ⊢
          obtain ⟨s1, dispatch⟩ := claimed
          cases dispatch with
          | none => exact .inl rfl
          | some dispatch =>
            refine .inr ⟨dispatch, rfl, ?_⟩
            generalize hf : sys.state.facts handle.program = f at hclaims
            generalize hf' : s1.facts handle.program = f' at hclaims
            cases hclaims with
            | @front _ _ _ _ hP hactive _ _ hprogram htarget =>
              have hsound : Sound sched f := hf ▸ h.sound handle.program
              obtain ⟨d, hd, hlive⟩ := hsound.of_program hP
              have hlast : f.lastTarget = some dispatch.targetId := by
                rw [lastTarget_eq hd, hlive.last hactive, htarget]
              rw [hprogram]
              refine ⟨hf ▸ hlast, ?_⟩
              show (s1.facts handle.program).lastTarget = _
              rw [hf']
              exact hlast
        | checking
        | waiting wakeAt
        | returned result
        | dropped => exact .inl rfl

/-- A step dispatches at most one request, to the target that the Program is
bound to before and after it. -/
lemma step_dispatches (h : Consistent sched sys.state) (event) :
    (sys.step sched event).dispatches = sys.dispatches ∨
      ∃ dispatch, (sys.step sched event).dispatches = sys.dispatches ++ [dispatch] ∧
        (sys.state.facts dispatch.program).lastTarget = some dispatch.targetId ∧
        ((sys.step sched event).state.facts dispatch.program).lastTarget
          = some dispatch.targetId := by
  obtain ⟨now, action⟩ := event
  rcases step_happens h (now, action) with ⟨-, hstill⟩ | ⟨hclock, s1, houtcome, -⟩
  · rw [hstill]
    exact .inl rfl
  generalize (sys.step sched (now, action)).calls = calls at houtcome
  generalize hdispatches : (sys.step sched (now, action)).dispatches = dispatches at houtcome
  cases houtcome with
  | @claim _ i =>
    have hstep : sys.step sched (now, .claim i) = { sys.claim i now with clock := now } :=
      if_pos hclock
    rw [← hdispatches, hstep]
    exact claim_dispatches h i now
  | idle
  | observe
  | turn
  | reject
  | permit
  | absent
  | cancel
  | refuse
  | complete
  | retain
  | sync => exact .inl rfl

/-- A step of a run dispatches at most one request, and only to a target that the pool of
its Program has at that moment. -/
theorem run_dispatches_known (sched : ProgramScheduler) (events : List (Instant × Action)) (event) :
    let sys := (empty sched.config).run sched events
    (sys.step sched event).dispatches = sys.dispatches ∨
      ∃ d, (sys.step sched event).dispatches = sys.dispatches ++ [d] ∧
        d.targetId ∈ (sys.state.modelTargets.lookup d.program.modelPool).getD [] := by
  have h := run_consistent sched events
  refine (step_dispatches h event).imp_right ?_
  rintro ⟨d, hnew, hlast, -⟩
  obtain ⟨-, -, -, -, -, hhome⟩ := (h.sound d.program).of_lastTarget hlast
  exact ⟨d, hnew, hhome⟩

variable {events : List (Instant × Action)} {a : Admission} {log : List Admission} {i n : Nat}

/-- After dispatch `i` and before the `n`-th one, a step of the run has removed the target
of the dispatch from the pool, or released the Program. -/
def Unbound (sched : ProgramScheduler) (events : List (Instant × Action)) (i n : Nat)
    (d : ProgramDispatch) : Prop :=
  let run := run sched (empty sched.config)
  ∃ es₁ e es₂, events = es₁ ++ e :: es₂ ∧ i < (run es₁).dispatches.length ∧
    (run (es₁ ++ [e])).dispatches.length ≤ n ∧
    (Drops sched (run es₁) e d.program.modelPool d.targetId ∨ Releases sched (run es₁) e d.program)

lemma Unbound.mono (h : Unbound sched events i n d) (hn : n ≤ n') (event) :
    Unbound sched (events ++ [event]) i n' d := by
  obtain ⟨es₁, e, es₂, rfl, hi, hle, hbroken⟩ := h
  exact ⟨es₁, e, es₂ ++ [event], by simp, hi, hle.trans hn, hbroken⟩

/-- The Program of a dispatch stays bound to its target until a step breaks the binding. So
two dispatches of a Program to different targets have such a step between them. -/
lemma dispatches_bound (hglobal : sched.config.globalQueue = false) (events) :
    let run := run sched (empty sched.config)
    (∀ i d, (run events).dispatches[i]? = some d →
      ((run events).state.facts d.program).lastTarget = some d.targetId ∨
        Unbound sched events i (run events).dispatches.length d) ∧
    ∀ i j d₁ d₂, (run events).dispatches[i]? = some d₁ → (run events).dispatches[j]? = some d₂ →
      i < j → d₁.program = d₂.program → d₁.targetId ≠ d₂.targetId →
      Unbound sched events i j d₁ := by
  intro run
  induction events using List.reverseRecOn with
  | nil => exact ⟨fun _ _ h => (by cases h), fun _ _ _ _ h => (by cases h)⟩
  | append_singleton events e ih =>
    obtain ⟨hbound, hpair⟩ := ih
    have hconsistent : Consistent sched (run events).state := run_consistent sched events
    have hsnoc : run (events ++ [e]) = (run events).step sched e := List.foldl_append
    have hdispatches := step_dispatches hconsistent e
    rw [← hsnoc] at hdispatches
    -- the dispatches made before this step
    have hold : ∀ i d, (run events).dispatches[i]? = some d →
        ((run (events ++ [e])).state.facts d.program).lastTarget = some d.targetId ∨
          Unbound sched (events ++ [e]) i (run (events ++ [e])).dispatches.length d := by
      intro i d hd
      have hlen : (run events).dispatches.length ≤ (run (events ++ [e])).dispatches.length := by
        rcases hdispatches with hsame | ⟨_, hnew, -⟩
        · rw [hsame]
        · rw [hnew, List.length_append]
          exact Nat.le_add_right _ _
      rcases hbound i d hd with hlast | hunbound
      · rcases step_bound hglobal hconsistent e hlast with hlast' | hbroken
        · rw [← hsnoc] at hlast'
          exact .inl hlast'
        · exact .inr ⟨events, e, [], rfl, (List.getElem?_eq_some_iff.1 hd).1, le_rfl, hbroken⟩
      · exact .inr (hunbound.mono hlen e)
    rcases hdispatches with hsame | ⟨dispatch, hnew, hbefore, hafter⟩
    · rw [hsame]
      rw [hsame] at hold
      exact ⟨hold, fun i j d₁ d₂ hi hj hij hprogram htarget =>
        (hpair i j d₁ d₂ hi hj hij hprogram htarget).mono le_rfl e⟩
    constructor
    · intro i d hd
      rw [hnew] at hd
      rcases getElem?_append_cases hd with hd | ⟨n, -, hd⟩
      · exact hold i d hd
      · obtain rfl := List.mem_singleton.1 (List.mem_of_getElem? hd)
        exact .inl hafter
    intro i j d₁ d₂ hi hj hij hprogram htarget
    have hlt := (List.getElem?_eq_some_iff.1 hj).1
    rw [hnew] at hi hj hlt
    rw [List.length_append, List.length_singleton] at hlt
    rw [List.getElem?_append_left (by omega)] at hi
    rcases getElem?_append_cases hj with hj | ⟨n, rfl, hmade⟩
    · exact (hpair i j d₁ d₂ hi hj hij hprogram htarget).mono le_rfl e
    -- the second dispatch is made by this step
    obtain rfl := List.mem_singleton.1 (List.mem_of_getElem? hmade)
    rcases hbound i d₁ hi with hlast | hunbound
    · rw [hprogram, hbefore] at hlast
      exact absurd (Option.some.inj hlast).symm htarget
    · exact hunbound.mono (Nat.le_add_right _ n) e

/-! ## Relocations -/

/-- Tokens that fit on the target below the low watermark. -/
def ProgramScheduler.headroom (sched : ProgramScheduler) (env : Env) (s : ProgramSchedulerState)
    (t : TargetId) (now : Instant) : WithTop Rat :=
  match sched.config.progressTtl.tokenCapacity with
  | none => ⊤
  | some capacity => (max (capacity * sched.config.progressTtl.lowWatermarkRatio
      - sched.targetUsage env s t now) 0 : Rat)

/-- The request window of the target is complete. -/
def ProgramScheduler.windowComplete (sched : ProgramScheduler) (s : ProgramSchedulerState)
    (t : TargetId) : Bool :=
  (s.rankFactors.lookup t).any fun factors =>
    factors.requestWindowComplete sched.config.progressTtl.statsWindowSize

/-- What an admission to a target other than `source`, to which the Program is
bound, has passed. -/
structure Relocation (sched : ProgramScheduler) (a : Admission) (source : TargetId)
    (d : ProgramDecisionState) : Prop where
  known : a.before.decisions.lookup a.program = some d
  bound : d.lastTarget = some source
  paused : d.lastPauseReason.isSome = true
  free : ∀ q ∈ globalReasoningWaiters a.before a.program.modelPool, q ≠ a.program →
    (a.before.decisions.lookup q).bind ProgramDecisionState.lastTarget ≠ some a.target
  complete : sched.windowComplete a.before source = true ∧
    sched.windowComplete a.before a.target = true
  room : ∀ env, sched.headroom env a.before source a.now
    + (sched.config.crossRankHeadroomRatio * d.estimatedContextTokens : Rat)
      ≤ sched.headroom env a.before a.target a.now

/-- The usage of a target does not depend on the order of the hash maps. -/
lemma headroom_env (env env' s t now) :
    sched.headroom env s t now = sched.headroom env' s t now := by
  unfold headroom
  rw [targetUsage_eq, targetUsage_eq]

lemma free_of_gate (h : destinationHasLocalWaiter s p t = false) (q)
    (hq : q ∈ globalReasoningWaiters s p.modelPool) (hne : q ≠ p) :
    (s.decisions.lookup q).bind ProgramDecisionState.lastTarget ≠ some t := by
  intro hlast
  obtain ⟨hqueued, hwaiter⟩ := List.mem_filter.1 hq
  unfold destinationHasLocalWaiter at h
  rw [List.any_eq_false] at h
  refine h q hqueued ?_
  rw [Bool.and_eq_true, Bool.and_eq_true, decide_eq_true_iff, decide_eq_true_iff]
  exact ⟨⟨hne, hwaiter⟩, hlast⟩

lemma room_of_gate (hd : s.decisionAt p = d) (hlast : d.lastTarget = some source)
    (h : sched.destinationHasContextHeadroom env s p t now = true) : sched.headroom env s source now
      + (sched.config.crossRankHeadroomRatio * d.estimatedContextTokens : Rat)
        ≤ sched.headroom env s t now := by
  unfold destinationHasContextHeadroom at h
  unfold headroom
  cases hcapacity : sched.config.progressTtl.tokenCapacity with
  | none => exact le_top
  | some =>
    simp only [hcapacity, hd, hlast, decide_eq_true_iff] at h
    exact WithTop.coe_le_coe.2 h

/-- A selected destination has passed every gate. -/
lemma relocation_of_select
    (h : sched.selectCrossRankAdmission env a.before a.program a.now = some (a.target, plan)) :
    ∃ source d, source ≠ a.target ∧ Relocation sched a source d := by
  unfold selectCrossRankAdmission at h
  split at h
  · cases h
  rename_i d hd
  split at h
  · rename_i source _ hreason hlast _
    obtain ⟨t, ht, hmap⟩ := List.mem_filterMap.1 (minBy?_mem h)
    obtain ⟨_, -, hpair⟩ := Option.map_eq_some_iff.1 hmap
    cases hpair
    have hgates := (List.mem_filter.1 ht).2
    simp only [Bool.and_eq_true, decide_eq_true_iff, Bool.not_eq_true'] at hgates
    obtain ⟨⟨⟨⟨hne, hfree⟩, hmature⟩, -⟩, hroom⟩ := hgates
    have hat : a.before.decisionAt a.program = d := by
      unfold ProgramSchedulerState.decisionAt
      rw [hd]
      rfl
    have hcomplete : sched.windowComplete a.before source = true ∧
        sched.windowComplete a.before a.target = true := by
      unfold crossRankCandidateIsMature at hmature
      simp only [hat, hlast, Bool.and_eq_true] at hmature
      exact hmature.1
    refine ⟨source, d, hne.symm, hd, hlast, ?_, free_of_gate hfree, hcomplete, fun env' => ?_⟩
    · rw [hreason]
      rfl
    · rw [headroom_env env' env, headroom_env env' env]
      exact room_of_gate hat hlast hroom
  · cases h

lemma Chosen.relocation (h : sched.Chosen a) (hmoved : a.lastTarget ≠ some a.target) :
    ∃ source d, Relocation sched a source d := by
  cases h with
  | own hplan hlast
  | bound _ hlast => exact absurd hlast hmoved
  | moved _ hselect =>
    obtain ⟨source, d, -, hrelocation⟩ := relocation_of_select hselect
    exact ⟨source, d, hrelocation⟩

/-- Every placement was given by one of the admissions. -/
def Granted (s : ProgramSchedulerState) (log : List Admission) : Prop :=
  ∀ r P, s.runtime.program r = some P → P.state = .active →
    ∃ a ∈ log, a.program = r ∧ P.placement = some a.target ∧ P.placementEpoch = a.epoch

lemma Granted.recedes (h : Granted s log) (hrecedes : Recedes s s') : Granted s' log := by
  intro r Q hQ hactive
  obtain ⟨P, hP, hPactive, hplace, hepoch⟩ := hrecedes r Q hQ hactive
  rw [← hplace, ← hepoch]
  exact h r P hP hPactive

lemma Granted.admission (h : Granted a.before log)
    (hcommit : sched.commitAdmission a.before a.program a.target a.now = some s') :
    Granted s' (log ++ [a]) := by
  obtain ⟨P, d, rt, hP, -, -, hd, -, -⟩ := commitAdmission_eq_some hcommit
  intro r Q hQ hactive
  have hprogram := program_commit hcommit hP hd r
  split at hprogram
  · rename_i hr
    cases hQ.symm.trans hprogram
    exact ⟨a, List.mem_append_right _ (List.mem_singleton_self a), hr.symm, rfl, rfl⟩
  · obtain ⟨b, hb, hgiven⟩ := h r Q (hprogram.symm.trans hQ) hactive
    exact ⟨b, List.mem_append_left _ hb, hgiven⟩

/-! ## Runs -/

/-- With rank queues, two dispatches of a Program to different targets have
between them a synchronization that removes the first target from the pool, or a
step that releases the Program. With the global queue, an admission to another
target than the last one is a relocation. Every placement was given by one of the
admissions. -/
theorem run_placement_affinity (sched : ProgramScheduler) (events : List (Instant × Action)) :
    let run := run sched (empty sched.config)
    let log := runLog (step sched) (admissions sched) (empty sched.config) events
    (sched.config.globalQueue = false → ∀ i j d₁ d₂, (run events).dispatches[i]? = some d₁ →
      (run events).dispatches[j]? = some d₂ → i < j → d₁.program = d₂.program →
      d₁.targetId ≠ d₂.targetId →
      ∃ es₁ e es₂, events = es₁ ++ e :: es₂ ∧ i < (run es₁).dispatches.length ∧
        (run (es₁ ++ [e])).dispatches.length ≤ j ∧
        (Drops sched (run es₁) e d₁.program.modelPool d₁.targetId ∨
          Releases sched (run es₁) e d₁.program)) ∧
    (sched.config.globalQueue = true → ∀ a ∈ log, a.lastTarget ≠ some a.target →
      ∃ source d, Relocation sched a source d) ∧ Granted (run events).state log := by
  intro run log
  have hlog : Granted (run events).state log ∧ ∀ a ∈ log, sched.Chosen a :=
    run_admitting (J := fun s log => Granted s log ∧ ∀ a ∈ log, sched.Chosen a) ⟨nofun, nofun⟩
      (fun s s' log hrecedes _ hJ => ⟨hJ.1.recedes hrecedes, hJ.2⟩)
      (fun a s' log _ hchosen hcommit hJ => ⟨hJ.1.admission hcommit,
        List.forall_mem_append.2 ⟨hJ.2, List.forall_mem_singleton.2 hchosen⟩⟩) events
  exact ⟨fun hglobal => (dispatches_bound hglobal events).2,
    fun _ a ha hmoved => Chosen.relocation (hlog.2 a ha) hmoved, hlog.1⟩

/-- `p` is dispatched to `a`, ends, and is forgotten; the next Program of that
name waits behind `q` and is bound to `b`. -/
def reusedRun : List (Instant × Action) :=
  [(1, syncOf "m" 0 ["a", "b"]), (2, arrivalOf "m" "p" ["a", "b"] 2), (3, .claim 0),
    (4, .complete .plain 0 true true ⟨none, none, none⟩ none),
    (fromSecs 2000, .tick .plain),
    (fromSecs 2001, arrivalOf "m" "q" ["a", "b"] (fromSecs 2001)),
    (fromSecs 2002, arrivalOf "m" "p" ["a", "b"] (fromSecs 2002)),
    (fromSecs 2003, .claim 2)]

/-- Both dispatches are of generation 0 of `p`, and the targets are synchronized
only once, before them. -/
theorem reusedRun_dispatches : smallScheduler.config.globalQueue = false ∧
      (smallRun reusedRun).dispatches.map (fun d => (d.program, d.targetId))
        = [(⟨"m", "p", 0⟩, "a"), (⟨"m", "p", 0⟩, "b")] ∧
      (smallRun (reusedRun.take 1)).dispatches = [] ∧ (reusedRun.drop 1).all (fun event =>
        match event.2 with
        | .sync _ _ _ => false | _ => true) = true := by
  decide +kernel

/-- `p` is dispatched to `a`, its pool moves to `b`, and it is dispatched there. -/
def displacedRun : List (Instant × Action) :=
  [(1, syncOf "m" 0 ["a"]), (2, arrivalOf "m" "p" ["a"] 2), (3, .claim 0),
    (4, syncOf "m" 1 ["b"]), (5, arrivalOf "m" "p" ["b"] 5), (6, .claim 1)]

/-- The small scheduler with the global queue, for which one request completes a
window and no waiter has to be pressed. -/
def globalScheduler : ProgramScheduler :=
  { smallScheduler with config := { smallScheduler.config with
      globalQueue := true
      metricsInterval := 0
      admissionWaitingRequestThreshold := 0
      progressTtl := { smallScheduler.config.progressTtl with
        tokenCapacity := some 1000
        statsWindowSize := 1 } } }

/-- `p` gives way to `x` on `a`; when it returns, `b` is empty. -/
def relocatedRun : List (Instant × Action) :=
  [(1, syncOf "m" 0 ["a", "b"]), (2, arrivalOf "m" "p" ["a", "b"] 2),
    (3, arrivalOf "m" "q" ["a", "b"] 3), (4, arrivalOf "m" "x" ["a", "b"] 4), (5, .claim 0),
    (6, .claim 1), (7, .complete .plain 0 true false ⟨some 10, some 10, none⟩ none),
    (8, .complete .plain 1 true true ⟨some 10, some 10, none⟩ none),
    (9, arrivalOf "m" "p" ["a", "b"] 9)]

theorem run_placement_affinity_displaced :
    (∃ es₁ e es₂, displacedRun = es₁ ++ e :: es₂ ∧ 0 < (smallRun es₁).dispatches.length ∧
      (smallRun (es₁ ++ [e])).dispatches.length ≤ 1 ∧
      (Drops smallScheduler (smallRun es₁) e "m" "a" ∨
        Releases smallScheduler (smallRun es₁) e ⟨"m", "p", 0⟩)) ∧
    ∃ a ∈ runLog (step globalScheduler) (admissions globalScheduler)
        (empty globalScheduler.config) relocatedRun, a.lastTarget = some "a" ∧ a.target = "b" ∧
        ∃ source d, Relocation globalScheduler a source d := by
  constructor
  · obtain ⟨d₁, hd1, hprogram1, htarget1⟩ : ∃ d, (smallRun displacedRun).dispatches[0]? = some d ∧
        d.program = ⟨"m", "p", 0⟩ ∧ d.targetId = "a" := ⟨_, rfl, by decide +kernel⟩
    obtain ⟨d₂, hd2, hprogram2, htarget2⟩ : ∃ d, (smallRun displacedRun).dispatches[1]? = some d ∧
        d.program = ⟨"m", "p", 0⟩ ∧ d.targetId = "b" := ⟨_, rfl, by decide +kernel⟩
    have hbetween := (run_placement_affinity smallScheduler displacedRun).1 rfl 0 1 d₁ d₂ hd1 hd2
      Nat.zero_lt_one (hprogram1.trans hprogram2.symm)
      (by rw [htarget1, htarget2]; decide)
    rw [hprogram1, htarget1] at hbetween
    exact hbetween
  · have hmoved : ∃ a ∈ runLog (step globalScheduler) (admissions globalScheduler)
        (empty globalScheduler.config) relocatedRun,
        a.lastTarget = some "a" ∧ a.target = "b" := by
      have hany : (runLog (step globalScheduler) (admissions globalScheduler)
          (empty globalScheduler.config) relocatedRun).any (fun a =>
            decide (a.lastTarget = some "a" ∧ a.target = "b")) = true := by
        decide +kernel
      obtain ⟨a, ha, hpair⟩ := List.any_eq_true.1 hany
      exact ⟨a, ha, decide_eq_true_iff.1 hpair⟩
    obtain ⟨a, ha, hlast, htarget⟩ := hmoved
    refine ⟨a, ha, hlast, htarget, ?_⟩
    refine (run_placement_affinity globalScheduler relocatedRun).2.1 rfl a ha ?_
    rw [hlast, htarget]
    decide

end VllmRouter.ProgramScheduling
