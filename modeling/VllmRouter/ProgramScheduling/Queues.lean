import VllmRouter.ProgramScheduling.Steps

/-!
# The admission queues

`Facts.waitsFor` is the target that a Program waits for. Three properties of
the queues are kept by every step except some snapshots:

- a Program is in its queue exactly while it waits, once, and in no other queue
  (`Enlisted`);
- a queued Program has the time since when it waits and a deadline (`Bounded`);
- with binding only, no Program waits (`run_active_of_bindingOnly`).

Failover breaks each of them in its own way: it drops the whole queue of a
removed target although other pools may use it, it queues a Program that was
active without giving it a deadline, and it queues Programs for a scheduling
pass that does not take place with binding only.
-/

namespace VllmRouter.ProgramScheduling

open Facts ProgramScheduling.System ProgramScheduler Option ProgramRuntime List

variable {sched : ProgramScheduler} {f f' : Facts} {r : ProgramRef}

/-! ## Waiting -/

/-- The target of a Program that is paused with a retained request. -/
def Facts.waitsFor (f : Facts) : Option TargetId :=
  match f.program, f.decision with
  | some P, some d => if P.state = .paused ∧ f.pending ≠ [] then d.lastTarget else none
  | _, _ => none

variable {P : RuntimeProgram} {d : ProgramDecisionState} {pool : ModelPool}
  {s : ProgramSchedulerState} {targets : TargetSnapshot} {p : ProgramRef} {sys : System}
  {event : Instant × Action}

variable {d' : ProgramDecisionState}

namespace Facts

lemma waitsFor_waiting (hP : f.program = some P) (hd : f.decision = some d)
    (hpaused : P.state = .paused) (hne : f.pending ≠ []) : f.waitsFor = d.lastTarget := by
  unfold waitsFor
  rw [hP, hd]
  exact if_pos ⟨hpaused, hne⟩

lemma waitsFor_free (hfree : ∀ P, f.program = some P → P.state = .paused → f.pending = []) :
    f.waitsFor = none := by
  unfold waitsFor
  split
  · next P d hP hd => exact if_neg fun h => h.2 (hfree P hP h.1)
  · rfl

lemma waitsFor_dead (hP : f.program = none) : f.waitsFor = none :=
  waitsFor_free fun Q hQ => by cases hP.symm.trans hQ

lemma waitsFor_active (hP : f.program = some P) (hactive : P.state = .active) :
    f.waitsFor = none := by
  refine waitsFor_free fun Q hQ hpaused => ?_
  cases hP.symm.trans hQ
  cases hactive.symm.trans hpaused

lemma waitsFor_or (f : Facts) : f.waitsFor = none ∨ f.waitsFor = f.lastTarget := by
  unfold waitsFor
  split
  · next P d hP hd =>
    rw [lastTarget_eq hd]
    split
    · exact .inr rfl
    · exact .inl rfl
  · exact .inl rfl

/-- Where a Program is bound and since when it waits. -/
def wait (f : Facts) : Option (Option TargetId × Option Instant × Option Instant) :=
  f.decision.map fun d => (d.lastTarget, d.queuedAt, d.forceResumeDeadline)

lemma waitsFor_congr (hprogram : f'.program = f.program)
    (hpending : f'.pending = [] ↔ f.pending = []) (hwait : f'.wait = f.wait) :
    f'.waitsFor = f.waitsFor := by
  unfold wait at hwait
  unfold waitsFor
  rw [hprogram]
  cases f.program with
  | none => rfl
  | some => cases hd : f.decision <;> cases hd' : f'.decision <;> simp_all

end Facts

lemma Live.paused_of_unplaced (h : Live sched f P d) (hplace : P.placement = none) :
    P.state = .paused := by
  cases hstate : P.state with
  | paused => rfl
  | active =>
    have hsome := h.placed.1 hstate
    rw [hplace] at hsome
    cases hsome

/-! ## What makes nobody wait -/

/-- The Program waits as before, or it is in no queue and has nothing waiting while it is
paused. -/
inductive Calms (f f' : Facts) : Prop
  | kept (hprogram : f'.program = f.program)
      (hpending : f'.pending = [] ↔ f.pending = []) (hwait : f'.wait = f.wait)
      (hrank : f'.inRank = f.inRank) (hpool : f'.inPool = f.inPool)
  | out (hout : ¬ f'.Queued)
      (hfree : ∀ P, f'.program = some P → P.state = .paused → f'.pending = [])

namespace Calms

lemma active (hsound : Sound sched f') (hP : f'.program = some P) (hactive : P.state = .active) :
    Calms f f' := by
  obtain ⟨d, -, hlive⟩ := hsound.of_program hP
  refine .out (hlive.not_queued hactive) fun Q hQ hpaused => ?_
  cases hP.symm.trans hQ
  cases hactive.symm.trans hpaused

lemma tail (h : Tail sched f f') (hsound : Sound sched f) : Calms f f' := by
  cases h with
  | retouch _ _ _ hd =>
    refine .kept rfl Iff.rfl ?_ rfl rfl
    unfold wait
    rw [hd]
    rfl
  | wake => exact .kept rfl wakeFront_eq_nil rfl rfl rfl
  | pause _ _ hP _ hactive hacting =>
    obtain ⟨e, -, hlive⟩ := hsound.of_program hP
    exact .out (hlive.not_queued hactive) fun _ _ _ => (hlive.acting hacting).2
  | admission =>
    refine .out (not_queued_unqueued f) fun Q hQ hpaused' => ?_
    cases hQ
    cases hpaused'
  | release => exact .out (not_queued_unqueued f) fun Q hQ => by cases hQ
  | leave hP =>
    refine .out (not_queued_unqueued f) fun Q hQ => ?_
    cases hP.symm.trans hQ

lemma claim (h : Claims handle f f' dispatch) (hsound : Sound sched f) : Calms f f' := by
  have hsound' := h.sound hsound
  cases h with
  | front hP hactive
  | behind hP hactive => exact .active hsound' rfl hactive
  | unplaced => exact .kept rfl Iff.rfl rfl rfl rfl

lemma complete (h : Completes f f') (hsound : Sound sched f) : Calms f f' := by
  have hsound' := h.sound hsound
  cases h with
  | runs _ _ _ hactive => exact .active hsound' rfl hactive
  | pauses _ hP _ hactive _ hpending =>
    obtain ⟨e, -, hlive⟩ := hsound.of_program hP
    exact .out (hlive.not_queued hactive) fun _ _ _ => hpending

lemma cancel {requestId : Nat} (h : Cancels requestId f f') : Calms f f' := by
  cases h with
  | waiting hrest hne => exact .kept rfl (iff_of_false hne hrest.ne_nil) rfl rfl rfl
  | running
  | paused
  | active => exact .out (not_queued_unqueued f) fun _ _ _ => rfl

end Calms

/-! ## What failover leaves -/

/-- A Program that was bound again: paused, with its requests and its deadline,
and queued for the new target if a request waits. -/
structure Rebound (sched : ProgramScheduler) (pool : ModelPool) (f f' : Facts)
    (P Q : RuntimeProgram) (d d' : ProgramDecisionState) : Prop where
  before : f.program = some P
  program : f'.program = some Q
  paused : Q.state = .paused
  decisionBefore : f.decision = some d
  decision : f'.decision = some d'
  needs : needsRebinding f.home d = true
  pending : f'.pending = f.pending
  ranks : f'.inRank = (f.requeued sched pool d'.lastTarget).inRank
  pools : f'.inPool = (f.requeued sched pool d'.lastTarget).inPool
  inside : ∀ t, d'.lastTarget = some t → t ∈ f.home
  bound : sched.CanBind → f.home ≠ [] → d'.lastTarget.isSome = true
  queuedAt : d'.queuedAt = d.queuedAt
  deadline : d'.forceResumeDeadline = d.forceResumeDeadline

lemma Rebinds.rebound (h : Rebinds sched pool f f') :
    ∃ P Q d d', Rebound sched pool f f' P Q d d' := by
  cases h with
  | @paused P d replacement interrupted now hP hd hpaused hneeds hhome hbound =>
    obtain ⟨hlast, hqueuedAt, hdeadline⟩ := failedOver_fields replacement interrupted now d
    obtain ⟨hprogram, hpending, -⟩ := f.requeued_fields sched pool replacement
    refine ⟨P, P, d, _, hP, hprogram.trans hP, hpaused, hd, rfl, hneeds, hpending, ?_, ?_, ?_, ?_,
      hqueuedAt, hdeadline⟩
    · rw [hlast]
    · rw [hlast]
    · rw [hlast]
      exact hhome
    · rw [hlast]
      exact hbound
  | @active P d replacement epoch now hP hd _ hneeds hhome hbound =>
    obtain ⟨hlast, hqueuedAt, hdeadline⟩ := failedOver_fields replacement true now d
    obtain ⟨-, hpending, -⟩ := f.requeued_fields sched pool replacement
    refine ⟨P, P.invalidated epoch, d, _, hP, rfl, rfl, hd, rfl, hneeds, hpending, ?_, ?_, ?_, ?_,
      hqueuedAt, hdeadline⟩
    · rw [hlast]
    · rw [hlast]
    · rw [hlast]
      exact hhome
    · rw [hlast]
      exact hbound

/-- The Programs with a retained request that a snapshot binds again. -/
def ProgramSchedulerState.reboundWaiters (s : ProgramSchedulerState) (pool : ModelPool)
    (targets : TargetSnapshot) : List ProgramRef :=
  if s.installs pool targets then
    (s.runtime.programs.values.map RuntimeProgram.reference).filter fun r =>
      decide (r.modelPool = pool ∧ s.runtime.requestPool.queue r ≠ []) &&
        (s.decisions.lookup r).any (needsRebinding targets.ids)
  else []

lemma mem_reboundWaiters (hinstalls : s.installs pool targets = true) (hpool : r.modelPool = pool)
    (h : Rebound sched pool ((s.facts r).retargeted removed targets.ids) f' P Q d d')
    (hne : f'.pending ≠ []) : r ∈ s.reboundWaiters pool targets := by
  obtain ⟨hlookup, href⟩ := program_eq_some.1 (show s.runtime.program r = some P from h.before)
  have hmem : r ∈ s.runtime.programs.values.map RuntimeProgram.reference :=
    mem_map.2 ⟨P, (Dict.mem_values_iff _ _).2 ⟨_, hlookup⟩, href⟩
  have hwaits : s.runtime.requestPool.queue r ≠ [] := fun hnil => hne (h.pending.trans hnil)
  unfold ProgramSchedulerState.reboundWaiters
  rw [if_pos hinstalls, mem_filter]
  refine ⟨hmem, ?_⟩
  rw [show s.decisions.lookup r = some d from h.decisionBefore, Bool.and_eq_true,
    decide_eq_true_iff]
  exact ⟨⟨hpool, hwaits⟩, h.needs⟩

/-- Targets that a snapshot keeps are not removed by it. -/
lemma not_mem_removedTargets {ids : List TargetId} (h : t ∈ ids) :
    t ∉ s.removedTargets pool ids := by
  intro hmem
  have hgone := (mem_filter.1 hmem).2
  simp [h] at hgone

/-! ## Exact membership -/

/-- A Program is in its queue once while it waits, and in no other queue. -/
structure Enlisted (sched : ProgramScheduler) (r : ProgramRef) (f : Facts) : Prop where
  rank : ∀ t, f.inRank t
    = if sched.config.globalQueue = false ∧ f.waitsFor = some t then 1 else 0
  pool : ∀ pool, f.inPool pool
    = if sched.config.globalQueue = true ∧ f.waitsFor.isSome = true ∧ pool = r.modelPool then 1
      else 0

namespace Enlisted

lemma of_none (hwaits : f.waitsFor = none) (hout : ¬ f.Queued) : Enlisted sched r f where
  rank := by
    intro t
    rw [not_not.1 fun h => hout (.inl ⟨t, h⟩), hwaits]
    simp
  pool := by
    intro pool
    rw [not_not.1 fun h => hout (.inr ⟨pool, h⟩), hwaits]
    simp

/-- What leaves the counts and the wait as they are. -/
lemma congr (h : Enlisted sched r f) (hrank : f'.inRank = f.inRank) (hpool : f'.inPool = f.inPool)
    (hwaits : f'.waitsFor = f.waitsFor) : Enlisted sched r f' where
  rank := by
    intro t
    rw [hrank, hwaits]
    exact h.rank t
  pool := by
    intro pool
    rw [hpool, hwaits]
    exact h.pool pool

lemma calms (hf : Enlisted sched r f) (h : Calms f f') : Enlisted sched r f' := by
  cases h with
  | kept hprogram hpending hwait hrank hpool =>
    exact hf.congr hrank hpool (waitsFor_congr hprogram hpending hwait)
  | out hout hfree => exact .of_none (waitsFor_free hfree) hout

end Enlisted

/-- Before an arrival a Program waits for the target it has afterwards, or it
does not wait. -/
lemma Arrives.waited (h : Arrives sched p identity request f f') (hP : f'.program = some P)
    (hd : f'.decision = some d) : f'.inRank = f.inRank ∧ f'.inPool = f.inPool ∧
      (f.waitsFor = none ∨ f.waitsFor = d.lastTarget) ∧
      (P.state = .active → f.waitsFor = none) := by
  cases h with
  | @known P0 d0 hP0 hd0 =>
    cases hP
    cases hd
    refine ⟨rfl, rfl, ?_, fun hactive => waitsFor_active hP0 hactive⟩
    rw [(refreshed_same identity request.estimatedContextTokens d0).1.last, ← lastTarget_eq hd0]
    exact f.waitsFor_or
  | fresh hP0 => exact ⟨rfl, rfl, .inl (waitsFor_dead hP0), fun _ => waitsFor_dead hP0⟩

/-- A Program that enters the queue of the target it waits for, unless it is
there already. -/
lemma Enlisted.enqueued (hf : Enlisted sched r f) (hwas : f.waitsFor = none ∨ f.waitsFor = some t)
    (hwaits : f'.waitsFor = some t)
    (hrank : f'.inRank = (f.enqueuedOnce sched r.modelPool t).inRank)
    (hpool : f'.inPool = (f.enqueuedOnce sched r.modelPool t).inPool) : Enlisted sched r f' := by
  have hcount : ∀ t', f.inRank t'
      = if sched.config.globalQueue = false ∧ f.waitsFor = some t' then 1 else 0 := hf.rank
  have hcount' : ∀ pool, f.inPool pool = if sched.config.globalQueue = true ∧
      f.waitsFor.isSome = true ∧ pool = r.modelPool then 1 else 0 := hf.pool
  unfold enqueuedOnce at hrank hpool
  cases hglobal : sched.config.globalQueue with
  | true =>
    rw [hglobal, if_pos rfl] at hrank hpool
    constructor
    · intro t'
      rw [hrank, hcount, hglobal]
      simp
    intro pool
    rw [hpool, hwaits]
    show atLeastOnce r.modelPool f.inPool pool = _
    unfold atLeastOnce
    rw [hcount', hglobal]
    rcases hwas with hnone | hsome
    · by_cases hp : pool = r.modelPool
      · simp [hnone]
      · simp [hp]
    by_cases hp : pool = r.modelPool
    · simp [hsome]
    · simp [hp]
  | false =>
    rw [hglobal, if_neg (by simp)] at hrank hpool
    constructor
    · intro t'
      rw [hrank, hwaits]
      show atLeastOnce t f.inRank t' = _
      unfold atLeastOnce
      rw [hcount, hglobal]
      rcases hwas with hnone | hsome
      · by_cases ht : t' = t
        · simp [hnone, ht]
        · simp [hnone, ht, Ne.symm ht]
      by_cases ht : t' = t
      · simp [hsome, ht]
      · simp [hsome, ht, Ne.symm ht]
    · intro _
      rw [hpool, hcount', hglobal]
      simp

/-- Entering a queue depends on the counts only. -/
lemma Facts.enqueuedOnce_counts (sched pool t) (hrank : f'.inRank = f.inRank)
    (hpool : f'.inPool = f.inPool) :
    (f'.enqueuedOnce sched pool t).inRank = (f.enqueuedOnce sched pool t).inRank ∧
      (f'.enqueuedOnce sched pool t).inPool = (f.enqueuedOnce sched pool t).inPool := by
  unfold enqueuedOnce
  rw [hrank, hpool]
  split
  · exact ⟨rfl, rfl⟩
  · exact ⟨rfl, rfl⟩

lemma Enlisted.retain (h : Retains sched p identity request f f' error) (hsound : Sound sched f)
    (hf : Enlisted sched p f) : Enlisted sched p f' := by
  cases h with
  | @placed _ P h hP hplace =>
    obtain ⟨d, hd, hlive⟩ := (h.sound hsound).of_program hP
    have hactive : P.state = .active := hlive.placed.2 hplace
    obtain ⟨hrank, hpool, -, hout⟩ := h.waited hP hd
    refine hf.congr hrank hpool ?_
    rw [hout hactive, waitsFor_active hP hactive]
  | @unbound _ P d h hP hplace hd hlast =>
    obtain ⟨e, he, hlive⟩ := (h.sound hsound).of_program hP
    obtain ⟨hrank, hpool, hwas, -⟩ := h.waited hP hd
    refine hf.congr hrank hpool ?_
    rw [waitsFor_waiting hP hd (hlive.paused_of_unplaced hplace) h.pending_ne_nil, hlast]
    rw [hlast] at hwas
    rcases hwas with hnone | hnone
    · exact hnone.symm
    · exact hnone.symm
  | @queued f1 P d t estimate h hP hplace hd hlast =>
    obtain ⟨e, he, hlive⟩ := (h.sound hsound).of_program hP
    obtain ⟨hrank, hpool, hwas, -⟩ := h.waited hP hd
    obtain ⟨hprogram, hpending, -⟩ := f1.enqueuedOnce_fields sched p.modelPool t
    obtain ⟨hrank', hpool'⟩ := enqueuedOnce_counts sched p.modelPool t hrank hpool
    refine hf.enqueued (hlast ▸ hwas) ?_ hrank' hpool'
    exact Eq.trans (waitsFor_waiting (d := withDeadline _ _ estimate (queuedSince _ d))
      (hprogram.trans hP) rfl (hlive.paused_of_unplaced hplace)
      fun hnil => h.pending_ne_nil (hpending.symm.trans hnil)) hlast

/-- The snapshot drops no queue entry of another pool; in the global mode it
leaves a target to every Program that it binds again while a request waits. -/
def keepsQueues (sched : ProgramScheduler) (sys : System) (event : Instant × Action) : Bool :=
  match event.2 with
  | .sync _ pool targets =>
    if sched.config.globalQueue then
      decide (targets.ids ≠ [] ∧ sched.CanBind) ||
        (sys.state.reboundWaiters pool targets).isEmpty
    else
      !sys.state.installs pool targets ||
        (sys.state.removedTargets pool targets.ids).all fun t =>
          ((sys.state.rankQueues.lookup t).getD []).all fun r => decide (r.modelPool = pool)
  | _ => true

/-- A snapshot that takes no queue entry keeps the counts of the Programs that
it does not bind again. -/
lemma Enlisted.retargeted {removed home : List TargetId} (hf : Enlisted sched r f)
    (h : sched.config.globalQueue = false → ∀ t, f.waitsFor = some t → t ∉ removed) :
    Enlisted sched r (f.retargeted removed home) := by
  refine ⟨fun t => ?_, hf.pool⟩
  show (if t ∈ removed then 0 else f.inRank t)
    = if sched.config.globalQueue = false ∧ f.waitsFor = some t then 1 else 0
  rw [hf.rank]
  split
  · rename_i ht
    rw [if_neg fun hwaits => h hwaits.1 t hwaits.2 ht]
  · rfl

lemma Enlisted.rebound (h : Rebound sched pool f f' P Q d d') (hpool : r.modelPool = pool)
    (hbound : sched.config.globalQueue = true → f'.pending ≠ [] → d'.lastTarget.isSome = true) :
    Enlisted sched r f' := by
  by_cases hnil : f.pending = []
  · have hranks := h.ranks
    have hpools := h.pools
    unfold requeued at hranks hpools
    rw [if_pos hnil] at hranks hpools
    refine .of_none (waitsFor_free fun _ _ _ => h.pending.trans hnil) ?_
    unfold Facts.Queued
    rw [hranks, hpools]
    exact not_queued_unqueued f
  have hne : f'.pending ≠ [] := fun h' => hnil (h.pending.symm.trans h')
  have hwaits := waitsFor_waiting h.program h.decision h.paused hne
  have hranks := h.ranks
  have hpools := h.pools
  unfold requeued at hranks hpools
  rw [if_neg hnil] at hranks hpools
  cases hglobal : sched.config.globalQueue with
  | true =>
    constructor
    · intro t
      rw [hranks, hglobal]
      simp [unqueued]
    intro _
    rw [hpools, hwaits, hglobal, hbound hglobal hne, hpool]
    simp
  | false =>
    rw [hglobal] at hranks hpools
    constructor
    · intro t
      rw [hranks, hwaits, hglobal]
      simp
    intro _
    rw [hpools, hglobal]
    simp [unqueued]

lemma Enlisted.sync {now : Instant} {env : Env} (hsound : Sound sched (sys.state.facts r))
    (hguard : keepsQueues sched sys (now, .sync env pool targets) = true)
    (hinstalls : sys.state.installs pool targets = true)
    (h : Syncs sched r pool (sys.state.removedTargets pool targets.ids) targets.ids
      (sys.state.facts r) f') (hf : Enlisted sched r (sys.state.facts r)) :
    Enlisted sched r f' := by
  unfold keepsQueues at hguard
  simp only at hguard
  cases h with
  | other hpool =>
    refine hf.retargeted fun hglobal t hwaits hremoved => hpool ?_
    rw [hglobal, if_neg (by simp), hinstalls, Bool.not_true, Bool.false_or,
      List.all_eq_true] at hguard
    -- the Program is in the queue of the removed target
    have hcount : ((sys.state.rankQueues.lookup t).getD []).count r = 1 := by
      have hrank := hf.rank t
      rw [if_pos ⟨hglobal, hwaits⟩] at hrank
      exact hrank
    have hmem : r ∈ (sys.state.rankQueues.lookup t).getD [] := by
      rw [← List.one_le_count_iff, hcount]
    exact of_decide_eq_true (List.all_eq_true.1 (hguard t hremoved) r hmem)
  | kept _ hkeeps =>
    refine hf.retargeted fun _ t hwaits => ?_
    cases hsound with
    | dead hP =>
      rw [waitsFor_dead hP] at hwaits
      cases hwaits
    | @live _ d _ hd =>
      obtain ⟨t', hlast, hmem⟩ := lastTarget_of_keeps (hkeeps d hd)
      rcases (sys.state.facts r).waitsFor_or with hnone | hfor
      · cases hnone.symm.trans hwaits
      rw [hfor, lastTarget_eq hd, hlast] at hwaits
      cases hwaits
      exact not_mem_removedTargets hmem
  | rebound hpool h =>
    obtain ⟨P, Q, d, d', hrebound⟩ := h.rebound
    refine .rebound hrebound hpool fun hglobal hne => ?_
    rw [hglobal, if_pos rfl, Bool.or_eq_true, decide_eq_true_iff] at hguard
    rcases hguard with hcan | hempty
    · exact hrebound.bound hcan.2 hcan.1
    have hmem := mem_reboundWaiters hinstalls hpool hrebound hne
    rw [List.isEmpty_iff.1 hempty] at hmem
    cases hmem

lemma enlistedRule (h : Consistent sched sys.state)
    (hguard : keepsQueues sched sys event = true) :
    SectionRule sched sys event.1 event.2 (Enlisted sched) where
  permit := fun _ _ _ _ _ _ hf => hf.calms (.kept rfl map_eq_nil_iff rfl rfl rfl)
  claim := fun _ _ _ _ _ _ _ _ hclaims hf => hf.calms (.claim hclaims (h.sound _))
  cancel := fun _ _ _ _ _ _ hcancels hf => hf.calms (.cancel hcancels)
  complete := fun _ _ _ hcompletes hf => hf.calms (.complete hcompletes (h.sound _))
  retain := fun _ _ _ _ _ _ r _ _ _ _ _ hretains hf => hf.retain hretains (h.sound r)
  sync := by
    intro _ _ _ r _ haction hinstalls hsyncs hf
    cases event
    cases haction
    exact hf.sync (h.sound r) hguard hinstalls hsyncs

/-- While snapshots keep the queues, a Program that waits is in its queue once,
and nothing else is in any queue. -/
theorem run_enlisted (sched : ProgramScheduler) (events : List (Instant × Action))
    (hguard : guardedRun (step sched) (keepsQueues sched) (empty sched.config)
      events = true) (r : ProgramRef) :
    Enlisted sched r (((empty sched.config).run sched events).state.facts r) := by
  refine run_facts (I := Enlisted sched) (fun r => ?_) (fun _ _ h hg => enlistedRule h hg)
    (fun r f f' htail hsound hf => hf.calms (.tail htail hsound)) hguard r
  exact .of_none rfl (not_queued_unqueued ((empty sched.config).state.facts r))

/-- Two pools share a target, and a snapshot of one of them removes it while
only its own Program waits for it. -/
theorem run_enlisted_shared : Enlisted smallScheduler ⟨"m", "p", 0⟩ ((smallRun
    [(1, syncOf "m" 0 ["a"]), (1, syncOf "all" 1 ["a", "b"]),
      (2, arrivalOf "all" "q" ["a", "b"] 2), (3, arrivalOf "m" "p" ["a"] 3),
      (4, syncOf "m" 2 ["c"])]).state.facts ⟨"m", "p", 0⟩) :=
  run_enlisted smallScheduler _ (by decide +kernel) ⟨"m", "p", 0⟩

/-- Two pools share a target, and a snapshot of one of them removes it while a
Program of the other one waits for it. -/
def sharedTargetRun : System := smallRun
  [(1, syncOf "m" 0 ["a"]), (1, syncOf "all" 1 ["a"]), (2, arrivalOf "m" "p" ["a"] 2),
    (3, arrivalOf "all" "q" ["a"] 3), (4, syncOf "m" 2 ["b"])]

/-- The Program waits for a target of its pool and is in no queue. -/
theorem sharedTargetRun_unqueued :
    (sharedTargetRun.state.facts ⟨"all", "q", 0⟩).waitsFor = some "a" ∧
      "a" ∈ (sharedTargetRun.state.facts ⟨"all", "q", 0⟩).home ∧
      (∀ queue ∈ sharedTargetRun.state.rankQueues.values, ⟨"all", "q", 0⟩ ∉ queue) ∧
      ∀ queue ∈ sharedTargetRun.state.globalQueues.values, ⟨"all", "q", 0⟩ ∉ queue := by
  decide +kernel

/-! ## Starvation bounds -/

/-- A Program that waits, or is queued, knows since when and until when. -/
def Bounded (f : Facts) : Prop :=
  f.waitsFor.isSome = true ∨ f.Queued → ∃ d, f.decision = some d ∧
    d.queuedAt.isSome = true ∧ d.forceResumeDeadline.isSome = true

/-- A snapshot binds a Program with a retained request again only if it is
paused and bound. -/
def rebindsWaiting (sys : System) (event : Instant × Action) : Bool :=
  match event.2 with
  | .sync _ pool targets => (sys.state.reboundWaiters pool targets).all fun r =>
      ((sys.state.runtime.program r).any fun P => decide (P.state = .paused)) &&
        (sys.state.decisions.lookup r).any fun d => d.lastTarget.isSome
  | _ => true

namespace Bounded

lemma of_none (hwaits : f.waitsFor = none) (hout : ¬ f.Queued) : Bounded f := by
  rintro (hsome | hqueued)
  · rw [hwaits] at hsome
    cases hsome
  · exact absurd hqueued hout

lemma calms (hf : Bounded f) (h : Calms f f') : Bounded f' := by
  cases h with
  | kept hprogram hpending hwait hrank hpool =>
    intro hafter
    unfold Facts.Queued at hafter
    rw [waitsFor_congr hprogram hpending hwait, hrank, hpool] at hafter
    obtain ⟨d, hd, hbound⟩ := hf hafter
    unfold wait at hwait
    rw [hd, map_some, map_eq_some_iff] at hwait
    obtain ⟨d', hd', hsame⟩ := hwait
    simp only [Prod.mk.injEq] at hsame
    rw [← hsame.2.1, ← hsame.2.2] at hbound
    exact ⟨d', hd', hbound⟩
  | out hout hfree => exact .of_none (waitsFor_free hfree) hout

lemma retain (h : Retains sched p identity request f f' error) (hsound : Sound sched f)
    (hf : Bounded f) : Bounded f' := by
  cases h with
  | @placed _ P h hP hplace =>
    obtain ⟨d, hd, hlive⟩ := (h.sound hsound).of_program hP
    have hactive : P.state = .active := hlive.placed.2 hplace
    exact .of_none (waitsFor_active hP hactive) (hlive.not_queued hactive)
  | @unbound _ _ _ h _ _ hd hlast =>
    -- it has no target, so it could only be queued from before the arrival
    rintro (hsome | hqueued)
    · rcases f'.waitsFor_or with hnone | hfor
      · rw [hnone] at hsome
        cases hsome
      · rw [hfor, lastTarget_eq hd, hlast] at hsome
        cases hsome
    cases h with
    | @known _ d0 _ hd0 =>
      obtain ⟨e, he, hbound⟩ := hf (.inr hqueued)
      cases hd0.symm.trans he
      obtain ⟨hsame, -⟩ := refreshed_same identity request.estimatedContextTokens d0
      rw [← hsame.queuedAt, ← hsame.deadline] at hbound
      exact ⟨_, rfl, hbound⟩
    | fresh hP0 =>
      cases hsound with
      | dead _ _ _ hout => exact absurd hqueued hout
      | live hP' =>
        rw [hP0] at hP'
        cases hP'
  | queued =>
    refine fun _ => ⟨_, rfl, ?_, rfl⟩
    show (or _ (some request.arrivedAt)).isSome = true
    simp

lemma sync {now : Instant} {env : Env}
    (hguard : rebindsWaiting sys (now, .sync env pool targets) = true)
    (hinstalls : sys.state.installs pool targets = true)
    (h : Syncs sched r pool (sys.state.removedTargets pool targets.ids) targets.ids
      (sys.state.facts r) f') (hsound : Sound sched f') (hf : Bounded (sys.state.facts r)) :
    Bounded f' := by
  cases h with
  | other hpool
  | kept => exact fun hbound => hf (hbound.imp id queued_of_retargeted)
  | rebound hpool h =>
    obtain ⟨P, Q, d, d', hrebound⟩ := h.rebound
    have hd : (sys.state.facts r).decision = some d := hrebound.decisionBefore
    by_cases hnil : f'.pending = []
    · obtain ⟨e, -, hlive⟩ := hsound.of_program hrebound.program
      exact .of_none (waitsFor_free fun _ _ _ => hnil) fun hq => (hlive.queued hq).2 hnil
    have hwas := all_eq_true.1 hguard r (mem_reboundWaiters hinstalls hpool hrebound hnil)
    rw [show sys.state.runtime.program r = some P from hrebound.before, show
      sys.state.decisions.lookup r = some d from hd, Bool.and_eq_true, any_some,
      decide_eq_true_iff] at hwas
    have hwaited : (sys.state.facts r).waitsFor = d.lastTarget :=
      waitsFor_waiting (show (sys.state.facts r).program = some P from hrebound.before) hd
        hwas.1 fun h' => hnil (hrebound.pending.trans h')
    obtain ⟨e, he, hbound⟩ := hf (.inl (hwaited ▸ hwas.2))
    cases hd.symm.trans he
    rw [← hrebound.queuedAt, ← hrebound.deadline] at hbound
    exact fun _ => ⟨d', hrebound.decision, hbound⟩

end Bounded

lemma boundedRule (h : Consistent sched sys.state) (hguard : rebindsWaiting sys event = true) :
    SectionRule sched sys event.1 event.2 fun _ f => Bounded f where
  permit := fun _ _ _ _ _ _ hf => hf.calms (.kept rfl map_eq_nil_iff rfl rfl rfl)
  claim := fun _ _ _ _ _ _ _ _ hclaims hf => hf.calms (.claim hclaims (h.sound _))
  cancel := fun _ _ _ _ _ _ hcancels hf => hf.calms (.cancel hcancels)
  complete := fun _ _ _ hcompletes hf => hf.calms (.complete hcompletes (h.sound _))
  retain := fun _ _ _ _ _ _ r _ _ _ _ _ hretains hf => hf.retain hretains (h.sound r)
  sync := by
    intro _ _ _ r _ haction hinstalls hsyncs hf
    cases event
    cases haction
    exact hf.sync hguard hinstalls hsyncs (hsyncs.sound (h.sound r))

/-- While no snapshot takes the target from an active Program with a retained
request, and none binds a waiting Program that had no target, every queued
Program has a starvation bound. -/
theorem run_queued_bounded (sched : ProgramScheduler) (events : List (Instant × Action))
    (hguard : guardedRun (step sched) rebindsWaiting (empty sched.config) events = true)
    (r : ProgramRef) (hqueued : (((empty sched.config).run sched events).state.facts r).Queued) :
    ∃ d, ((empty sched.config).run sched events).state.decisions.lookup r = some d ∧
      d.queuedAt.isSome = true ∧ d.forceResumeDeadline.isSome = true := by
  refine run_facts (I := fun _ f => Bounded f) (fun r => ?_)
    (fun _ _ h hg => boundedRule h hg)
    (fun r f f' htail hsound hf => hf.calms (.tail htail hsound)) hguard r (.inr hqueued)
  exact .of_none rfl (not_queued_unqueued ((empty sched.config).state.facts r))

/-- The snapshots of this run bind a waiting Program again. -/
def waitingFailoverRun : List (Instant × Action) :=
  [(1, syncOf "m" 0 ["a"]), (2, arrivalOf "m" "p" ["a"] 2), (3, arrivalOf "m" "q" ["a"] 3),
    (4, .claim 0), (5, syncOf "m" 1 ["b"])]

theorem run_queued_bounded_failover :
    ((smallRun waitingFailoverRun).state.facts ⟨"m", "q", 0⟩).inRank "b" = 1 ∧
      ∃ d, (smallRun waitingFailoverRun).state.decisions.lookup ⟨"m", "q", 0⟩ = some d ∧
        d.queuedAt.isSome = true ∧ d.forceResumeDeadline.isSome = true := by
  have hqueued : ((smallRun waitingFailoverRun).state.facts ⟨"m", "q", 0⟩).inRank "b" = 1 := by
    decide +kernel
  refine ⟨hqueued, run_queued_bounded smallScheduler waitingFailoverRun (by decide +kernel)
    ⟨"m", "q", 0⟩ (.inl ⟨"b", ?_⟩)⟩
  exact one_ne_zero

/-- The target of an admitted Program is removed before its request is claimed. -/
def unclaimedFailoverRun : System := smallRun
  [(1, syncOf "m" 0 ["a"]), (2, arrivalOf "m" "p" ["a"] 2), (3, syncOf "m" 1 ["b"])]

/-- The Program is queued without a deadline. -/
theorem unclaimedFailoverRun_unbounded :
    (unclaimedFailoverRun.state.facts ⟨"m", "p", 0⟩).inRank "b" = 1 ∧
      ∃ d, unclaimedFailoverRun.state.decisions.lookup ⟨"m", "p", 0⟩ = some d ∧
        d.queuedAt = none ∧ d.forceResumeDeadline = none := by
  refine ⟨by decide +kernel, unclaimedFailoverRun.state.decisionAt ⟨"m", "p", 0⟩, ?_⟩
  decide +kernel

/-! ## Binding only -/

/-- The snapshot leaves no target, or it binds no Program again while a request
of it waits. -/
def rebindsIdle (sys : System) (event : Instant × Action) : Bool :=
  match event.2 with
  | .sync _ pool targets => targets.ids.isEmpty || (sys.state.reboundWaiters pool targets).isEmpty
  | _ => true

/-- Nobody waits who did not wait before. -/
lemma Calms.waitsFor (hf : f.waitsFor = none) (h : Calms f f') : f'.waitsFor = none := by
  cases h with
  | kept hprogram hpending hwait => exact (waitsFor_congr hprogram hpending hwait).trans hf
  | out _ hfree => exact waitsFor_free hfree

/-- Only an arrival and failover make a Program wait. -/
lemma waitsForRule (h : Consistent sched sys.state) (hguard : rebindsIdle sys event = true)
    (hother : ∀ env identity tokens targets text arrivedAt,
      event.2 ≠ .acquire env identity tokens targets text arrivedAt) :
    SectionRule sched sys event.1 event.2 fun _ f => f.waitsFor = none where
  permit := fun _ _ _ _ _ _ hf => Calms.waitsFor hf (.kept rfl List.map_eq_nil_iff rfl rfl rfl)
  claim := fun _ _ _ _ _ _ _ _ hclaims hf => Calms.waitsFor hf (.claim hclaims (h.sound _))
  cancel := fun _ _ _ _ _ _ hcancels hf => Calms.waitsFor hf (.cancel hcancels)
  complete := fun _ _ _ hcompletes hf => Calms.waitsFor hf (.complete hcompletes (h.sound _))
  retain := fun _ _ _ _ _ _ _ _ _ haction _ _ _ _ => absurd haction (hother _ _ _ _ _ _)
  sync := by
    intro _ _ targets _ f' haction hinstalls hsyncs hf
    cases hsyncs with
    | other hpool
    | kept => exact hf
    | rebound hpool h =>
      obtain ⟨P, Q, d, d', hrebound⟩ := h.rebound
      by_cases hne : f'.pending = []
      · exact waitsFor_free fun _ _ _ => hne
      rw [waitsFor_waiting hrebound.program hrebound.decision hrebound.paused hne]
      unfold rebindsIdle at hguard
      rw [haction] at hguard
      simp only [Bool.or_eq_true, List.isEmpty_iff] at hguard
      rcases hguard with hids | hnobody
      · -- there is no target to wait for
        cases hlast : d'.lastTarget with
        | none => rfl
        | some t =>
          have hmem : t ∈ targets.ids := hrebound.inside t hlast
          rw [hids] at hmem
          cases hmem
      have hmem := mem_reboundWaiters hinstalls hpool hrebound hne
      rw [hnobody] at hmem
      cases hmem

/-- An arrival activates its Program at once. -/
lemma activateBindingOnly_waitsFor (now) (hsound : Sound sched (s.facts p)) :
    ((sched.activateBindingOnly s p now).facts p).waitsFor = none := by
  cases hsound with
  | dead hP hd =>
    have hview : s.runtime.view p = none := by
      unfold view
      rw [show s.runtime.program p = none from hP]
      rfl
    unfold activateBindingOnly
    rw [hview, show s.decisions.lookup p = none from hd]
    exact waitsFor_dead hP
  | @live P d hP hd =>
    have hview : s.runtime.view p = some (s.runtime.viewOf P) := view_eq_some.2 ⟨P, hP, rfl⟩
    unfold activateBindingOnly
    rw [hview, show s.decisions.lookup p = some d from hd]
    cases hstate : P.state with
    | active =>
      rw [if_pos (by simpa [viewOf] using hstate)]
      exact waitsFor_active (P := P) hP hstate
    | paused =>
      rw [if_neg (by simp [viewOf, hstate])]
      by_cases hnil : (s.facts p).pending = []
      · cases hlast : d.lastTarget with
        | none =>
          simp only [bind_some, hlast]
          exact waitsFor_free fun _ _ _ => hnil
        | some t =>
          simp only [bind_some, hlast]
          cases hcommit : sched.commitAdmission s p t now with
          | none => exact waitsFor_free fun _ _ _ => hnil
          | some =>
            obtain ⟨-, -, -, -, -, hwait, -⟩ := commitAdmission_eq_some hcommit
            exact absurd hnil hwait
      · cases hlast : d.lastTarget with
        | none =>
          simp only [bind_some, hlast]
          exact (waitsFor_waiting hP hd hstate hnil).trans hlast
        | some t =>
          simp only [bind_some, hlast]
          obtain ⟨s', hcommit⟩ := sched.commitAdmission_isSome t now hP hstate hnil hd
          rw [hcommit, getD_some, facts_commitAdmission hP hd hcommit, if_pos rfl]
          exact waitsFor_active (P := P.on t (s.runtime.nextPlacementEpoch + 1)) rfl rfl

/-- An arrival leaves nobody waiting. -/
lemma acquire_waitsFor (env identity tokens targets text) (h : Consistent sched sys.state)
    (hbinding : sched.config.bindingOnly = true)
    (hI : ∀ r, (sys.state.facts r).waitsFor = none) (r) :
    ((sys.acquire sched env identity tokens targets text arrivedAt
      now).state.facts r).waitsFor = none := by
  unfold acquire
  simp only
  split
  · exact hI r
  obtain ⟨s1, p, error, hretain, hretains, hframe⟩ :=
    acquireRetain_retains env identity tokens text arrivedAt now h.sound
      h.policy
  rw [hretain]
  show ((sched.afterRetention env s1 p arrivedAt now error).facts r).waitsFor = none
  have hsound : Sound sched (s1.facts p) := hretains.sound (h.sound p)
  by_cases hr : r = p
  · subst hr
    cases error with
    | none =>
      unfold afterRetention runArrival
      simp only
      rw [if_pos hbinding]
      exact activateBindingOnly_waitsFor now hsound
    | some =>
      show (s1.facts r).waitsFor = none
      generalize s1.facts r = f1 at hretains hsound ⊢
      cases hretains with
      | unbound harrives hP hplace hd hlast =>
        obtain ⟨e, he, hlive⟩ := hsound.of_program hP
        exact (waitsFor_waiting hP hd (hlive.paused_of_unplaced hplace)
          harrives.pending_ne_nil).trans hlast
  · rw [afterRetention_eq]
    have htails := (sched.follow_admits s1 (sched.arrivalFollowUp env p arrivedAt now error)
      fun _ _ => sched.arrivalFollowUp_activation).decides.tails r
    rw [hframe.others r hr] at htails
    have hkept := htails.keeps (I := fun f => Sound sched f ∧ f.waitsFor = none)
      (fun f f' htail hf => ⟨htail.sound hf.1, Calms.waitsFor hf.2 (.tail htail hf.1)⟩)
      ⟨h.sound r, hI r⟩
    exact hkept.2

lemma step_waitsFor (h : Consistent sched sys.state) (hbinding : sched.config.bindingOnly = true)
    (hguard : rebindsIdle sys event = true) (hI : ∀ r, (sys.state.facts r).waitsFor = none) (r) :
    ((sys.step sched event).state.facts r).waitsFor = none := by
  by_cases hacquire : ∃ env identity tokens targets text arrivedAt,
      event.2 = .acquire env identity tokens targets text arrivedAt
  · obtain ⟨env, identity, tokens, targets, text, _, haction⟩ :=
      hacquire
    unfold step
    split
    · show ((sys.perform sched event.1 event.2).state.facts r).waitsFor = none
      rw [haction]
      unfold System.perform
      simp only
      split
      · exact acquire_waitsFor env identity tokens targets text h hbinding
          hI r
      · exact hI r
    · exact hI r
  · refine step_facts h (waitsForRule h hguard ?_)
      (fun _ _ _ htail hsound hf => Calms.waitsFor hf (.tail htail hsound)) hI r
    intro env identity tokens targets text arrivedAt haction
    exact hacquire ⟨env, identity, tokens, targets, text, arrivedAt, haction⟩

/-- With binding only, while no snapshot binds a Program with a retained request
to a new target, every Program that has a retained request and a target of its
pool is active. -/
theorem run_active_of_bindingOnly (sched : ProgramScheduler)
    (hbinding : sched.config.bindingOnly = true) (events : List (Instant × Action))
    (hguard : guardedRun (step sched) rebindsIdle (empty sched.config) events
      = true) (r : ProgramRef) (P : RuntimeProgram) (d : ProgramDecisionState) (t : TargetId)
    (hP : ((empty sched.config).run sched events).state.runtime.program r = some P)
    (hd : ((empty sched.config).run sched events).state.decisions.lookup r = some d)
    (hwait : ((empty sched.config).run sched events).state.runtime.requestPool.queue r
      ≠ []) (hlast : d.lastTarget = some t) : P.state = .active := by
  have hout : (((empty sched.config).run sched events).state.facts r).waitsFor = none :=
    run_guarded (J := fun sys => ∀ r, (sys.state.facts r).waitsFor = none)
      (fun r => by rw [empty_facts]; rfl)
      (fun _ _ h hg hI => step_waitsFor h hbinding hg hI) hguard r
  cases hstate : P.state with
  | active => rfl
  | paused =>
    rw [waitsFor_waiting hP hd hstate hwait, hlast] at hout
    cases hout

/-- The small scheduler with binding only. -/
def bindingScheduler : ProgramScheduler :=
  { smallScheduler with config := { smallScheduler.config with bindingOnly := true } }

def bindingRun (events : List (Instant × Action)) : System :=
  (empty bindingScheduler.config).run bindingScheduler events

/-- A run in which a target is removed after the request was claimed, and
another request arrives on the new one. -/
def claimedFailoverRun : List (Instant × Action) :=
  [(1, syncOf "m" 0 ["a"]), (2, arrivalOf "m" "p" ["a"] 2), (3, .claim 0),
    (4, syncOf "m" 1 ["b"]), (5, arrivalOf "m" "p" ["b"] 5)]

theorem run_active_of_bindingOnly_failover :
    ∃ P, (bindingRun claimedFailoverRun).state.runtime.program ⟨"m", "p", 0⟩ = some P ∧
      P.state = .active := by
  have hP : (bindingRun claimedFailoverRun).state.runtime.program ⟨"m", "p", 0⟩
      = some ⟨⟨"m", "p", 0⟩, .active, .reasoning, true, some "b", 3, true, 10, 0⟩ := by
    decide +kernel
  exact ⟨_, hP, run_active_of_bindingOnly bindingScheduler rfl claimedFailoverRun
    (by decide +kernel) ⟨"m", "p", 0⟩ _
    ((bindingRun claimedFailoverRun).state.decisionAt ⟨"m", "p", 0⟩) "b" hP
    (by decide +kernel) (by decide +kernel) (by decide +kernel)⟩

/-- The target is removed between the retention of a request and its claim: the
Program has a target and a retained request, and is paused. -/
theorem bindingRun_paused : ((bindingRun [(1, syncOf "m" 0 ["a"]), (2, arrivalOf "m" "p" ["a"] 2),
      (3, syncOf "m" 1 ["b"])]).state.facts ⟨"m", "p", 0⟩).waitsFor = some "b" := by
  decide +kernel

end VllmRouter.ProgramScheduling
