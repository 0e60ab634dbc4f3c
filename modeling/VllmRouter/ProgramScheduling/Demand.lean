import VllmRouter.ProgramScheduling.Steps

/-!
# Status tracks demand

A Program is reasoning while a request of it is in flight or retained, and
acting otherwise; it is active exactly while it is placed. Decisions and all
sections but one keep this.

The exception is a snapshot that removes the target of a Program with requests
in flight and none retained: failover forgets the requests in flight
(`RuntimeProgram.invalidated`) but leaves the status, so that the Program is
reasoning with nothing outstanding. Retention release passes over such a
Program, since it asks for the status `acting`.
-/

namespace VllmRouter.ProgramScheduling

/-- The facts of a live Program agree with its demand. -/
def Demanded (f : Facts) : Prop :=
  ∀ P, f.program = some P →
    (P.status = .reasoning ↔ 0 < P.inFlightRequests ∨ f.pending ≠ [])

/-- The snapshot removes the target under a Program of its pool that has
requests in flight and none retained. -/
def ProgramSchedulerState.strands (s : ProgramSchedulerState) (pool : ModelPool)
    (targets : TargetSnapshot) : Bool :=
  s.installs pool targets && s.runtime.programs.values.any fun P =>
    decide (P.reference.modelPool = pool) &&
      P.placement.any (fun t => decide (t ∈ s.removedTargets pool targets.ids)) &&
      decide (0 < P.inFlightRequests ∧ s.runtime.requestPool.queue P.reference = [])

/-- The step strands no Program. -/
def strandsNone (sys : System) (event : Instant × Action) : Bool :=
  match event.2 with
  | .sync _ pool targets => !sys.state.strands pool targets
  | _ => true

/-! ## Decisions and sections -/

variable {sched : ProgramScheduler} {f f' : Facts}

lemma Demanded.tail (h : Tail sched f f') (hf : Demanded f) : Demanded f' := by
  cases h with
  | retouch => exact hf
  | wake =>
    intro P hP
    rw [hf P hP, ne_eq, ne_eq, wakeFront_eq_nil]
  | @pause P _ _ _ hP =>
    intro Q hQ
    cases hQ
    exact hf P hP
  | @admission _ _ _ _ _ _ _ _ hwait =>
    intro Q hQ
    cases hQ
    exact iff_of_true rfl (.inr fun hnil => hwait (wakeFront_eq_nil.1 hnil))
  | release =>
    intro Q hQ
    cases hQ
  | leave hP =>
    intro Q hQ
    rw [show f.program = some Q from hQ] at hP
    cases hP

lemma Demanded.claim {handle : ProgramRequestHandle} {dispatch : Option ProgramDispatch}
    (h : Claims handle f f' dispatch) (hf : Demanded f) : Demanded f' := by
  cases h with
  | front =>
    intro Q hQ
    cases hQ
    exact iff_of_true rfl (.inl (Nat.succ_pos _))
  | @behind P hP =>
    intro Q hQ
    cases hQ
    exact hf P hP
  | unplaced => exact hf

lemma Demanded.cancel {requestId : Nat} (h : Cancels requestId f f') (hf : Demanded f) :
    Demanded f' := by
  cases h with
  | @waiting _ hrest hne =>
    intro P hP
    exact iff_of_true ((hf P hP).2 (.inr hrest.ne_nil)) (.inr hne)
  | @running P hP hrest hbusy =>
    intro Q hQ
    rw [show f.program = some Q from hQ] at hP
    cases hP
    exact iff_of_true ((hf _ hQ).2 (.inr hrest.ne_nil)) (.inl (Nat.pos_of_ne_zero hbusy))
  | @paused P hP hrest hidle hpaused
  | @active _ _ _ _ _ _ hidle =>
    intro Q hQ
    cases hQ
    refine iff_of_false nofun ?_
    rintro (hpos | hne)
    · exact absurd hidle hpos.ne'
    · exact hne rfl

lemma Demanded.complete (h : Completes f f') (hf : Demanded f) : Demanded f' := by
  have hcounted : ∀ P, f.program = some P → P.inFlightRequests ≠ 0 →
      ((if P.inFlightRequests - 1 = 0 ∧ f.pending.length = 0 then .acting else P.status)
        = ProgramStatus.reasoning ↔ 0 < P.inFlightRequests - 1 ∨ f.pending ≠ []) := by
    intro P hP hbusy
    have hreasoning : P.status = .reasoning := (hf P hP).2 (.inl (Nat.pos_of_ne_zero hbusy))
    simp only [List.length_eq_zero_iff]
    split
    · rename_i hdone
      refine iff_of_false nofun ?_
      rintro (hpos | hne)
      · exact absurd hdone.1 hpos.ne'
      · exact hne hdone.2
    rename_i hdone
    refine iff_of_true hreasoning ?_
    by_cases hidle : P.inFlightRequests - 1 = 0
    · exact .inr fun hnil => hdone ⟨hidle, hnil⟩
    · exact .inl (Nat.pos_of_ne_zero hidle)
  cases h with
  | @runs P _ _ _ hP _ _ hbusy =>
    intro Q hQ
    cases hQ
    exact hcounted P hP hbusy
  | @pauses P _ _ _ hP =>
    intro Q hQ
    cases hQ
    exact hcounted P hP (by omega)

variable {s : ProgramSchedulerState} {targets : TargetSnapshot}

lemma Demanded.arrive (h : Arrives sched p identity request f f') : Demanded f' := by
  intro Q hQ
  refine iff_of_true ?_ (.inr h.pending_ne_nil)
  cases h with
  | known
  | fresh =>
    cases hQ
    rfl

lemma Demanded.retain {p : ProgramRef} {error : Option ScheduleError}
    (h : Retains sched p identity request f f' error) : Demanded f' := by
  cases h with
  | placed h
  | unbound h => exact Demanded.arrive h
  | @queued f1 _ _ t _ h =>
    obtain ⟨hprogram, hpending, -⟩ := Facts.enqueuedOnce_fields sched p.modelPool t f1
    intro Q hQ
    have hQ' : f1.program = some Q := hprogram.symm.trans hQ
    rw [Demanded.arrive h Q hQ']
    exact or_congr Iff.rfl (not_congr (by rw [← hpending]))

/-! ## Synchronization -/

/-- A snapshot that strands nobody leaves a retained request to every Program
that it takes off a target with requests in flight. -/
lemma retained_of_not_strands (hinstalls : s.installs pool targets = true)
    (h : s.strands pool targets = false) (hP : s.runtime.program r = some P)
    (hpool : r.modelPool = pool) (ht : P.placement = some t)
    (hremoved : t ∈ s.removedTargets pool targets.ids) (hbusy : 0 < P.inFlightRequests) :
    s.runtime.requestPool.queue r ≠ [] := by
  intro hnil
  obtain ⟨hlookup, href⟩ := ProgramRuntime.program_eq_some.1 hP
  unfold ProgramSchedulerState.strands at h
  rw [hinstalls, Bool.true_and, List.any_eq_false] at h
  refine h P ((Dict.mem_values_iff _ _).2 ⟨_, hlookup⟩) ?_
  simp [href, hpool, ht, hremoved, hbusy, hnil]

lemma Demanded.sync {pool : ModelPool} {r : ProgramRef} (hsound : Sound sched (s.facts r))
    (hinstalls : s.installs pool targets = true) (hstrands : s.strands pool targets = false)
    (h : Syncs sched r pool (s.removedTargets pool targets.ids) targets.ids (s.facts r) f')
    (hf : Demanded (s.facts r)) : Demanded f' := by
  cases h with
  | other hpool
  | kept => exact hf
  | rebound hpool h =>
    cases h with
    | @paused _ _ replacement =>
      obtain ⟨hprogram, hpending, -⟩ := Facts.requeued_fields sched pool replacement
        ((s.facts r).retargeted (s.removedTargets pool targets.ids) targets.ids)
      intro Q hQ
      rw [hf Q (hprogram.symm.trans hQ)]
      exact or_congr Iff.rfl (not_congr (by rw [hpending]; rfl))
    | @active P d replacement _ _ hP hd hactive hneeds =>
      obtain ⟨-, hpending, -⟩ := Facts.requeued_fields sched pool replacement
        ((s.facts r).retargeted (s.removedTargets pool targets.ids) targets.ids)
      have hlive := hsound.live_of hP hd
      obtain ⟨t, ht⟩ := Option.isSome_iff_exists.1 (hlive.placed.1 hactive)
      have hremoved := hpool ▸ lost_of_needs hlive hneeds ht
      intro Q hQ
      cases hQ
      -- the requests in flight are forgotten, so the retained ones have to carry the status
      show P.status = .reasoning ↔ 0 < 0 ∨ _
      rw [hf P hP, hpending]
      constructor
      · rintro (hbusy | hne)
        · exact .inr (retained_of_not_strands hinstalls hstrands hP hpool ht hremoved hbusy)
        · exact .inr hne
      rintro (hlt | hne)
      · exact absurd hlt (Nat.lt_irrefl 0)
      · exact .inr hne

/-! ## Runs -/

lemma demandRule (h : Consistent sched sys.state) (hguard : strandsNone sys event = true) :
    SectionRule sched sys event.1 event.2 fun _ f => Demanded f where
  permit := by
    intro _ _ _ _ _ _ hf P hP
    rw [hf P hP]
    exact or_congr Iff.rfl (not_congr List.map_eq_nil_iff.symm)
  claim := fun _ _ _ _ _ _ _ _ hclaims hf => hf.claim hclaims
  cancel := fun _ _ _ _ _ _ hcancels hf => hf.cancel hcancels
  complete := fun _ _ _ hcompletes hf => hf.complete hcompletes
  retain := fun _ _ _ _ _ _ _ _ _ _ _ _ hretains _ => .retain hretains
  sync := by
    intro _ pool targets r _ haction hinstalls hsyncs hf
    have hstrands : sys.state.strands pool targets = false := by
      unfold strandsNone at hguard
      rw [haction] at hguard
      exact (Bool.not_eq_true' _).mp hguard
    exact hf.sync (h.sound r) hinstalls hstrands hsyncs

/-- The status of every live Program says whether a request of it is
outstanding, its state says whether it is placed, and one that is paused with
nothing outstanding is released when its retention time is over. -/
structure TracksDemand (sched : ProgramScheduler) (s : ProgramSchedulerState) : Prop where
  status : ∀ r P, s.runtime.program r = some P →
    (P.status = .reasoning ↔ 0 < P.inFlightRequests ∨ s.runtime.requestPool.queue r ≠ [])
  state : ∀ r P, s.runtime.program r = some P →
    (P.state = .active ↔ P.placement.isSome = true)
  release : ∀ r P, s.runtime.program r = some P → P.state = .paused →
    P.inFlightRequests = 0 → s.runtime.requestPool.queue r = [] →
    ∃ pausedAt, ∀ now, pausedAt + sched.config.pausedRetentionTtl ≤ now →
      sched.retentionExpired s (s.runtime.viewOf P) now = true

lemma tracksDemand_of_demanded (h : Consistent sched s) (hdemand : ∀ r, Demanded (s.facts r)) :
    TracksDemand sched s where
  status := fun r P hP => hdemand r P hP
  state := by
    intro r P hP
    obtain ⟨d, -, hlive⟩ := (h.sound r).of_program hP
    exact hlive.placed
  release := by
    intro r P hP hpaused hidle hnil
    obtain ⟨d, hd, hlive⟩ := (h.sound r).of_program hP
    obtain ⟨pausedAt, hpausedAt⟩ := Option.isSome_iff_exists.1 (hlive.pausedAt hpaused)
    have href : P.reference = r := ProgramRuntime.program_reference hP
    have hacting : P.status = .acting := by
      cases hs : P.status with
      | acting => rfl
      | reasoning =>
        rcases (hdemand r P hP).1 hs with hbusy | hne
        · exact absurd hidle hbusy.ne'
        · exact absurd hnil hne
    refine ⟨pausedAt, fun _ hnow => ?_⟩
    have hlookup : s.decisions.lookup P.reference = some d := href ▸ hd
    have hwaiting : (s.runtime.viewOf P).waitingRequests = 0 := by
      show (s.runtime.requestPool.queue P.reference).length = 0
      rw [href, hnil]
      rfl
    unfold ProgramScheduler.retentionExpired
    rw [show (s.runtime.viewOf P).reference = P.reference from rfl, hlookup, Option.any_some,
      hpausedAt, Option.any_some, Bool.and_eq_true, decide_eq_true_iff, decide_eq_true_iff]
    exact ⟨⟨hpaused, hacting, hidle, hwaiting⟩, Nat.le_sub_of_add_le' hnow⟩

/-- While no snapshot strands a Program, every state reached tracks demand. -/
theorem run_tracksDemand (sched : ProgramScheduler) (events : List (Instant × Action))
    (hguard : guardedRun (System.step sched) strandsNone (System.empty sched.config) events
      = true) : TracksDemand sched ((System.empty sched.config).run sched events).state := by
  refine tracksDemand_of_demanded (run_consistent sched events) ?_
  refine run_facts (I := fun _ f => Demanded f) ?_ (fun _ _ h hg => demandRule h hg)
    (fun r f f' htail _ hf => hf.tail htail) hguard
  intro r P hP
  cases hP

/-- A run in which a target is removed under a request in flight while another
request of the Program waits. -/
theorem run_tracksDemand_failover : TracksDemand smallScheduler (smallRun
    [(1, syncOf "m" 0 ["a"]), (2, arrivalOf "m" "p" ["a"] 2), (2, arrivalOf "m" "p" ["a"] 2),
      (3, .claim 0), (4, syncOf "m" 1 ["b"])]).state :=
  run_tracksDemand smallScheduler _ (by decide +kernel)

/-- The run of one request whose target is removed while it is in flight. -/
def strandedRun : System := smallRun
  [(1, syncOf "m" 0 ["a"]), (2, arrivalOf "m" "p" ["a"] 2), (3, .claim 0), (4, syncOf "m" 1 ["b"])]

/-- The Program is left reasoning with nothing outstanding, and no tick releases
it. -/
theorem strandedRun_reasoning : ∃ P, strandedRun.state.runtime.program ⟨"m", "p", 0⟩ = some P ∧
    P.state = .paused ∧ P.status = .reasoning ∧ P.inFlightRequests = 0 ∧
    strandedRun.state.runtime.requestPool.queue ⟨"m", "p", 0⟩ = [] ∧
    ∀ now, smallScheduler.retentionExpired strandedRun.state
      (strandedRun.state.runtime.viewOf P) now = false := by
  obtain ⟨P, hP, hpaused, hreasoning, hidle, hnil⟩ : ∃ P,
      strandedRun.state.runtime.program ⟨"m", "p", 0⟩ = some P ∧ P.state = .paused ∧
      P.status = .reasoning ∧ P.inFlightRequests = 0 ∧
      strandedRun.state.runtime.requestPool.queue ⟨"m", "p", 0⟩ = [] :=
    ⟨⟨⟨"m", "p", 0⟩, .paused, .reasoning, true, none, 2, false, 10, 0⟩, by decide +kernel⟩
  refine ⟨P, hP, hpaused, hreasoning, hidle, hnil, fun _ => ?_⟩
  unfold ProgramScheduler.retentionExpired
  rw [Bool.and_eq_false_iff, decide_eq_false_iff_not]
  refine .inl fun h => ?_
  have hacting : P.status = .acting := h.2.1
  rw [hreasoning] at hacting
  cases hacting

end VllmRouter.ProgramScheduling
