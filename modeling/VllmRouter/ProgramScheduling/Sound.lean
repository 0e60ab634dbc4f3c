import VllmRouter.ProgramScheduling.Moves

/-!
# The facts of a Program fit together

`Sound` is what the tables of the scheduler say consistently about a Program in
every reachable state, whatever the targets do:

- a Program that is not live has no decision, no retained request and no place
  in a queue;
- a live Program has a decision, is active exactly when it is placed, is placed
  where its decision says, is bound inside its pool, and is queued only while
  it is paused with a retained request.

It is kept by every decision here, and by every lock section in `Steps`.
-/

namespace VllmRouter.ProgramScheduling

/-- The binding policy finds a target whenever the pool has one. -/
def ProgramScheduler.CanBind (self : ProgramScheduler) : Prop :=
  self.config.bindingStrategy = .consistentHash → 0 < self.config.hashVirtualNodes

instance (self : ProgramScheduler) : Decidable self.CanBind :=
  inferInstanceAs (Decidable (_ → _))

/-- The facts of a live Program. -/
structure Live (sched : ProgramScheduler) (f : Facts) (P : RuntimeProgram)
    (d : ProgramDecisionState) : Prop where
  placed : P.state = .active ↔ P.placement.isSome = true
  acting : P.status = .acting → P.inFlightRequests = 0 ∧ f.pending = []
  paused : P.state = .paused → P.inFlightRequests = 0
  last : P.state = .active → d.lastTarget = P.placement
  home : ∀ t, d.lastTarget = some t → t ∈ f.home
  bound : sched.CanBind → f.home ≠ [] → d.lastTarget.isSome = true
  pausedAt : P.state = .paused → d.pausedAt.isSome = true
  clear : P.state = .active → d.queuedAt = none ∧ d.forceResumeDeadline = none
  queued : f.Queued → P.state = .paused ∧ f.pending ≠ []

/-- The facts of a Program are consistent. -/
inductive Sound (self : ProgramScheduler) (f : Facts) : Prop
  | dead (hP : f.program = none) (hd : f.decision = none) (hpending : f.pending = [])
      (hqueued : ¬ f.Queued)
  | live {P : RuntimeProgram} {d : ProgramDecisionState} (hP : f.program = some P)
      (hd : f.decision = some d) (h : Live self f P d)

namespace Sound

variable {self : ProgramScheduler} {f : Facts}

lemma decision_isSome (h : Sound self f) : f.decision.isSome = f.program.isSome := by
  cases h with
  | dead hP hd
  | live hP hd => rw [hP, hd]; rfl

lemma of_program (h : Sound self f) (hP : f.program = some P) :
    ∃ d, f.decision = some d ∧ Live self f P d := by
  cases h with
  | dead hP' =>
    rw [hP'] at hP
    cases hP
  | live hP' hd h =>
    rw [hP'] at hP
    cases hP
    exact ⟨_, hd, h⟩

lemma live_of (h : Sound self f) (hP : f.program = some P) (hd : f.decision = some d) :
    Live self f P d := by
  obtain ⟨e, he, hlive⟩ := h.of_program hP
  cases hd.symm.trans he
  exact hlive

lemma of_pending (h : Sound self f) (hpending : f.pending ≠ []) :
    ∃ P d, f.program = some P ∧ f.decision = some d ∧ Live self f P d := by
  cases h with
  | dead _ _ hnil => exact absurd hnil hpending
  | live hP hd h => exact ⟨_, _, hP, hd, h⟩

end Sound

/-! ## Decisions -/

/-- Every decision keeps the facts of a Program consistent. -/
lemma Tail.sound (htail : Tail self f f') (hf : Sound self f) : Sound self f' := by
  cases htail with
  | retouch _ _ _ hd =>
    cases hf with
    | dead _ hd' =>
      rw [hd'] at hd
      cases hd
    | live hP hd' h =>
      rw [hd'] at hd
      cases hd
      exact .live hP rfl ⟨h.placed, h.acting, h.paused, h.last, h.home, h.bound, h.pausedAt,
        h.clear, h.queued⟩
  | wake =>
    cases hf with
    | dead hP hd hpending hqueued =>
      refine .dead hP hd ?_ hqueued
      show wakeFront f.pending = []
      rw [hpending]
      rfl
    | live hP hd h =>
      refine .live hP hd ⟨h.placed, fun hs => ⟨(h.acting hs).1, ?_⟩, h.paused, h.last, h.home,
        h.bound, h.pausedAt, h.clear, fun hq => ⟨(h.queued hq).1, ?_⟩⟩
      · exact wakeFront_eq_nil.2 (h.acting hs).2
      · exact fun hnil => (h.queued hq).2 (wakeFront_eq_nil.1 hnil)
  | @pause _ _ _ _ hP hd hactive _ hidle =>
    have h := hf.live_of hP hd
    refine .live rfl rfl ⟨?_, h.acting, fun _ => hidle, ?_, h.home, h.bound, fun _ => rfl, ?_, ?_⟩
    · exact ⟨nofun, nofun⟩
    · exact nofun
    · exact nofun
    intro hq
    have hpaused := (h.queued hq).1
    rw [hactive] at hpaused
    cases hpaused
  | @admission _ _ t _ _ hP hd _ _ ht =>
    have h := hf.live_of hP hd
    refine .live rfl rfl ⟨?_, ?_, ?_, fun _ => rfl, ?_, fun _ _ => rfl, ?_, fun _ => ⟨rfl, rfl⟩, ?_⟩
    · exact ⟨fun _ => rfl, fun _ => rfl⟩
    · exact nofun
    · exact nofun
    · intro t' ht'
      cases ht'
      exact ht.elim (h.home t) And.right
    · exact nofun
    · exact fun hq => absurd hq (Facts.not_queued_unqueued f)
  | release _ _ hwait => exact .dead rfl rfl hwait (Facts.not_queued_unqueued f)
  | leave hP =>
    cases hf with
    | dead _ hd hpending => exact .dead hP hd hpending (Facts.not_queued_unqueued f)
    | live hP' =>
      rw [hP'] at hP
      cases hP

lemma Tails.sound (h : Tails self f f') (hf : Sound self f) : Sound self f' :=
  h.keeps (fun _ _ htail hf => htail.sound hf) hf

end VllmRouter.ProgramScheduling
