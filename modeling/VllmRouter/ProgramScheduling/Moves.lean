import VllmRouter.ProgramScheduling.Decisions

/-!
# What each lock section does to one Program

`Tail` restates the transitions of the decision procedures for the facts of a
single Program. A lock section is a change of its own (`Retains`, `Claims`,
`Cancels`, `Completes`, `Fails over`) to the Program it is about, followed by
decisions; to every other Program it is decisions only. The theorems of this
module say so for each section, and an invariant of the facts of a Program is
then a statement about these few relations.
-/

namespace VllmRouter.ProgramScheduling

open ProgramSchedulerState ProgramRuntime
open ProgramScheduler (pausedFor admitted)

/-! ## Decisions -/

/-- What one decision can do to the facts of a Program. -/
inductive Tail (sched : ProgramScheduler) : Facts → Facts → Prop
  | retouch {f : Facts} {d : ProgramDecisionState} (marked : Bool) (sampled rounds : Nat)
      (hd : f.decision = some d) :
      Tail sched f { f with decision := some { d with
        pauseWhenIdle := marked
        ttlPauseSampledSegmentRounds := sampled
        roundsSinceTtlPause := rounds } }
  | wake (f : Facts) : Tail sched f { f with pending := wakeFront f.pending }
  | pause {f : Facts} {P : RuntimeProgram} {d : ProgramDecisionState}
      (reason : ProgramPauseReason) (now : Instant) (hP : f.program = some P)
      (hd : f.decision = some d) (hactive : P.state = .active) (hacting : P.status = .acting)
      (hidle : P.inFlightRequests = 0) :
      Tail sched f { f with program := some P.off, decision := some (pausedFor d reason now) }
  | admission {f : Facts} {P : RuntimeProgram} {d : ProgramDecisionState} {t : TargetId}
      (epoch : Nat) (now : Instant) (hP : f.program = some P) (hd : f.decision = some d)
      (hpaused : P.state = .paused) (hwait : f.pending ≠ [])
      (ht : d.lastTarget = some t ∨ sched.config.globalQueue = true ∧ t ∈ f.home) :
      Tail sched f { f.unqueued with
        program := some (P.on t epoch)
        pending := wakeFront f.pending
        decision := some (admitted d t now) }
  | release {f : Facts} {P : RuntimeProgram} (hP : f.program = some P)
      (hidle : P.inFlightRequests = 0) (hwait : f.pending = []) :
      Tail sched f { f.unqueued with program := none, decision := none }
  | leave {f : Facts} (hP : f.program = none) : Tail sched f f.unqueued

/-- What a sequence of decisions can do to the facts of a Program. -/
def Tails (sched : ProgramScheduler) : Facts → Facts → Prop := Relation.ReflTransGen (Tail sched)

variable {sched : ProgramScheduler}

lemma Tails.refl (f) : Tails sched f f := Relation.ReflTransGen.refl

lemma Tails.trans (h1 : Tails sched f1 f2) (h2 : Tails sched f2 f3) : Tails sched f1 f3 :=
  Relation.ReflTransGen.trans h1 h2

lemma Tail.tails (h : Tail sched f f') : Tails sched f f' := Relation.ReflTransGen.single h

/-- An invariant of every decision is an invariant of a sequence of them. -/
lemma Tails.keeps {I : Facts → Prop} (hI : ∀ f f', Tail sched f f' → I f → I f')
    (h : Tails sched f f') (hf : I f) : I f' := by
  induction h with
  | refl => exact hf
  | tail _ hlast ih => exact hI _ _ hlast ih

variable {d : ProgramDecisionState} {now : Instant} {p : ProgramRef}

namespace ProgramScheduler

variable {self : ProgramScheduler}

variable {s s' : ProgramSchedulerState}

/-- A pause, for the facts of every Program. -/
lemma facts_pauseIdle (hP : s.runtime.program p = some P) (hd : s.decisions.lookup p = some d)
    (h : self.pauseIdle s p reason now = some s') (r) : s'.facts r = if r = p
      then { s.facts r with program := some P.off, decision := some (pausedFor d reason now) }
      else s.facts r := by
  obtain ⟨Q, e, t, hQ, -, -, -, he, rfl⟩ := pauseIdle_eq_some h
  rw [hP] at hQ
  cases hQ
  have href : P.off.reference = p := (program_reference hP : P.reference = p)
  rw [facts_adjustUsage, facts_modifyDecision, facts_runtime,
    program_setProgram_live (q := P) (href.symm ▸ hP), href]
  by_cases hr : r = p
  · subst hr
    have hdec : (s.facts r).decision = some d := hd
    simp only [hdec]
    rfl
  · simp only [if_neg hr]
    rfl

/-- An admission, for the facts of every Program. -/
lemma facts_commitAdmission (hP : s.runtime.program p = some P)
    (hd : s.decisions.lookup p = some d) (h : self.commitAdmission s p t now = some s') (r) :
    s'.facts r = if r = p
      then { (s.facts r).unqueued with
        program := some (P.on t (s.runtime.nextPlacementEpoch + 1))
        pending := wakeFront (s.facts r).pending
        decision := some (admitted d t now) }
      else s.facts r := by
  obtain ⟨Q, e, rt, hQ, -, -, he, hrt, rfl⟩ := commitAdmission_eq_some h
  rw [hP] at hQ
  cases hQ
  have href : (P.on t (s.runtime.nextPlacementEpoch + 1)).reference = p :=
    (program_reference hP : P.reference = p)
  have hprogram : ∀ r, (rt.notifyFront p).program r = if r = p
      then some (P.on t (s.runtime.nextPlacementEpoch + 1)) else s.runtime.program r := by
    intro r
    have := program_setProgram_live (q := P) (href.symm ▸ hP) r
    rw [href] at this
    rw [← this, hrt]
    rfl
  have hqueue : (rt.notifyFront p).requestPool.queue r = if r = p
      then wakeFront (s.runtime.requestPool.queue p) else s.runtime.requestPool.queue r := by
    have hpool : rt.requestPool = s.runtime.requestPool := by rw [hrt]; rfl
    show (rt.requestPool.notifyFront p).queue r = _
    rw [RequestPool.queue_notifyFront, hpool]
  rw [facts_runtime, facts_dequeue, facts_adjustUsage, facts_modifyDecision, facts_runtime,
    hprogram, hqueue]
  by_cases hr : r = p
  · subst hr
    have hdec : (s.facts r).decision = some d := hd
    simp only [hdec]
    rfl
  · simp only [if_neg hr]
    rfl

/-- A release, for the facts of every Program. -/
lemma facts_releaseProgram (hrt : s.runtime.releaseIdle p now = some rt) (r) :
    (self.releaseProgram s p now).facts r = if r = p
      then { (s.facts r).unqueued with program := none, decision := none } else s.facts r := by
  obtain ⟨-, -, hprogram, hpool, -⟩ := releaseIdle_eq_some hrt
  have hdequeue := facts_dequeue s p r
  rw [releaseProgram_live hrt]
  show ({ (s.dequeue p).facts r with
    program := rt.program r
    pending := rt.requestPool.queue r
    decision := (s.decisions.erase p).lookup r } : Facts) = _
  rw [hdequeue, hprogram, hpool, Dict.lookup_erase_eq]
  split
  · rfl
  · rfl

/-- One settling decision, for the facts of every Program. -/
lemma Settle.tail (h : self.Settle s s') (r) :
    Tails self (s.facts r) (s'.facts r) := by
  cases h with
  | prune now retention
  | sample t f
  | report => exact .refl _
  | retouch p hf =>
    rw [facts_modifyDecision]
    split
    · cases hd : (s.facts r).decision with
      | none =>
        rw [Option.map_none, ← hd]
        exact .refl _
      | some d =>
        obtain ⟨marked, sampled, rounds, hfd⟩ := hf d
        rw [Option.map_some, hfd]
        exact (Tail.retouch marked sampled rounds hd).tails
    · exact .refl _
  | wake p =>
    show Tails self (s.facts r) { s.facts r with
      pending := (s.runtime.requestPool.notifyFront p).queue r }
    rw [RequestPool.queue_notifyFront]
    split
    · rename_i hr
      rw [← hr]
      exact (Tail.wake (s.facts r)).tails
    · exact .refl _
  | @pause _ p P reason now hP hacting h =>
    obtain ⟨Q, d, t, hQ, hactive, hidle, -, hd, -⟩ := pauseIdle_eq_some h
    rw [hP] at hQ
    cases hQ
    rw [facts_pauseIdle hP hd h]
    split
    · rename_i hr
      subst hr
      exact (Tail.pause reason now hP hd hactive hacting hidle).tails
    · exact .refl _
  | @release p now hidle hwait =>
    cases hrt : s.runtime.releaseIdle p now with
    | none =>
      rw [releaseProgram_refused hrt, facts_dequeue]
      split
      · rename_i hr
        subst hr
        cases hP : s.runtime.program r with
        | none => exact (Tail.leave hP).tails
        | some P =>
          -- a live Program with nothing outstanding is not refused
          obtain ⟨rt, hrt'⟩ := releaseIdle_isSome now hP (hidle P hP) hwait
          rw [hrt] at hrt'
          cases hrt'
      · exact .refl _
    | some =>
      obtain ⟨P, hP, -⟩ := releaseIdle_eq_some hrt
      rw [facts_releaseProgram hrt]
      split
      · rename_i hr
        subst hr
        exact (Tail.release hP (hidle P hP) hwait).tails
      · exact .refl _

/-- One decision, for the facts of every Program. -/
lemma Decide.tail (h : self.Decide s s') (r) :
    Tails self (s.facts r) (s'.facts r) := by
  cases h with
  | settle h => exact h.tail r
  | @admission p t now ht h =>
    obtain ⟨d, hd, ht⟩ := ht
    obtain ⟨_, _, _, hP, hpaused, hwait, _, -, -⟩ := commitAdmission_eq_some h
    rw [facts_commitAdmission hP hd h]
    split
    · rename_i hr
      subst hr
      exact (Tail.admission _ now hP hd hpaused hwait ht).tails
    · exact .refl _

lemma Decides.tails (h : self.Decides s s') (r) :
    Tails self (s.facts r) (s'.facts r) := by
  induction h with
  | refl => exact .refl _
  | tail _ hlast ih => exact ih.trans (hlast.tail r)

end ProgramScheduler

end VllmRouter.ProgramScheduling
