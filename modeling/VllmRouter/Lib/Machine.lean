import Mathlib.Data.List.Basic

/-!
# Guarded runs of a machine

A machine takes a step on every event, so its runs are folds. A guard says of a
step, in the state in which it is taken, whether it is of the kind considered;
`guardedRun` is a run all of whose steps are. What guarded steps keep, guarded
runs keep (`foldl_guarded`). A run can be logged (`runLog`), which makes
statements about what happened along it possible. The processes of a machine are
a list, and a step updates one of them or adds some.
-/

namespace VllmRouter

open List

variable {σ ε β : Type}

/-- Every step of the run from `s` meets the guard. -/
def guardedRun (step : σ → ε → σ) (guard : σ → ε → Bool) : σ → List ε → Bool
  | _, [] => true
  | s, e :: es => guard s e && guardedRun step guard (step s e) es

variable {guard : σ → ε → Bool} {step : σ → ε → σ} {I : σ → Prop}

lemma guardedRun_append (es es' : List ε) : ∀ s, guardedRun step guard s (es ++ es') = true ↔
      guardedRun step guard s es = true ∧ guardedRun step guard (es.foldl step s) es' = true := by
  induction es with
  | nil =>
    intro s
    exact ⟨fun h => ⟨rfl, h⟩, fun h => h.2⟩
  | cons e es ih =>
    intro s
    rw [cons_append, guardedRun, guardedRun, Bool.and_eq_true, Bool.and_eq_true, ih, and_assoc]
    rfl

/-- An invariant of the guarded steps is an invariant of the guarded runs whose events
all satisfy `P`. -/
lemma foldl_guarded_of_forall {P : ε → Prop}
    (hstep : ∀ s e, P e → guard s e = true → I s → I (step s e)) (es : List ε) :
    ∀ s, (∀ e ∈ es, P e) → guardedRun step guard s es = true → I s → I (es.foldl step s) := by
  induction es with
  | nil => exact fun s _ _ hI => hI
  | cons e es ih =>
    intro s hP hguard hI
    rw [guardedRun, Bool.and_eq_true] at hguard
    exact ih (step s e) (fun e' he' => hP e' (mem_cons_of_mem _ he')) hguard.2
      (hstep s e (hP e mem_cons_self) hguard.1 hI)

lemma foldl_guarded (hstep : ∀ s e, guard s e = true → I s → I (step s e)) (es : List ε) :
    ∀ s, guardedRun step guard s es = true → I s → I (es.foldl step s) :=
  fun s => foldl_guarded_of_forall (fun s e _ => hstep s e) es s fun _ _ => trivial

lemma guardedRun_true (es) : ∀ s, guardedRun step (fun _ _ => true) s es = true := by
  induction es with
  | nil => exact fun s => rfl
  | cons e es ih => exact fun s => ih (step s e)

/-- An invariant of every step is an invariant of every run. -/
lemma foldl_invariant (hstep : ∀ s e, I s → I (step s e)) (es : List ε) (s : σ) :
    I s → I (es.foldl step s) :=
  foldl_guarded (fun s e _ => hstep s e) es s (guardedRun_true es s)

/-- When guarded steps keep `I`, `I` entails `P`, and a step that does not meet the
guard breaks `P`, then `P` holds all along a run exactly if the run is guarded. -/
lemma forall_prefix_iff_guarded {P : σ → Prop}
    (hstep : ∀ s e, guard s e = true → I s → I (step s e)) (hI : ∀ s, I s → P s)
    (hbreak : ∀ s e, guard s e = false → I s → ¬ P (step s e)) (es) :
    ∀ s, I s →
      ((∀ es', es' <+: es → P (es'.foldl step s)) ↔ guardedRun step guard s es = true) := by
  intro s hs
  constructor
  · intro hall
    induction es generalizing s with
    | nil => rfl
    | cons e es ih =>
      cases hg : guard s e with
      | false => exact absurd (hall [e] (by simp)) (hbreak s e hg hs)
      | true =>
        have hrest := ih (step s e) (hstep s e hg hs)
          (fun es' h => hall (e :: es') (cons_prefix_cons.2 ⟨rfl, h⟩))
        simp [guardedRun, hg, hrest]
  · rintro hrun es' ⟨rest, rfl⟩
    have hpre := ((guardedRun_append es' rest s).1 hrun).1
    exact hI _ (foldl_guarded hstep es' s hpre hs)

/-- What the steps of a run write, in order. -/
def runLog (step : σ → ε → σ) (out : σ → ε → List β) : σ → List ε → List β
  | _, [] => []
  | s, e :: es => out s e ++ runLog step out (step s e) es

/-- An invariant of the state and of what was written so far, along guarded runs. -/
lemma foldl_guarded_logged {I : σ → List β → Prop}
    (hstep : ∀ s log e, guard s e = true → I s log → I (step s e) (log ++ out s e)) (es : List ε) :
    ∀ s log, guardedRun step guard s es = true → I s log →
      I (es.foldl step s) (log ++ runLog step out s es) := by
  induction es with
  | nil =>
    intro s log _ hI
    rw [runLog, append_nil]
    exact hI
  | cons e es ih =>
    intro s log hguard hI
    rw [guardedRun, Bool.and_eq_true] at hguard
    rw [runLog, ← append_assoc]
    exact ih (step s e) (log ++ out s e) hguard.2 (hstep s log e hguard.1 hI)

/-- An invariant of the state and of what was written so far. -/
lemma foldl_logged {I : σ → List β → Prop}
    (hstep : ∀ s log e, I s log → I (step s e) (log ++ out s e)) (es : List ε) (s : σ) (log)
    (hI : I s log) : I (es.foldl step s) (log ++ runLog step out s es) :=
  foldl_guarded_logged (fun s log e _ h => hstep s log e h) es s log (guardedRun_true es s) hI

/-! ## Lists of processes -/

variable {α : Type}

lemma getElem?_set_cases {l : List α} (h : (l.set i a)[j]? = some b) :
    (j = i ∧ b = a) ∨ (j ≠ i ∧ l[j]? = some b) := by
  by_cases hij : i = j
  · subst hij
    rw [getElem?_set_self'] at h
    obtain ⟨-, -, rfl⟩ := Option.map_eq_some_iff.1 h
    exact .inl ⟨rfl, rfl⟩
  · rw [getElem?_set_ne hij] at h
    exact .inr ⟨Ne.symm hij, h⟩

lemma forall_mem_set {P : α → Prop} {l : List α} (h : ∀ b ∈ l, P b) (ha : P a) :
    ∀ b ∈ l.set i a, P b := by
  intro b hb
  rcases mem_or_eq_of_mem_set hb with hold | rfl
  · exact h b hold
  · exact ha

lemma mem_set_of_mem_of_ne {l : List α} (hc : c ∈ l) (hi : l[i]? = some a) (hne : c ≠ a) :
    c ∈ l.set i b := by
  obtain ⟨j, hj⟩ := mem_iff_getElem?.1 hc
  refine mem_iff_getElem?.2 ⟨j, ?_⟩
  rw [getElem?_set_ne, hj]
  rintro rfl
  rw [hi] at hj
  exact hne (Option.some.inj hj).symm

lemma getElem?_append_cases {l l' : List α} (h : (l ++ l')[j]? = some b) :
    l[j]? = some b ∨ ∃ n, j = l.length + n ∧ l'[n]? = some b := by
  by_cases hj : j < l.length
  · rw [getElem?_append_left hj] at h
    exact .inl h
  have hle : l.length ≤ j := Nat.not_lt.1 hj
  rw [getElem?_append_right hle] at h
  exact .inr ⟨j - l.length, by omega, h⟩

end VllmRouter
