import Mathlib.Data.List.Basic
import Mathlib.Logic.Relation

/-!
# Invariant rules for folds

- A loop over a list whose body may fail is `List.foldlM` in `Option`. When the
  body returns from every state the invariant allows, the loop returns, and the
  invariant holds of all elements at the end (`foldlM_rule`). A loop that did
  return keeps what its body keeps (`foldlM_invariant`).
- A loop whose body takes steps of a relation takes steps of the relation, with
  an invariant that may depend on the elements still to come (`foldl_steps`).
-/

namespace VllmRouter

variable {α β : Type}

/-- `P done b` holds after the elements `done`; every iteration returns and
extends it by one element. -/
lemma foldlM_rule {P : List α → β → Prop}
    (hstep : ∀ done a rest b, l = done ++ a :: rest → P done b →
      ∃ b', f b a = some b' ∧ P (done ++ [a]) b') :
    ∀ rest done b, l = done ++ rest → P done b →
      ∃ b', rest.foldlM f b = some b' ∧ P l b' := by
  intro rest
  induction rest with
  | nil =>
    intro _ b hl hP
    rw [List.append_nil] at hl
    exact ⟨b, rfl, hl ▸ hP⟩
  | cons a rest ih =>
    intro done b hl hP
    obtain ⟨b1, hf, hP1⟩ := hstep done a rest b hl hP
    obtain ⟨b', hrun, hP'⟩ := ih (done ++ [a]) b1 (by rw [hl, List.append_assoc]; rfl) hP1
    refine ⟨b', ?_, hP'⟩
    rw [List.foldlM_cons, hf]
    exact hrun

/-- What every iteration that returns keeps, a loop that returns keeps. -/
lemma foldlM_invariant {I : β → Prop} (hstep : ∀ b a b', f b a = some b' → I b → I b')
    (l : List α) :
    ∀ b b', l.foldlM f b = some b' → I b → I b' := by
  induction l with
  | nil =>
    intro b b' hrun hI
    obtain rfl := Option.some.inj hrun
    exact hI
  | cons a _ ih =>
    intro b b' hrun hI
    rw [List.foldlM_cons, Option.bind_eq_bind, Option.bind_eq_some_iff] at hrun
    obtain ⟨b1, hf, hrest⟩ := hrun
    exact ih b1 b' hrest (hstep b a b1 hf hI)

/-- Every iteration takes steps of `R` and keeps `Q`. -/
lemma foldl_steps {Q : β → Prop} {l : List α}
    (hstep : ∀ b a, a ∈ l → Q b → Relation.ReflTransGen R b (f b a) ∧ Q (f b a)) :
    ∀ b, Q b → Relation.ReflTransGen R b (l.foldl f b) ∧ Q (l.foldl f b) := by
  intro b hQ
  refine List.foldlRecOn (motive := fun b' => Relation.ReflTransGen R b b' ∧ Q b') l f ⟨.refl, hQ⟩ ?_
  rintro b' ⟨hsteps, hQ'⟩ a ha
  obtain ⟨hstep, hQ''⟩ := hstep b' a ha hQ'
  exact ⟨hsteps.trans hstep, hQ''⟩

end VllmRouter
