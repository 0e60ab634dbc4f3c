import Mathlib.Data.List.Basic

/-!
# Loops that run until their body refuses

`repeatWhile next` applies `next` until it returns nothing. Fuel bounds the
number of rounds, and a measure that every round decreases shows that the bound
is never met: the loop then ends because `next` refuses (`repeatWhile_stops`), and
is the loop without a bound (`ends_repeatWhile`). `heads` are the states in which
`next` is asked, in order.
-/

namespace VllmRouter

variable {σ : Type}

def repeatWhile (next : σ → Option σ) : Nat → σ → σ
  | 0, s => s
  | fuel + 1, s =>
    match next s with
    | none => s
    | some s' => repeatWhile next fuel s'

/-- The states in which the loop asks `next`. -/
def heads (next : σ → Option σ) : Nat → σ → List σ
  | 0, _ => []
  | fuel + 1, s =>
    s :: match next s with
      | none => []
      | some s' => heads next fuel s'

variable {next : σ → Option σ} {I : σ → Prop}

/-- An invariant of the body holds whenever the body is asked. -/
lemma heads_invariant (hnext : ∀ s s', I s → next s = some s' → I s') :
    ∀ fuel s, I s → ∀ head ∈ heads next fuel s, I head := by
  intro fuel
  induction fuel with
  | zero =>
    intro _ _ _ hhead
    cases hhead
  | succ _ ih =>
    intro s hI head hhead
    rcases List.mem_cons.1 hhead with rfl | hrest
    · exact hI
    cases h : next s with
    | none =>
      rw [h] at hrest
      cases hrest
    | some s' =>
      rw [h] at hrest
      exact ih s' (hnext s s' hI h) head hrest

lemma repeatWhile_invariant (hnext : ∀ s s', I s → next s = some s' → I s') :
    ∀ fuel s, I s → I (repeatWhile next fuel s) := by
  intro fuel
  induction fuel with
  | zero => exact fun s hI => hI
  | succ _ ih =>
    intro s hI
    rw [repeatWhile]
    cases h : next s with
    | none => exact hI
    | some s' => exact ih s' (hnext s s' hI h)

/-- With more fuel than the measure the loop ends because the body refuses. -/
lemma repeatWhile_stops {size : σ → Nat} (hnext : ∀ s s', I s → next s = some s' → I s')
    (hsize : ∀ s s', I s → next s = some s' → size s' < size s) :
    ∀ fuel s, I s → size s < fuel → next (repeatWhile next fuel s) = none := by
  intro fuel
  induction fuel with
  | zero =>
    intro _ _ _
    omega
  | succ _ ih =>
    intro s hI _
    rw [repeatWhile]
    cases h : next s with
    | none => exact h
    | some s' =>
      have hless := hsize s s' hI h
      exact ih s' (hnext s s' hI h) (by omega)

/-! ## Loops without a bound -/

/-- The loop, run without a bound, ends. -/
inductive Ends (next : σ → Option σ) : σ → σ → Prop
  | stop {s : σ} (h : next s = none) : Ends next s s
  | more {s s₁ s' : σ} (h : next s = some s₁) (hrest : Ends next s₁ s') : Ends next s s'

/-- A bounded loop that ended because its body refused is the unbounded one. -/
lemma ends_repeatWhile : ∀ fuel s, next (repeatWhile next fuel s) = none →
    Ends next s (repeatWhile next fuel s) := by
  intro fuel
  induction fuel with
  | zero => exact fun s hstop => .stop hstop
  | succ _ ih =>
    intro s hstop
    rw [repeatWhile] at hstop ⊢
    cases h : next s with
    | none => exact .stop h
    | some s' =>
      rw [h] at hstop
      exact .more h (ih s' hstop)

/-- One run of `rel` after the other. -/
inductive Passes {α : Type} (rel : α → σ → σ → Prop) : List α → σ → σ → Prop
  | nil {s : σ} : Passes rel [] s s
  | cons {a : α} {l : List α} {s s₁ s' : σ} (h : rel a s s₁) (hrest : Passes rel l s₁ s') :
      Passes rel (a :: l) s s'

lemma passes_foldl {α : Type} {rel : α → σ → σ → Prop} {f : σ → α → σ}
    (hrel : ∀ s a, I s → rel a s (f s a)) (hinv : ∀ s a, I s → I (f s a)) :
    ∀ l s, I s → Passes rel l s (l.foldl f s) := by
  intro l
  induction l with
  | nil => exact fun s _ => .nil
  | cons a l ih => exact fun s hI => .cons (hrel s a hI) (ih (f s a) (hinv s a hI))

end VllmRouter
