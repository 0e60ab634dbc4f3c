import Mathlib.Data.List.Infix
import Mathlib.Data.Nat.Find

/-!
# Searching a list in a list

`findSub p t` is the first position at which `p` occurs in `t`. A search can be
cut short at the front when no occurrence starts there, and at the end once an
occurrence has been seen.
-/

namespace VllmRouter

open List

variable {α : Type} [DecidableEq α]

def findSub (p : List α) : List α → Option Nat
  | [] => if p.isPrefixOf [] then some 0 else none
  | a :: t => if p.isPrefixOf (a :: t) then some 0 else (findSub p t).map (· + 1)

lemma findSub_eq_some_iff {p t : List α} :
    findSub p t = some i ↔ p <+: t.drop i ∧ ∀ j < i, ¬ p <+: t.drop j := by
  induction t generalizing i with
  | nil =>
    by_cases hp : p = []
    · cases i with
      | zero => simp [findSub, hp]
      | succ i =>
        subst hp
        exact iff_of_false (by simp [findSub]) fun h => h.2 0 (Nat.succ_pos i) nil_prefix
    · simp [findSub, hp]
  | cons a t ih =>
    by_cases hp : p <+: a :: t
    · cases i with
      | zero => simp [findSub, hp]
      | succ i => simpa [findSub, hp] using fun _ => ⟨0, by simp, by simpa using hp⟩
    cases i with
    | zero => simp [findSub, hp]
    | succ i =>
      rw [Nat.forall_lt_succ_left]
      simp [findSub, hp, ih]

omit [DecidableEq α] in
lemma infix_iff_drop : p <:+: t ↔ ∃ i, p <+: t.drop i := by
  constructor
  · rintro ⟨s, e, rfl⟩
    exact ⟨s.length, by simp⟩
  · rintro ⟨i, hi⟩
    exact hi.isInfix.trans (drop_suffix i t).isInfix

lemma findSub_isSome_iff {p t : List α} : (findSub p t).isSome ↔ p <:+: t := by
  rw [infix_iff_drop, Option.isSome_iff_exists]
  constructor
  · rintro ⟨i, hi⟩
    exact ⟨i, (findSub_eq_some_iff.1 hi).1⟩
  · intro h
    exact ⟨Nat.find h, findSub_eq_some_iff.2 ⟨Nat.find_spec h, fun j hj => Nat.find_min h hj⟩⟩

/-- Nothing is lost by searching only behind `e` when no occurrence starts in it. -/
lemma findSub_append {p e t : List α} (h : ∀ i, p <+: (e ++ t).drop i → e.length ≤ i) :
    findSub p (e ++ t) = (findSub p t).map (e.length + ·) := by
  ext i
  simp only [Option.map_eq_some_iff, findSub_eq_some_iff]
  constructor
  · rintro ⟨hocc, hmin⟩
    have hi := h i hocc
    refine ⟨i - e.length, ⟨?_, fun j hj hp => ?_⟩, by omega⟩
    · rwa [drop_append, drop_eq_nil_of_le hi, nil_append] at hocc
    · exact hmin (e.length + j) (by omega) (by simpa using hp)
  rintro ⟨k, ⟨hocc, hmin⟩, rfl⟩
  refine ⟨by simpa using hocc, fun j hj hp => ?_⟩
  have hle := h j hp
  refine hmin (j - e.length) (by omega) ?_
  rwa [drop_append, drop_eq_nil_of_le hle, nil_append] at hp

/-- What follows an occurrence does not change where the first one is. -/
lemma findSub_extends {p t t' : List α} (hp : p <:+: t) (ht : t <+: t') :
    findSub p t' = findSub p t := by
  obtain ⟨i, hi⟩ := Option.isSome_iff_exists.1 (findSub_isSome_iff.2 hp)
  rw [hi]
  obtain ⟨hocc, hmin⟩ := findSub_eq_some_iff.1 hi
  refine findSub_eq_some_iff.2 ⟨hocc.trans (ht.drop i), fun j hj hj' => hmin j hj ?_⟩
  -- an earlier occurrence would end before the one at `i`, hence inside `t`
  refine prefix_of_prefix_length_le hj' (ht.drop j) ?_
  have := hocc.length_le
  simp only [length_drop] at this ⊢
  omega

omit [DecidableEq α] in
lemma findSome?_eq_map {β γ : Type} {f : α → Option β} {g : α → Option γ} {h : β → γ} {l : List α}
    (hfg : ∀ a ∈ l, g a = (f a).map h) : l.findSome? g = (l.findSome? f).map h := by
  induction l with
  | nil => rfl
  | cons a l ih =>
    have ih := ih fun b hb => hfg b (mem_cons_of_mem _ hb)
    simp only [findSome?_cons, hfg a mem_cons_self, ih]
    cases f a <;> rfl

end VllmRouter
