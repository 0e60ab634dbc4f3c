import Mathlib.Algebra.BigOperators.Group.List.Basic
import Mathlib.Data.List.Sort

/-!
# Sorting and selecting by a comparison

A comparison returns an `Ordering`. Sorting is stable; of equal elements the
first minimum and the last maximum are selected. The selected element and the
elements of a sorted list come from the list, which is all that most users
need to know; for the others `first_of_findSome?_sortBy` says what is found first.
-/

namespace VllmRouter

open List

variable {α : Type}

variable (cmp : α → α → Ordering)

/-- Stable sort. -/
def sortBy (l : List α) : List α :=
  l.insertionSort fun a b => cmp a b ≠ .gt

/-- The first of the smallest elements. -/
def minBy? : List α → Option α
  | [] => none
  | x :: xs => some (xs.foldl (fun best y => if cmp y best = .lt then y else best) x)

/-- The last of the greatest elements. -/
def maxBy? : List α → Option α
  | [] => none
  | x :: xs => some (xs.foldl (fun best y => if cmp y best = .lt then best else y) x)

lemma perm_sortBy (l) : (sortBy cmp l).Perm l := perm_insertionSort _ l

variable {cmp : α → α → Ordering} {l : List α}

lemma mem_sortBy : a ∈ sortBy cmp l ↔ a ∈ l := mem_insertionSort _

lemma pairwise_sortBy (cmp : α → α → Ordering) [Std.TransCmp cmp] (l) :
    (sortBy cmp l).Pairwise fun a b => cmp a b ≠ .gt := by
  have htrans : IsTrans α fun a b => cmp a b ≠ .gt := by
    refine ⟨fun a b c hab hbc => ?_⟩
    exact Ordering.ne_gt_iff_isLE.2 (Std.TransCmp.isLE_trans (Ordering.ne_gt_iff_isLE.1 hab)
      (Ordering.ne_gt_iff_isLE.1 hbc))
  have htotal : Std.Total fun a b => cmp a b ≠ .gt := by
    refine ⟨fun a b => ?_⟩
    have hswap : cmp b a = (cmp a b).swap := Std.OrientedCmp.eq_swap
    rw [hswap]
    cases cmp a b with
    | lt
    | eq => exact .inl (by decide)
    | gt => exact .inr (by decide)
  exact pairwise_insertionSort _ l

/-- What is found first in a sorted list is not above anything else that would
have been found. -/
lemma first_of_findSome?_sortBy {β : Type} [Std.TransCmp cmp] {f : α → Option β} {b : β}
    (h : (sortBy cmp l).findSome? f = some b) :
    ∃ a ∈ l, f a = some b ∧ ∀ a' ∈ l, (f a').isSome = true → cmp a a' ≠ .gt := by
  obtain ⟨before, a, after, hsplit, hfound, hnone⟩ := findSome?_eq_some_iff.1 h
  have hmem : a ∈ sortBy cmp l := by
    rw [hsplit]
    exact mem_append_right _ mem_cons_self
  refine ⟨a, mem_sortBy.1 hmem, hfound, fun a' ha' hsome => ?_⟩
  have hsorted := pairwise_sortBy cmp l
  rw [hsplit, pairwise_append, pairwise_cons] at hsorted
  have hmem' : a' ∈ before ++ a :: after := hsplit ▸ mem_sortBy.2 ha'
  rcases mem_append.1 hmem' with hbefore | hafter
  · rw [hnone a' hbefore] at hsome
    cases hsome
  rcases mem_cons.1 hafter with rfl | hlater
  · have hself : cmp a' a' = .eq := Std.ReflCmp.compare_self
    rw [hself]
    decide
  · exact hsorted.2.1.1 a' hlater

/-- A fold that keeps its accumulator or takes the element stays in the list. -/
lemma foldl_select_mem (hpick : ∀ a b, pick a b = a ∨ pick a b = b) :
    ∀ xs x, xs.foldl pick x ∈ x :: xs := by
  intro xs x
  refine foldlRecOn (motive := (· ∈ x :: xs)) xs pick mem_cons_self ?_
  intro a ha b hb
  rcases hpick a b with hp | hp
  · rwa [hp]
  · rw [hp]
    exact mem_cons_of_mem _ hb

lemma minBy?_mem (h : minBy? cmp l = some a) : a ∈ l := by
  cases l with
  | nil => cases h
  | cons x xs =>
    cases h
    refine foldl_select_mem (fun a b => ?_) xs x
    split
    · exact .inr rfl
    · exact .inl rfl

lemma maxBy?_mem (h : maxBy? cmp l = some a) : a ∈ l := by
  cases l with
  | nil => cases h
  | cons x xs =>
    cases h
    refine foldl_select_mem (fun a b => ?_) xs x
    split
    · exact .inl rfl
    · exact .inr rfl

/-! ## Partial functions over a list -/

/-- What a partial function keeps of a list, seen through labels that it
preserves. -/
lemma map_filterMap_sublist {α β γ : Type} {f : α → Option β} {g : β → γ} {h : α → γ}
    (hf : ∀ a b, f a = some b → g b = h a) (l : List α) :
    ((l.filterMap f).map g).Sublist (l.map h) := by
  induction l with
  | nil => exact .slnil
  | cons a l ih =>
    rw [filterMap_cons]
    cases hfa : f a with
    | none => exact ih.cons _
    | some b =>
      rw [map_cons, hf a b hfa]
      exact ih.cons_cons _

/-- The sum of what a partial function keeps of a list. -/
lemma sum_filterMap {α M : Type} [AddCommMonoid M] (f : α → Option M) (l : List α) :
    (l.filterMap f).sum = (l.map fun a => (f a).getD 0).sum := by
  induction l with
  | nil => rfl
  | cons a l ih =>
    rw [filterMap_cons, map_cons, sum_cons, ← ih]
    cases f a with
    | none => exact (zero_add _).symm
    | some => exact sum_cons

end VllmRouter
