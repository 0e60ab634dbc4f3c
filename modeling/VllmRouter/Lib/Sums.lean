import Mathlib.Algebra.BigOperators.Group.List.Basic
import Mathlib.Algebra.GroupWithZero.Nat

/-!
# Sums over a list that is updated in place

A total over the elements of a list, and what replacing one element does to it.
-/

namespace VllmRouter

variable {α M : Type} [AddCommMonoid M]

lemma sum_map_set (f : α → M) {b : α} : ∀ {l : List α} {i : Nat} {a : α}, l[i]? = some a →
    ((l.set i b).map f).sum + f a = (l.map f).sum + f b
  | x :: xs, 0, a, h => by
    obtain rfl : x = a := Option.some.inj h
    simp only [List.set_cons_zero, List.map_cons, List.sum_cons]
    rw [add_comm (f b), add_right_comm, add_comm (f x), add_right_comm]
  | x :: xs, i + 1, a, h => by
    have ih := sum_map_set f (b := b) (l := xs) (i := i) (a := a) h
    simp only [List.set_cons_succ, List.map_cons, List.sum_cons]
    rw [add_assoc, ih, add_assoc]

lemma sum_filter (p : α → Bool) (f : α → M) (l : List α) :
    ((l.filter p).map f).sum = (l.map fun a => if p a = true then f a else 0).sum := by
  induction l with
  | nil => rfl
  | cons x xs ih =>
    by_cases hx : p x = true
    · simp [hx, ih]
    · simp [hx, ih]

lemma length_filter (p : α → Bool) (l : List α) :
    (l.filter p).length = (l.map fun a => if p a = true then 1 else 0).sum := by
  rw [← sum_filter p fun _ => 1]
  simp

end VllmRouter
