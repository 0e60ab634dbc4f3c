import Mathlib.Data.List.Nodup
import Mathlib.Data.List.Perm.Subperm

/-!
# Depth-first traversal

`depthFirst next` pops a node from a stack, pushes what `next` returns for it and
continues. In a tree with finitely many nodes it meets every node that can be
reached from the root, once, and ends with as much fuel as there are nodes
(`depthFirst_spec`).
-/

namespace VllmRouter

open List

variable {ν : Type}

/-- The nodes in the order in which they are popped; the head of the list is the top
of the stack. -/
def depthFirst (next : ν → List ν) : Nat → List ν → Option (List ν)
  | _, [] => some []
  | 0, _ :: _ => none
  | fuel + 1, curr :: stack => (depthFirst next fuel (next curr ++ stack)).map (curr :: ·)

/-- The nodes below `root`. -/
inductive Below (next : ν → List ν) (root : ν) : ν → Prop
  | root : Below next root root
  | next {i j : ν} (h : Below next root i) (hmem : j ∈ next i) : Below next root j

/-- Below the root every node has one parent, which lists it once; `nodes` are all
of them. -/
structure IsTree (next : ν → List ν) (root : ν) (nodes : List ν) : Prop where
  root_mem : root ∈ nodes
  next_mem : ∀ i j, j ∈ next i → j ∈ nodes
  next_nodup : ∀ i, (next i).Nodup
  ne_root : ∀ i j, j ∈ next i → j ≠ root
  parent : ∀ i i' j, j ∈ next i → j ∈ next i' → i = i'

/-- What has been popped (`visited`) and what is on the stack, at any time. -/
structure Frontier (next : ν → List ν) (root : ν) (nodes visited stack : List ν) : Prop where
  nodup : (visited ++ stack).Nodup
  mem : ∀ i ∈ visited ++ stack, i ∈ nodes
  below : ∀ i ∈ visited ++ stack, Below next root i
  root_mem : root ∈ visited ++ stack
  closed : ∀ i ∈ visited, ∀ j ∈ next i, j ∈ visited ++ stack
  parent : ∀ j ∈ visited ++ stack, j ≠ root → ∃ i ∈ visited, j ∈ next i

variable {next : ν → List ν} {root : ν} {nodes visited stack : List ν}

variable (hT : IsTree next root nodes)
include hT

/-- Popping a node and pushing its children. -/
lemma Frontier.pop (h : Frontier next root nodes visited (curr :: stack)) :
    Frontier next root nodes (visited ++ [curr]) (next curr ++ stack) := by
  have hcurr : curr ∈ visited ++ curr :: stack := mem_append.2 (.inr mem_cons_self)
  have hmem : ∀ j, j ∈ (visited ++ [curr]) ++ (next curr ++ stack) ↔
      j ∈ visited ++ curr :: stack ∨ j ∈ next curr := by
    intro j
    simp only [mem_append, mem_cons]
    tauto
  -- a child of `curr` that was met before has a visited parent, which would be `curr`
  have hfresh : ∀ j ∈ next curr, j ∉ visited ++ curr :: stack := by
    intro j hj hold
    obtain ⟨i, hi, hij⟩ := h.parent j hold (hT.ne_root curr j hj)
    have hic : i = curr := hT.parent i curr j hij hj
    subst hic
    exact (nodup_append.1 h.nodup).2.2 i hi i mem_cons_self rfl
  constructor
  · have hperm : ((visited ++ [curr]) ++ (next curr ++ stack)).Perm
        (next curr ++ (visited ++ curr :: stack)) := by
      rw [append_assoc, singleton_append]
      exact ((perm_middle.symm).append_left visited).trans
        (perm_append_comm_assoc visited (next curr) (curr :: stack))
    refine hperm.nodup_iff.2 (nodup_append.2 ⟨hT.next_nodup curr, h.nodup, ?_⟩)
    rintro a ha b hb rfl
    exact hfresh a ha hb
  · intro i hi
    rcases (hmem i).1 hi with hi | hi
    · exact h.mem i hi
    · exact hT.next_mem curr i hi
  · intro i hi
    rcases (hmem i).1 hi with hi | hi
    · exact h.below i hi
    · exact .next (h.below curr hcurr) hi
  · exact (hmem root).2 (.inl h.root_mem)
  · intro i hi j hj
    rcases mem_append.1 hi with hi | hi
    · exact (hmem j).2 (.inl (h.closed i hi j hj))
    · rw [mem_singleton.1 hi] at hj
      exact (hmem j).2 (.inr hj)
  intro j hj hne
  rcases (hmem j).1 hj with hj | hj
  · obtain ⟨i, hi, hij⟩ := h.parent j hj hne
    exact ⟨i, mem_append.2 (.inl hi), hij⟩
  · exact ⟨curr, mem_append.2 (.inr mem_cons_self), hj⟩

/-- With fuel for the nodes that have not been visited the traversal ends. -/
lemma depthFirst_frontier : ∀ fuel visited stack,
    Frontier next root nodes visited stack → nodes.length ≤ visited.length + fuel →
    ∃ l, depthFirst next fuel stack = some l ∧ Frontier next root nodes (visited ++ l) [] := by
  intro fuel
  induction fuel with
  | zero =>
    intro _ stack h _
    cases stack with
    | nil => exact ⟨[], rfl, by rwa [append_nil]⟩
    | cons =>
      have hle := (h.nodup.subperm h.mem).length_le
      rw [length_append, length_cons] at hle
      omega
  | succ _ ih =>
    intro visited stack h _
    cases stack with
    | nil => exact ⟨[], rfl, by rwa [append_nil]⟩
    | cons curr stack =>
      obtain ⟨l, hl, hfront⟩ := ih (visited ++ [curr]) (next curr ++ stack) (h.pop hT)
        (by rw [length_append, length_singleton]; omega)
      refine ⟨curr :: l, ?_, ?_⟩
      · rw [depthFirst, hl]
        rfl
      · rwa [append_assoc] at hfront

/-- **A traversal from the root meets every node below it, once.** -/
lemma depthFirst_spec :
    ∃ l, depthFirst next nodes.length [root] = some l ∧ l.Nodup ∧
      ∀ i, i ∈ l ↔ Below next root i := by
  have hstart : Frontier next root nodes [] [root] := by
    constructor
    · exact nodup_singleton root
    · intro i hi
      rw [mem_singleton.1 hi]
      exact hT.root_mem
    · intro i hi
      rw [mem_singleton.1 hi]
      exact .root
    · exact mem_singleton.2 rfl
    · intro i hi
      cases hi
    · intro j hj hne
      exact absurd (mem_singleton.1 hj) hne
  obtain ⟨l, hl, h⟩ := depthFirst_frontier hT nodes.length [] [root] hstart (by simp)
  have happ : l ++ [] = l := append_nil l
  refine ⟨l, hl, happ ▸ h.nodup, fun i => ⟨fun hi => h.below i (happ.symm ▸ hi), fun hi => ?_⟩⟩
  induction hi with
  | root => exact happ ▸ h.root_mem
  | next _ hmem ih => exact happ ▸ h.closed _ ih _ hmem

end VllmRouter
