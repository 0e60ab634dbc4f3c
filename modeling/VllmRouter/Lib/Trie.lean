import Mathlib.Data.List.Induction

/-!
# Compressed tries

A compressed trie has a word on each node and finds the next node by the first
symbol of that word. `TrieView` is what a reader sees of such a structure, and
`Shaped pre` says that it is a trie: `pre i` is the word read on the way to node
`i`.

- `locate`: the trie read one symbol at a time, as if it were not compressed.
- `Shaped.locate_at`, `Shaped.locate_of_reaches`: a word is located exactly at the
  position it leads to, so no two positions have the same word.
- `Shaped.of_sub`, `.attach`, `.split`: dropping links, hanging a node below another
  and cutting a label in two keep the shape.
- `Readable vis`: the words that lead to a node satisfying `vis`. They are closed
  under prefixes when `vis` passes from a node to its parent.
-/

namespace VllmRouter

open List

variable {ν α : Type}

/-- A node, its label and its children by the first symbol of their labels. -/
structure TrieView (ν α : Type) where
  root : ν
  label : ν → List α
  child : ν → α → Option ν

variable {a : α} {i : ν} {w : List α} {vis : ν → Prop}

namespace TrieView

variable (T : TrieView ν α)

/-- The view is a trie in which `pre i` leads to node `i`. -/
structure Shaped (pre : ν → List α) : Prop where
  root_label : T.label T.root = []
  root_pre : pre T.root = []
  child_ne_root : ∀ i a j, T.child i a = some j → j ≠ T.root
  child_label : ∀ i a j, T.child i a = some j → (T.label j).head? = some a
  child_pre : ∀ i a j, T.child i a = some j → pre j = pre i ++ T.label i

/-- The nodes below the root. -/
inductive Reaches : ν → Prop
  | root : Reaches T.root
  | child {i : ν} {a : α} {j : ν} (h : Reaches i) (hchild : T.child i a = some j) : Reaches j

variable {T} in
/-- A reached node is the root or the child of a reached node. -/
lemma Reaches.parent (h : T.Reaches j) :
    j = T.root ∨ ∃ i a, T.Reaches i ∧ T.child i a = some j := by
  cases h with
  | root => exact .inl rfl
  | child h hchild => exact .inr ⟨_, _, h, hchild⟩

variable {T} in
lemma Shaped.child_label_pos (hT : T.Shaped pre) (hchild : T.child i a = some j) :
    0 < (T.label j).length := by
  have hhead := hT.child_label i a j hchild
  cases hlabel : T.label j with
  | nil =>
    rw [hlabel] at hhead
    cases hhead
  | cons => exact Nat.succ_pos _

/-! ## Edits -/

section Edits

variable {T} {T' : TrieView ν α} {pre : ν → List α}

lemma Shaped.of_sub (hT : T.Shaped pre) (hroot : T'.root = T.root)
    (hlabel : ∀ i, T'.label i = T.label i)
    (hsub : ∀ i a j, T'.child i a = some j → T.child i a = some j) : T'.Shaped pre where
  root_label := by rw [hroot, hlabel, hT.root_label]
  root_pre := by rw [hroot, hT.root_pre]
  child_ne_root i a j h := hroot.symm ▸ hT.child_ne_root i a j (hsub i a j h)
  child_label i a j h := by rw [hlabel, hT.child_label i a j (hsub i a j h)]
  child_pre i a j h := by rw [hlabel, hT.child_pre i a j (hsub i a j h)]

variable [DecidableEq ν]

/-- Hang a new node below `p`. -/
lemma Shaped.attach (hT : T.Shaped pre) (hroot : T'.root = T.root) (hne : new ≠ T.root)
    (hp : p ≠ new) (hfresh : ∀ i b, T.child i b ≠ some new)
    (hlabel : ∀ i, i ≠ new → T'.label i = T.label i) (hhead : (T'.label new).head? = some a)
    (hleaf : ∀ b, T'.child new b = none) (hchild : ∀ i b j, T'.child i b = some j →
      (i = p ∧ b = a ∧ j = new) ∨ T.child i b = some j) :
    T'.Shaped (Function.update pre new (pre p ++ T.label p)) := by
  constructor
  · rw [hroot, hlabel _ hne.symm, hT.root_label]
  · rw [hroot, Function.update_of_ne hne.symm, hT.root_pre]
  · intro i b j h
    rw [hroot]
    rcases hchild i b j h with ⟨-, -, rfl⟩ | h
    · exact hne
    · exact hT.child_ne_root i b j h
  · intro i b j h
    rcases hchild i b j h with ⟨-, rfl, rfl⟩ | h
    · exact hhead
    · rw [hlabel j fun hj => hfresh i b (hj ▸ h), hT.child_label i b j h]
  intro i b j h
  have hi : i ≠ new := by
    rintro rfl
    rw [hleaf] at h
    cases h
  rw [hlabel i hi, Function.update_of_ne hi]
  rcases hchild i b j h with ⟨rfl, -, rfl⟩ | h
  · rw [Function.update_self]
  · have hj : j ≠ new := fun hj => hfresh i b (hj ▸ h)
    rw [Function.update_of_ne hj, hT.child_pre i b j h]

/-- Cut the label of `m`, a child of `p`, in two and put a new node with the first part
between `p` and `m`. -/
lemma Shaped.split (hT : T.Shaped pre) (hroot : T'.root = T.root) (hm : T.child p a = some m)
    (hne : new ≠ T.root) (hp : p ≠ new) (hnew : new ≠ m) (hfresh : ∀ i c, T.child i c ≠ some new)
    (hnone : ∀ c, T.child new c = none) (hlabel : ∀ i, i ≠ new → i ≠ m → T'.label i = T.label i)
    (hcut : T.label m = T'.label new ++ T'.label m) (hpos : T'.label new ≠ [])
    (hhead : (T'.label m).head? = some b) (hchild : ∀ i c j, T'.child i c = some j →
      (i = p ∧ c = a ∧ j = new) ∨ (i = new ∧ c = b ∧ j = m) ∨ (T.child i c = some j ∧ j ≠ m)) :
    T'.Shaped (Function.update (Function.update pre m (pre m ++ T'.label new)) new (pre m)) := by
  have hmroot : m ≠ T.root := hT.child_ne_root p a m hm
  have hpm : p ≠ m := by
    rintro rfl
    have hself := hT.child_pre p a p hm
    rw [self_eq_append_right] at hself
    have := hT.child_label_pos hm
    rw [hself] at this
    exact absurd this (Nat.lt_irrefl 0)
  have hpre : ∀ i, i ≠ new → i ≠ m →
      Function.update (Function.update pre m (pre m ++ T'.label new)) new (pre m) i = pre i := by
    intro i hi him
    rw [Function.update_of_ne hi, Function.update_of_ne him]
  constructor
  · rw [hroot, hlabel _ hne.symm hmroot.symm, hT.root_label]
  · rw [hroot, hpre _ hne.symm hmroot.symm, hT.root_pre]
  · intro i c j h
    rw [hroot]
    rcases hchild i c j h with ⟨-, -, rfl⟩ | ⟨-, -, rfl⟩ | ⟨h, -⟩
    · exact hne
    · exact hmroot
    · exact hT.child_ne_root i c j h
  · intro i c j h
    rcases hchild i c j h with ⟨rfl, rfl, rfl⟩ | ⟨-, rfl, rfl⟩ | ⟨h, hj⟩
    · have hlab := hT.child_label i c m hm
      obtain ⟨x, l, hx⟩ := exists_cons_of_ne_nil hpos
      rw [hcut, hx] at hlab
      rw [hx]
      exact hlab
    · exact hhead
    · rw [hlabel j (fun hj => hfresh i c (hj ▸ h)) hj, hT.child_label i c j h]
  · intro i c j h
    rcases hchild i c j h with ⟨rfl, -, rfl⟩ | ⟨rfl, -, rfl⟩ | ⟨h, hj⟩
    · rw [Function.update_self, hpre i hp hpm, hlabel i hp hpm, hT.child_pre i a m hm]
    · rw [Function.update_self, Function.update_of_ne hnew.symm, Function.update_self]
    have hi : i ≠ new := by
      rintro rfl
      rw [hnone] at h
      cases h
    rw [hpre j (fun hj => hfresh i c (hj ▸ h)) hj, hT.child_pre i c j h]
    by_cases him : i = m
    · subst him
      rw [Function.update_of_ne hi, Function.update_self, hcut, append_assoc]
    · rw [hpre i hi him, hlabel i hi him]

end Edits

/-! ## Reading -/

variable [DecidableEq α]

/-- Read one more symbol from a position, which is a node and how many symbols of
its label have been read. -/
def read (p : ν × Nat) (a : α) : Option (ν × Nat) :=
  match (T.label p.1)[p.2]? with
  | some b => if b = a then some (p.1, p.2 + 1) else none
  | none => (T.child p.1 a).map fun j => (j, 1)

/-- The position that a word leads to. -/
def locate (w : List α) : Option (ν × Nat) := w.foldlM T.read (T.root, 0)

lemma locate_append (w v : List α) :
    T.locate (w ++ v) = (T.locate w).bind fun p => v.foldlM T.read p := by
  unfold locate
  rw [foldlM_append]
  rfl

lemma locate_snoc (w) (a : α) :
    T.locate (w ++ [a]) = (T.locate w).bind fun p => T.read p a := by
  rw [locate_append]
  refine Option.bind_congr fun p _ => ?_
  show (T.read p a >>= pure) = T.read p a
  exact bind_pure _

variable {T} {pre : ν → List α}

lemma read_label (hb : (T.label i)[k]? = some b) (a : α) :
    T.read (i, k) a = if b = a then some (i, k + 1) else none := by
  simp [read, hb]

lemma read_end (i) (a : α) :
    T.read (i, (T.label i).length) a = (T.child i a).map fun j => (j, 1) := by
  simp [read]

/-- A located position is reached, and on the word that was read. -/
lemma Shaped.locate_at (hT : T.Shaped pre) (w) : ∀ i k, T.locate w = some (i, k) →
    T.Reaches i ∧ k ≤ (T.label i).length ∧ w = pre i ++ (T.label i).take k ∧
      (k = 0 → i = T.root) := by
  induction w using List.reverseRecOn with
  | nil =>
    intro i k h
    cases h
    exact ⟨.root, Nat.zero_le _, by rw [hT.root_pre]; rfl, fun _ => rfl⟩
  | append_singleton w a ih =>
    intro i k h
    rw [locate_snoc] at h
    obtain ⟨⟨i0, k0⟩, hloc, hread⟩ := Option.bind_eq_some_iff.1 h
    obtain ⟨hreach, hk0, hw, -⟩ := ih i0 k0 hloc
    cases hb : (T.label i0)[k0]? with
    | some =>
      rw [read_label hb] at hread
      split at hread
      · rename_i hba
        cases hread
        obtain ⟨hlt, _⟩ := List.getElem?_eq_some_iff.1 hb
        refine ⟨hreach, hlt, ?_, fun h => absurd h (Nat.succ_ne_zero _)⟩
        rw [hw, List.take_add_one, hb, hba, List.append_assoc]
        rfl
      · cases hread
    | none =>
      have hend : k0 = (T.label i0).length := Nat.le_antisymm hk0 (List.getElem?_eq_none_iff.1 hb)
      rw [hend, read_end] at hread
      obtain ⟨j, hchild, hij⟩ := Option.map_eq_some_iff.1 hread
      cases hij
      have hpos := hT.child_label_pos hchild
      refine ⟨.child hreach hchild, hpos, ?_, fun h => absurd h (Nat.succ_ne_zero _)⟩
      rw [hw, hend, List.take_length, hT.child_pre i0 a i hchild]
      have hhead := hT.child_label i0 a i hchild
      cases hlabel : T.label i with
      | nil =>
        rw [hlabel] at hhead
        cases hhead
      | cons =>
        rw [hlabel] at hhead
        cases hhead
        rfl

/-- Reading on in the label of a node. -/
lemma locate_label (hloc : T.locate w = some (i, k)) : ∀ m, k + m ≤ (T.label i).length →
      T.locate (w ++ ((T.label i).drop k).take m) = some (i, k + m) := by
  intro m
  induction m with
  | zero =>
    intro _
    rw [take_zero, append_nil]
    exact hloc
  | succ m ih =>
    intro hm
    have hlt : k + m < (T.label i).length := by omega
    have hb : (T.label i)[k + m]? = some (T.label i)[k + m] := getElem?_eq_getElem hlt
    rw [take_add_one, getElem?_drop, hb, ← append_assoc]
    show T.locate (_ ++ [(T.label i)[k + m]]) = _
    rw [locate_snoc, ih (by omega)]
    show T.read (i, k + m) _ = _
    rw [read_label hb, if_pos rfl]
    rfl

/-- Reading on into a child. -/
lemma Shaped.locate_child (hT : T.Shaped pre) (hloc : T.locate w = some (i, (T.label i).length))
    (hchild : T.child i a = some j) :
    ∀ m, 0 < m → m ≤ (T.label j).length → T.locate (w ++ (T.label j).take m) = some (j, m) := by
  intro m hpos hm
  have hhead := hT.child_label i a j hchild
  cases hlabel : T.label j with
  | nil =>
    rw [hlabel] at hhead
    cases hhead
  | cons =>
    rw [hlabel] at hhead
    cases hhead
    have hone : T.locate (w ++ [a]) = some (j, 1) := by
      rw [locate_snoc, hloc]
      show T.read (i, (T.label i).length) a = _
      rw [read_end, hchild]
      rfl
    obtain ⟨m, rfl⟩ := Nat.exists_eq_succ_of_ne_zero (Nat.ne_of_gt hpos)
    have hrest := locate_label hone m (by omega)
    rw [hlabel, append_assoc] at hrest
    rw [Nat.add_comm] at hrest
    exact hrest

/-- Reading the word of a position leads to it. -/
lemma Shaped.locate_of_reaches (hT : T.Shaped pre) (hreach : T.Reaches i) :
    ∀ k, k ≤ (T.label i).length → (k = 0 → i = T.root) →
      T.locate (pre i ++ (T.label i).take k) = some (i, k) := by
  induction hreach with
  | root =>
    intro k hk _
    rw [hT.root_label] at hk ⊢
    obtain rfl : k = 0 := Nat.le_zero.1 hk
    rw [hT.root_pre]
    rfl
  | @child i a j hi hchild ih =>
    intro k hk hzero
    have hpos : 0 < k := by
      rcases Nat.eq_zero_or_pos k with h | h
      · exact absurd (hzero h) (hT.child_ne_root i a j hchild)
      · exact h
    -- the whole label of the parent has been read; it is empty only for the root
    have hparent : T.locate (pre i ++ (T.label i).take (T.label i).length)
        = some (i, (T.label i).length) := by
      refine ih _ (Nat.le_refl _) fun hlen => ?_
      rcases Reaches.parent hi with hroot | ⟨_, _, -, hchild'⟩
      · exact hroot
      · have := hT.child_label_pos hchild'
        omega
    rw [take_length] at hparent
    rw [hT.child_pre i a j hchild]
    exact hT.locate_child hparent hchild k hpos hk

/-! ## The words that lead to nodes of a kind -/

/-- The word leads to a node satisfying `vis`. -/
def Readable (T : TrieView ν α) (vis : ν → Prop) (w : List α) : Prop :=
  ∃ i k, T.locate w = some (i, k) ∧ vis i

section

variable (hup : ∀ i a j, T.child i a = some j → vis j → vis i)
include hup

/-- What leads to a node with `vis` passes only nodes with `vis`. -/
lemma Readable.of_snoc (h : T.Readable vis (w ++ [a])) : T.Readable vis w := by
  obtain ⟨i, k, hloc, hvis⟩ := h
  rw [locate_snoc] at hloc
  obtain ⟨⟨i0, k0⟩, hloc0, hread⟩ := Option.bind_eq_some_iff.1 hloc
  refine ⟨i0, k0, hloc0, ?_⟩
  unfold read at hread
  cases hb : (T.label i0)[k0]? with
  | some =>
    simp only [hb] at hread
    split at hread
    · cases hread
      exact hvis
    · cases hread
  | none =>
    simp only [hb] at hread
    obtain ⟨j, hchild, hij⟩ := Option.map_eq_some_iff.1 hread
    cases hij
    exact hup i0 a i hchild hvis

lemma Readable.of_append (v) :
    T.Readable vis (w ++ v) → T.Readable vis w := by
  induction v using reverseRecOn with
  | nil =>
    intro h
    rwa [append_nil] at h
  | append_singleton v a ih =>
    intro h
    rw [← append_assoc] at h
    exact ih (h.of_snoc hup)

end

/-- In a trie the readable words are those of the positions of the nodes. -/
lemma Shaped.readable_iff (hT : T.Shaped pre) (hw : w ≠ []) :
    T.Readable vis w ↔ ∃ i k, T.Reaches i ∧ vis i ∧ 0 < k ∧ k ≤ (T.label i).length ∧
      w = pre i ++ (T.label i).take k := by
  constructor
  · rintro ⟨i, k, hloc, hvis⟩
    obtain ⟨hreach, hk, hword, hzero⟩ := hT.locate_at w i k hloc
    refine ⟨i, k, hreach, hvis, Nat.pos_of_ne_zero fun h0 => hw ?_, hk, hword⟩
    rw [hword, hzero h0, hT.root_pre, hT.root_label, take_nil]
    rfl
  · rintro ⟨i, k, hreach, hvis, hpos, hk, rfl⟩
    exact ⟨i, k, hT.locate_of_reaches hreach k hk fun h => absurd h (Nat.ne_of_gt hpos), hvis⟩

end TrieView

end VllmRouter
