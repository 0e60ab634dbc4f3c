import VllmRouter.PrefixTree.Shape

/-!
# New nodes

`insert` creates nodes in two ways: a leaf with the rest of the text, and the upper half
of a node that it splits.

- `WellFormed.insertLeaf`, `insertLeaf_owned`, `insertLeaf_listedSize`: a leaf keeps the
  shape, and its tenant owns the texts that end inside it in addition.
- `WellFormed.cut`, `.cut_owned`, `.cut_listedSize`: a split keeps the shape, everybody's
  texts and everybody's size.
-/

namespace VllmRouter.PrefixTree.Tree

open List Dict

variable {pre : NodeRef → Text} {t : Tree}

/-! ## A new leaf -/

section Leaf

variable {prev : NodeRef} {c : Char}

section

variable (hprev : prev < t.nodes.length)
include hprev

lemma insertLeaf_node (j) :
    (t.insertLeaf epoch u prev remaining c).node j = if j = prev then
        { t.node prev with children := (t.node prev).children.insert c t.nodes.length }
      else if j = t.nodes.length then leafNode epoch u prev remaining else t.node j := by
  unfold insertLeaf
  have hlt : prev < ((t.addChars u remaining.length).alloc
      (leafNode epoch u prev remaining)).nodes.length := by
    rw [length_alloc]
    exact Nat.lt_succ_of_lt hprev
  rw [node_update hlt, node_alloc, node_alloc]
  show (if j = prev then _ else if j = t.nodes.length then _ else t.node j) = _
  have hne : prev ≠ (t.addChars u remaining.length).nodes.length := hprev.ne
  rw [if_neg hne]
  rfl

/-- The new leaf is the only new child, below `prev`. -/
lemma insertLeaf_child (i d) :
    (t.insertLeaf epoch u prev remaining c).child i d = if i = t.nodes.length then none
      else if i = prev ∧ d = c then some t.nodes.length else t.child i d := by
  unfold child
  rw [insertLeaf_node hprev]
  split
  · rename_i hi
    subst hi
    rw [if_neg hprev.ne]
    simp [lookup_insert_eq]
  rename_i hi
  split
  · rfl
  · rw [if_neg fun h => hi h.1]

lemma insertLeaf_label (i) :
    (t.insertLeaf epoch u prev remaining c).label i =
      if i = t.nodes.length then remaining else t.label i := by
  unfold label
  rw [insertLeaf_node hprev]
  split
  · rename_i hi
    subst hi
    rw [if_neg hprev.ne]
  split
  · rfl
  · rfl

/-- Nobody but `u` is listed at the new leaf, and no other listing changes. -/
lemma insertLeaf_lists (i v) :
    ((t.insertLeaf epoch u prev remaining c).node i).lists v = true ↔
      (t.node i).lists v = true ∨ (i = t.nodes.length ∧ v = u) := by
  have hold : ¬ (t.node t.nodes.length).lists v = true := fun h => Nat.lt_irrefl _ (lt_of_lists h)
  rw [insertLeaf_node hprev]
  by_cases hi : i = prev
  · subst hi
    have hne : i ≠ t.nodes.length := hprev.ne
    simp only [hne, false_and, or_false]
    rfl
  rw [if_neg hi]
  split
  · rename_i hnew
    subst hnew
    simp only [hold]
    unfold Node.lists leafNode
    rw [lookup_insert_eq]
    by_cases hv : v = u
    · simp [hv]
    · simp [hv]
  · rename_i hnew
    simp [hnew]

end

/-- The text on the way to the new leaf. -/
def leafPre (pre : NodeRef → Text) (t : Tree) (prev : NodeRef) : NodeRef → Text :=
  Function.update pre t.nodes.length (pre prev ++ t.label prev)

/-- The next reference is no child yet. -/
lemma WellFormed.fresh (h : WellFormed pre t) (i d) :
    t.child i d ≠ some t.nodes.length :=
  fun hij => Nat.lt_irrefl _ (h.child_lt i d _ hij)

lemma child_fresh (t : Tree) (d) : t.child t.nodes.length d = none := by
  unfold child
  rw [node_of_le le_rfl]
  rfl

/-- A leaf below a node of the tenant keeps the tree well-formed. -/
lemma WellFormed.insertLeaf (h : WellFormed pre t) (hprev : (t.node prev).lists u = true)
    (hvacant : t.child prev c = none) (hhead : remaining.head? = some c) :
    WellFormed (leafPre pre t prev) (t.insertLeaf epoch u prev remaining c) := by
  have hlt := lt_of_lists hprev
  have hroot : rootRef ≠ t.nodes.length := h.root_lt.ne
  -- a link of the new tree is the new one or an old one
  have hchild : ∀ i d j, (t.insertLeaf epoch u prev remaining c).child i d = some j →
      (i = prev ∧ d = c ∧ j = t.nodes.length) ∨ t.child i d = some j := by
    intro i d j hij
    rw [insertLeaf_child hlt] at hij
    split at hij
    · cases hij
    split at hij
    · rename_i hlink
      cases hij
      exact .inl ⟨hlink.1, hlink.2, rfl⟩
    · exact .inr hij
  have hkeep : ∀ i d j, t.child i d = some j →
      (t.insertLeaf epoch u prev remaining c).child i d = some j := by
    intro i d j hij
    have hi : i ≠ t.nodes.length := Nat.ne_of_lt (h.parent_lt hij)
    have hlink : ¬ (i = prev ∧ d = c) := by
      rintro ⟨rfl, rfl⟩
      rw [hvacant] at hij
      cases hij
    rw [insertLeaf_child hlt, if_neg hi, if_neg hlink, hij]
  have hnew : (t.insertLeaf epoch u prev remaining c).child prev c = some t.nodes.length := by
    rw [insertLeaf_child hlt, if_neg hlt.ne, if_pos ⟨rfl, rfl⟩]
  have hnode : ∀ i, i ≠ t.nodes.length →
      ((t.insertLeaf epoch u prev remaining c).node i).text = (t.node i).text ∧
      ((t.insertLeaf epoch u prev remaining c).node i).parent = (t.node i).parent := by
    intro i hi
    rw [insertLeaf_node hlt]
    by_cases hip : i = prev
    · subst hip
      rw [if_pos rfl]
      exact ⟨rfl, rfl⟩
    · rw [if_neg hip, if_neg hi]
      exact ⟨rfl, rfl⟩
  have hleaf : (t.insertLeaf epoch u prev remaining c).node t.nodes.length
      = leafNode epoch u prev remaining := by
    rw [insertLeaf_node hlt, if_neg hlt.ne', if_pos rfl]
  have hlen : (t.insertLeaf epoch u prev remaining c).nodes.length = t.nodes.length + 1 := by
    unfold Tree.insertLeaf
    rw [length_update, length_alloc]
    rfl
  constructor
  · have hsame : (t.insertLeaf epoch u prev remaining c).view.root = t.view.root := rfl
    refine h.trie.attach hsame hroot.symm hlt.ne h.fresh ?_ ?_ ?_ hchild
    · intro i hi
      show (t.insertLeaf epoch u prev remaining c).label i = _
      rw [insertLeaf_label hlt, if_neg hi]
      rfl
    · show ((t.insertLeaf epoch u prev remaining c).label t.nodes.length).head? = some c
      rw [insertLeaf_label hlt, if_pos rfl, hhead]
    intro d
    show (t.insertLeaf epoch u prev remaining c).child t.nodes.length d = none
    rw [insertLeaf_child hlt, if_pos rfl]
  · rw [(hnode _ hroot).1, h.root_count]
  · rw [(hnode _ hroot).2, h.root_parent]
  · rw [hlen]
    exact Nat.lt_succ_of_lt h.root_lt
  · intro i d j hij
    rw [hlen]
    rcases hchild i d j hij with ⟨-, -, rfl⟩ | hij
    · exact Nat.lt_succ_self _
    · exact Nat.lt_succ_of_lt (h.child_lt i d j hij)
  · intro i d j hij
    rw [insertLeaf_label hlt]
    rcases hchild i d j hij with ⟨-, -, rfl⟩ | hij
    · rw [hleaf, if_pos rfl]
      rfl
    · have hj : j ≠ t.nodes.length := fun hj => h.fresh i d (hj ▸ hij)
      rw [(hnode j hj).1, if_neg hj, h.child_count i d j hij]
  · intro i d j hij
    rcases hchild i d j hij with ⟨rfl, -, rfl⟩ | hij
    · rw [hleaf]
      rfl
    · have hj : j ≠ t.nodes.length := fun hj => h.fresh i d (hj ▸ hij)
      rw [(hnode j hj).2, h.child_parent i d j hij]
  · intro i d j hij
    rcases hchild i d j hij with ⟨-, -, rfl⟩ | hij
    · exact ⟨u, (insertLeaf_lists hlt _ _).2 (.inr ⟨rfl, rfl⟩)⟩
    · obtain ⟨v, hv⟩ := h.child_listed i d j hij
      exact ⟨v, (insertLeaf_lists hlt _ _).2 (.inl hv)⟩
  · intro i d j hij v hv
    refine (insertLeaf_lists hlt _ _).2 (.inl ?_)
    rcases (insertLeaf_lists hlt j v).1 hv with hv | ⟨hj, rfl⟩
    · rcases hchild i d j hij with ⟨-, -, rfl⟩ | hij
      · exact absurd (lt_of_lists hv) (Nat.lt_irrefl _)
      · exact h.child_lists i d j hij v hv
    rcases hchild i d j hij with ⟨rfl, -, -⟩ | hij
    · exact hprev
    · exact absurd (hj ▸ hij) (h.fresh i d)
  · intro j v hj hv
    rcases (insertLeaf_lists hlt j v).1 hv with hv | ⟨rfl, -⟩
    · obtain ⟨i, d, hij⟩ := h.linked j v hj hv
      exact ⟨i, d, hkeep i d j hij⟩
    · exact ⟨prev, c, hnew⟩

/-- The tenant owns the texts that end inside the leaf in addition. -/
lemma insertLeaf_owned (hlt : prev < t.nodes.length) (v p) :
    Owned (leafPre pre t prev) (t.insertLeaf epoch u prev remaining c) v p ↔
      Owned pre t v p ∨ (v = u ∧ ∃ k, 0 < k ∧ k ≤ remaining.length ∧
        p = (pre prev ++ t.label prev) ++ remaining.take k) := by
  have hinside : ∀ i, i ≠ t.nodes.length → (Inside (leafPre pre t prev)
      (t.insertLeaf epoch u prev remaining c) i p ↔ Inside pre t i p) := by
    intro i hi
    unfold Inside leafPre
    rw [insertLeaf_label hlt, if_neg hi, Function.update_of_ne hi]
  have hnew : Inside (leafPre pre t prev) (t.insertLeaf epoch u prev remaining c)
      t.nodes.length p ↔ ∃ k, 0 < k ∧ k ≤ remaining.length ∧
        p = (pre prev ++ t.label prev) ++ remaining.take k := by
    unfold Inside leafPre
    rw [insertLeaf_label hlt, if_pos rfl, Function.update_self]
  rw [owned_iff, owned_iff]
  constructor
  · rintro ⟨i, hv, hin⟩
    rcases (insertLeaf_lists hlt i v).1 hv with hv | ⟨rfl, rfl⟩
    · exact .inl ⟨i, hv, (hinside i (lt_of_lists hv).ne).1 hin⟩
    · exact .inr ⟨rfl, hnew.1 hin⟩
  rintro (⟨i, hv, hin⟩ | ⟨rfl, hk⟩)
  · exact ⟨i, (insertLeaf_lists hlt i v).2 (.inl hv),
      (hinside i (lt_of_lists hv).ne).2 hin⟩
  · exact ⟨t.nodes.length, (insertLeaf_lists hlt _ _).2 (.inr ⟨rfl, rfl⟩), hnew.2 hk⟩

/-- The tenant of the leaf gains its characters. -/
lemma insertLeaf_listedSize (hlt : prev < t.nodes.length) (v) :
    (t.insertLeaf epoch u prev remaining c).listedSize v
      = t.listedSize v + if v = u then remaining.length else 0 := by
  unfold insertLeaf
  rw [listedSize_update_same (by rw [length_alloc]; exact Nat.lt_succ_of_lt hlt) rfl,
    listedSize_alloc]
  refine congrArg (t.listedSize v + ·) ?_
  unfold Node.sizeFor leafNode Node.lists
  rw [lookup_insert_eq]
  by_cases hv : v = u
  · simp [NodeText.new]
  · simp [hv]

end Leaf

/-! ## A split -/

section Split

variable {prev m : NodeRef} {c d : Char} {k : Nat}

/-- `splitNode` after the first `k` characters of `m`. -/
def cut (t : Tree) (prev m : NodeRef) (c d : Char) (k : Nat) : Tree :=
  t.splitNode prev m c d (NodeText.new ((t.label m).take k)) (NodeText.new ((t.label m).drop k))

/-- The texts on the way to the two halves. -/
def cutPre (pre : NodeRef → Text) (t : Tree) (m : NodeRef) (k : Nat) : NodeRef → Text :=
  Function.update (Function.update pre m (pre m ++ (t.label m).take k)) t.nodes.length (pre m)

lemma length_cut (t : Tree) (prev m c d k) :
    (t.cut prev m c d k).nodes.length = t.nodes.length + 1 := by
  unfold cut splitNode
  rw [length_update, length_update, length_alloc]

section

variable (hprev : prev < t.nodes.length) (hm : m < t.nodes.length) (hne : prev ≠ m)
include hprev hm hne

lemma cut_node (j) :
    (t.cut prev m c d k).node j =
      if j = m then lowerNode (t.node m) t.nodes.length (NodeText.new ((t.label m).drop k))
      else if j = prev then
        { t.node prev with children := (t.node prev).children.insert c t.nodes.length }
      else if j = t.nodes.length then
        upperNode (t.node m) prev m d (NodeText.new ((t.label m).take k)) else t.node j := by
  unfold cut splitNode
  generalize upperNode (t.node m) prev m d (NodeText.new ((t.label m).take k)) = new
  have hlt : prev < (t.alloc new).nodes.length := by
    rw [length_alloc]
    exact Nat.lt_succ_of_lt hprev
  have hmlt : m < ((t.alloc new).update prev fun n =>
      { n with children := n.children.insert c t.nodes.length }).nodes.length := by
    rw [length_update, length_alloc]
    exact Nat.lt_succ_of_lt hm
  rw [node_update hmlt, node_update hlt, node_update hlt, node_alloc, node_alloc, node_alloc,
    if_neg hne.symm, if_neg hm.ne, if_neg hprev.ne]

lemma cut_label (i) :
    (t.cut prev m c d k).label i =
      if i = m then (t.label m).drop k else if i = t.nodes.length then (t.label m).take k
      else t.label i := by
  unfold label
  rw [cut_node hprev hm hne]
  split
  · rfl
  split
  · rename_i hip
    subst hip
    rw [if_neg hprev.ne]
  split
  · rfl
  · rfl

/-- The upper half takes the place of `m`, and `m` becomes its only child. -/
lemma cut_child (i e) : (t.cut prev m c d k).child i e =
      if i = t.nodes.length then (if e = d then some m else none)
      else if i = prev ∧ e = c then some t.nodes.length else t.child i e := by
  unfold child
  rw [cut_node hprev hm hne]
  split
  · rename_i him
    subst him
    rw [if_neg hm.ne, if_neg fun h => hne h.1.symm]
    rfl
  split
  · rename_i hip
    subst hip
    rw [if_neg hprev.ne]
    simp [lookup_insert_eq]
  rename_i hip
  split
  · unfold upperNode
    simp only [lookup_insert_eq]
    rfl
  · rw [if_neg fun h => hip h.1]

/-- The upper half lists the tenants of the lower one. -/
lemma cut_lists (i v) :
    ((t.cut prev m c d k).node i).lists v
      = if i = t.nodes.length then (t.node m).lists v else (t.node i).lists v := by
  rw [cut_node hprev hm hne]
  split
  · rename_i him
    subst him
    rw [if_neg hm.ne]
    rfl
  split
  · rename_i hip
    subst hip
    rw [if_neg hprev.ne]
    rfl
  split
  · rfl
  · rfl

end

variable (h : WellFormed pre t) (hm : t.child prev c = some m)
include h hm

/-- A node is not its own child. -/
lemma WellFormed.child_ne : prev ≠ m := by
  rintro rfl
  exact Nat.lt_irrefl _ (h.depth_lt hm)

/-- A split inside the text of a node keeps the tree well-formed. -/
lemma WellFormed.cut (hpos : 0 < k) (hk : k < (t.label m).length)
    (hd : ((t.label m).drop k).head? = some d) :
    WellFormed (cutPre pre t m k) (t.cut prev m c d k) := by
  have hlt := h.parent_lt hm
  have hmlt := h.child_lt prev c m hm
  have hne := h.child_ne hm
  have hroot : rootRef ≠ t.nodes.length := h.root_lt.ne
  have hmroot : m ≠ rootRef := h.trie.child_ne_root prev c m hm
  have hmnew : t.nodes.length ≠ m := hmlt.ne'
  -- the links of the new tree
  have hchild : ∀ i e j, (t.cut prev m c d k).child i e = some j →
      (i = prev ∧ e = c ∧ j = t.nodes.length) ∨ (i = t.nodes.length ∧ e = d ∧ j = m) ∨
        (t.child i e = some j ∧ j ≠ m) := by
    intro i e j hij
    rw [cut_child hlt hmlt hne] at hij
    split at hij
    · rename_i hi
      split at hij
      · rename_i he
        cases hij
        exact .inr (.inl ⟨hi, he, rfl⟩)
      · cases hij
    split at hij
    · rename_i hlink
      cases hij
      exact .inl ⟨hlink.1, hlink.2, rfl⟩
    · rename_i hlink
      exact .inr (.inr ⟨hij, fun hj => hlink (h.child_unique (hj ▸ hij) hm)⟩)
  have hkeep : ∀ i e j, t.child i e = some j → j ≠ m → (t.cut prev m c d k).child i e = some j := by
    intro i e j hij hj
    have hi : i ≠ t.nodes.length := Nat.ne_of_lt (h.parent_lt hij)
    have hlink : ¬ (i = prev ∧ e = c) := by
      rintro ⟨rfl, rfl⟩
      rw [hm] at hij
      exact hj (Option.some.inj hij).symm
    rw [cut_child hlt hmlt hne, if_neg hi, if_neg hlink, hij]
  have hupper : (t.cut prev m c d k).child prev c = some t.nodes.length := by
    rw [cut_child hlt hmlt hne, if_neg hlt.ne, if_pos ⟨rfl, rfl⟩]
  have hlower : (t.cut prev m c d k).child t.nodes.length d = some m := by
    rw [cut_child hlt hmlt hne, if_pos rfl, if_pos rfl]
  have hnode : ∀ i, i ≠ t.nodes.length → i ≠ m →
      ((t.cut prev m c d k).node i).text = (t.node i).text ∧
      ((t.cut prev m c d k).node i).parent = (t.node i).parent := by
    intro i hi him
    rw [cut_node hlt hmlt hne, if_neg him]
    by_cases hip : i = prev
    · subst hip
      rw [if_pos rfl]
      exact ⟨rfl, rfl⟩
    · rw [if_neg hip, if_neg hi]
      exact ⟨rfl, rfl⟩
  have hnewNode : (t.cut prev m c d k).node t.nodes.length
      = upperNode (t.node m) prev m d (NodeText.new ((t.label m).take k)) := by
    rw [cut_node hlt hmlt hne, if_neg hmnew, if_neg hlt.ne', if_pos rfl]
  have hmNode : (t.cut prev m c d k).node m
      = lowerNode (t.node m) t.nodes.length (NodeText.new ((t.label m).drop k)) := by
    rw [cut_node hlt hmlt hne, if_pos rfl]
  have hold : ∀ i e j, t.child i e = some j → j ≠ t.nodes.length :=
    fun i e j hij hj => h.fresh i e (hj ▸ hij)
  have hlists := fun i v => @cut_lists t prev m c d k hlt hmlt hne i v
  constructor
  · have hsame : (t.cut prev m c d k).view.root = t.view.root := rfl
    have hnewLabel : (t.cut prev m c d k).view.label t.nodes.length = (t.label m).take k := by
      show (t.cut prev m c d k).label t.nodes.length = _
      rw [cut_label hlt hmlt hne, if_neg hmnew, if_pos rfl]
    have hmLabel : (t.cut prev m c d k).view.label m = (t.label m).drop k := by
      show (t.cut prev m c d k).label m = _
      rw [cut_label hlt hmlt hne, if_pos rfl]
    have hshaped := h.trie.split hsame hm hroot.symm hlt.ne hmnew h.fresh
      (child_fresh t) ?_ ?_ ?_ (hmLabel.symm ▸ hd) hchild
    · rw [hnewLabel] at hshaped
      exact hshaped
    · intro i hi him
      show (t.cut prev m c d k).label i = t.label i
      rw [cut_label hlt hmlt hne, if_neg him, if_neg hi]
    · rw [hnewLabel, hmLabel]
      exact (take_append_drop k (t.label m)).symm
    rw [hnewLabel]
    refine ne_nil_of_length_pos ?_
    rw [length_take]
    omega
  · rw [(hnode _ hroot hmroot.symm).1, h.root_count]
  · rw [(hnode _ hroot hmroot.symm).2, h.root_parent]
  · rw [length_cut]
    exact Nat.lt_succ_of_lt h.root_lt
  · intro i e j hij
    rw [length_cut]
    rcases hchild i e j hij with ⟨-, -, rfl⟩ | ⟨-, -, rfl⟩ | ⟨hij, -⟩
    · exact Nat.lt_succ_self _
    · exact Nat.lt_succ_of_lt hmlt
    · exact Nat.lt_succ_of_lt (h.child_lt i e j hij)
  · intro i e j hij
    rw [cut_label hlt hmlt hne]
    rcases hchild i e j hij with ⟨-, -, rfl⟩ | ⟨-, -, rfl⟩ | ⟨hij, hj⟩
    · rw [hnewNode, if_neg hmnew, if_pos rfl]
      rfl
    · rw [hmNode, if_pos rfl]
      rfl
    · rw [(hnode j (hold i e j hij) hj).1, if_neg hj, if_neg (hold i e j hij),
        h.child_count i e j hij]
  · intro i e j hij
    rcases hchild i e j hij with ⟨rfl, -, rfl⟩ | ⟨rfl, -, rfl⟩ | ⟨hij, hj⟩
    · rw [hnewNode]
      rfl
    · rw [hmNode]
      rfl
    · rw [(hnode j (hold i e j hij) hj).2, h.child_parent i e j hij]
  · intro i e j hij
    rcases hchild i e j hij with ⟨-, -, rfl⟩ | ⟨-, -, rfl⟩ | ⟨hij, hj⟩
    · obtain ⟨v, hv⟩ := h.child_listed prev c m hm
      exact ⟨v, by rw [hlists, if_pos rfl, hv]⟩
    · obtain ⟨v, hv⟩ := h.child_listed prev c j hm
      exact ⟨v, by rw [hlists, if_neg hmlt.ne, hv]⟩
    · obtain ⟨v, hv⟩ := h.child_listed i e j hij
      exact ⟨v, by rw [hlists, if_neg (hold i e j hij), hv]⟩
  · intro i e j hij v hv
    rw [hlists] at hv ⊢
    rcases hchild i e j hij with ⟨rfl, -, rfl⟩ | ⟨rfl, -, rfl⟩ | ⟨hij, hj⟩
    · rw [if_pos rfl] at hv
      rw [if_neg hlt.ne]
      exact h.child_lists i c m hm v hv
    · rw [if_neg hmlt.ne] at hv
      rw [if_pos rfl]
      exact hv
    rw [if_neg (hold i e j hij)] at hv
    rw [if_neg (h.parent_lt hij).ne]
    exact h.child_lists i e j hij v hv
  · intro j v hj hv
    rw [hlists] at hv
    by_cases hnew : j = t.nodes.length
    · exact ⟨prev, c, hnew ▸ hupper⟩
    rw [if_neg hnew] at hv
    by_cases hjm : j = m
    · exact ⟨t.nodes.length, d, hjm ▸ hlower⟩
    · obtain ⟨i, e, hij⟩ := h.linked j v hj hv
      exact ⟨i, e, hkeep i e j hij hjm⟩

/-- A split changes nobody's texts. -/
lemma WellFormed.cut_owned (hk : k < (t.label m).length) (v p) :
    Owned (cutPre pre t m k) (t.cut prev m c d k) v p ↔ Owned pre t v p := by
  have hlt := h.parent_lt hm
  have hmlt := h.child_lt prev c m hm
  have hne := h.child_ne hm
  have hmnew : t.nodes.length ≠ m := hmlt.ne'
  have hupper : Inside (cutPre pre t m k) (t.cut prev m c d k) t.nodes.length p ↔
      ∃ n, 0 < n ∧ n ≤ k ∧ p = pre m ++ (t.label m).take n := by
    unfold Inside cutPre
    rw [cut_label hlt hmlt hne, if_neg hmnew, if_pos rfl, Function.update_self,
      length_take, Nat.min_eq_left hk.le]
    refine exists_congr fun n => and_congr_right fun _ => and_congr_right fun hn => ?_
    rw [take_take, Nat.min_eq_left hn]
  have hlower : Inside (cutPre pre t m k) (t.cut prev m c d k) m p ↔
      ∃ n, 0 < n ∧ k + n ≤ (t.label m).length ∧ p = pre m ++ (t.label m).take (k + n) := by
    unfold Inside cutPre
    rw [cut_label hlt hmlt hne, if_pos rfl, Function.update_of_ne hmnew.symm,
      Function.update_self, length_drop]
    refine exists_congr fun n => and_congr_right fun _ => ?_
    rw [append_assoc, ← take_add]
    have : n ≤ (t.label m).length - k ↔ k + n ≤ (t.label m).length := by omega
    rw [this]
  have hother : ∀ i, i ≠ t.nodes.length → i ≠ m →
      (Inside (cutPre pre t m k) (t.cut prev m c d k) i p ↔ Inside pre t i p) := by
    intro i hi him
    unfold Inside cutPre
    rw [cut_label hlt hmlt hne, if_neg him, if_neg hi, Function.update_of_ne hi,
      Function.update_of_ne him]
  rw [owned_iff, owned_iff]
  constructor
  · rintro ⟨i, hv, hin⟩
    rw [cut_lists hlt hmlt hne] at hv
    split at hv
    · rename_i hi
      subst hi
      obtain ⟨n, hn, hnk, hp⟩ := hupper.1 hin
      exact ⟨m, hv, n, hn, by omega, hp⟩
    rename_i hi
    by_cases him : i = m
    · subst him
      obtain ⟨n, hn, hnk, hp⟩ := hlower.1 hin
      exact ⟨i, hv, k + n, by omega, hnk, hp⟩
    · exact ⟨i, hv, (hother i hi him).1 hin⟩
  · rintro ⟨i, hv, hin⟩
    have hi : i ≠ t.nodes.length := Nat.ne_of_lt (lt_of_lists hv)
    by_cases him : i = m
    · subst him
      obtain ⟨n, hn, hnk, hp⟩ := hin
      -- the text ends in the upper or in the lower half
      rcases Nat.lt_or_ge k n with hkn | hkn
      · refine ⟨i, by rw [cut_lists hlt hmlt hne, if_neg hi, hv], hlower.2 ⟨n - k, ?_⟩⟩
        have hsum : k + (n - k) = n := by omega
        rw [hsum]
        exact ⟨by omega, hnk, hp⟩
      · exact ⟨t.nodes.length, by rw [cut_lists hlt hmlt hne, if_pos rfl, hv],
          hupper.2 ⟨n, hn, hkn, hp⟩⟩
    · exact ⟨i, by rw [cut_lists hlt hmlt hne, if_neg hi, hv], (hother i hi him).2 hin⟩

/-- The two halves have the characters of the node, for every tenant. -/
lemma WellFormed.cut_listedSize (hk : k < (t.label m).length) (v) :
    (t.cut prev m c d k).listedSize v = t.listedSize v := by
  have hlt := h.parent_lt hm
  have hmlt := h.child_lt prev c m hm
  have hne := h.child_ne hm
  have hcount := h.child_count prev c m hm
  unfold Tree.cut splitNode
  generalize hnew : upperNode (t.node m) prev m d (NodeText.new ((t.label m).take k)) = new
  generalize ht1 : (t.alloc new).update prev (fun n =>
    { n with children := n.children.insert c t.nodes.length }) = t1
  have hltAlloc : prev < (t.alloc new).nodes.length := by
    rw [length_alloc]
    exact Nat.lt_succ_of_lt hlt
  have hmlt1 : m < t1.nodes.length := by
    rw [← ht1, length_update, length_alloc]
    exact Nat.lt_succ_of_lt hmlt
  have hnode1 : t1.node m = t.node m := by
    rw [← ht1, node_update hltAlloc, if_neg hne.symm, node_alloc, if_neg hmlt.ne]
  have hsize1 : t1.listedSize v = t.listedSize v + new.sizeFor v := by
    rw [← ht1, listedSize_update_same hltAlloc rfl, listedSize_alloc]
  have hupdate := listedSize_update hmlt1 (fun n =>
    lowerNode n t.nodes.length (NodeText.new ((t.label m).drop k))) v
  rw [hnode1] at hupdate
  have hhalves : new.sizeFor v
      + (lowerNode (t.node m) t.nodes.length (NodeText.new ((t.label m).drop k))).sizeFor v
      = (t.node m).sizeFor v := by
    rw [← hnew]
    unfold Node.sizeFor
    show (if (t.node m).lists v = true then ((t.label m).take k).length else 0)
      + (if (t.node m).lists v = true then ((t.label m).drop k).length else 0) = _
    rw [length_take, length_drop]
    split
    · omega
    · rfl
  omega

end Split

end VllmRouter.PrefixTree.Tree
