import VllmRouter.Lib.Sums
import VllmRouter.Lib.Trie
import VllmRouter.PrefixTree.Tree

/-!
# The shape of the prefix tree

`WellFormed pre t` says that the arena is a compressed trie, `pre i` being the text
on the way to node `i`, with a listing of tenants on its nodes that grows towards the
root. Nodes that are not in the tree list no tenant.

- `Owned pre t u p`: the text `p` ends inside a node that lists `u`.
- `listedSize t u`: the characters of the nodes that list `u`.

The operations edit the tree in three ways: they change the listing (and drop a node
that lists nobody), hang a leaf below a node, and split a node. Each edit comes with
what it does to the shape, to `Owned` and to `listedSize`.
-/

namespace VllmRouter.PrefixTree

open List Node

/-! ## Nodes -/

variable {u : TenantId} {i j : NodeRef} {t : Tree}

namespace Node

lemma lists_iff {n : Node} :
    n.lists u = true ↔ ∃ epoch, n.tenantLastAccessTime.lookup u = some epoch :=
  Option.isSome_iff_exists

lemma lists_touch (n : Node) (u epoch v) :
    (n.touch u epoch).lists v = true ↔ n.lists v = true ∨ v = u := by
  unfold lists touch
  rw [Dict.lookup_insert_eq]
  by_cases h : v = u
  · simp [h]
  · simp [h]

/-- The characters that a node counts for a tenant. -/
def sizeFor (u : TenantId) (n : Node) : Nat := if n.lists u then n.text.charCount else 0

end Node

namespace Tree

/-! ## The arena -/

lemma node_update (hi : i < t.nodes.length) (f : Node → Node) (j) :
    (t.update i f).node j = if j = i then f (t.node i) else t.node j := by
  unfold node update
  by_cases h : j = i
  · subst h
    simp [hi, node]
  · simp [h, Ne.symm h]

/-- An update keeps what it keeps of its node. -/
lemma update_field {β : Type} (hi : i < t.nodes.length) (g : Node → β)
    (hf : g (f (t.node i)) = g (t.node i)) (j) :
    g ((t.update i f).node j) = g (t.node j) := by
  rw [node_update hi]
  split
  · rename_i hj
    rw [hf, hj]
  · rfl

lemma node_alloc (t : Tree) (n j) :
    (t.alloc n).node j = if j = t.nodes.length then n else t.node j := by
  unfold node alloc
  rcases Nat.lt_trichotomy j t.nodes.length with h | h | h
  · rw [getElem?_append_left h, if_neg h.ne]
  · subst h
    simp
  · rw [if_neg h.ne', getElem?_eq_none h.le,
      getElem?_eq_none (by simp only [length_append, length_singleton]; omega)]

lemma length_update (t : Tree) (i) (f : Node → Node) :
    (t.update i f).nodes.length = t.nodes.length :=
  length_set

lemma length_alloc (t : Tree) (n) : (t.alloc n).nodes.length = t.nodes.length + 1 := by
  unfold alloc
  rw [length_append, length_singleton]

lemma node_of_le (hi : t.nodes.length ≤ i) : t.node i = root := by
  unfold node
  rw [getElem?_eq_none hi]
  rfl

lemma lt_of_lists (h : (t.node i).lists u = true) : i < t.nodes.length := by
  rcases Nat.lt_or_ge i t.nodes.length with hi | hi
  · exact hi
  · rw [node_of_le hi] at h
    cases h

/-! ## Sizes -/

/-- The sum of the character counts of the nodes that list a tenant. -/
def listedSize (t : Tree) (u : TenantId) : Nat := (t.nodes.map (sizeFor u)).sum

/-- The maintained count of a tenant. -/
def count (t : Tree) (u : TenantId) : Nat := (t.tenantCharCount.lookup u).getD 0

lemma listedSize_update (hi : i < t.nodes.length) (f : Node → Node) (u) :
    (t.update i f).listedSize u + (t.node i).sizeFor u
      = t.listedSize u + (f (t.node i)).sizeFor u := by
  have hget : t.nodes[i]? = some (t.node i) := by
    unfold node
    rw [getElem?_eq_getElem hi]
    rfl
  exact sum_map_set (sizeFor u) hget

lemma listedSize_alloc (t : Tree) (n : Node) (u) :
    (t.alloc n).listedSize u = t.listedSize u + n.sizeFor u := by
  unfold listedSize alloc
  simp

/-- An update that keeps the text and the listing for `u` keeps `u`'s size. -/
lemma listedSize_update_same (hi : i < t.nodes.length)
    (hf : (f (t.node i)).sizeFor u = (t.node i).sizeFor u) :
    (t.update i f).listedSize u = t.listedSize u := by
  have h := listedSize_update hi f u
  rw [hf] at h
  exact Nat.add_right_cancel h

variable (t : Tree)

lemma nodes_eq : t.nodes = (range t.nodes.length).map t.node := by
  refine ext_getElem? fun i => ?_
  rw [getElem?_map]
  rcases Nat.lt_or_ge i t.nodes.length with hi | hi
  · rw [getElem?_range hi]
    show _ = some (t.node i)
    unfold node
    rw [getElem?_eq_getElem hi]
    rfl
  · rw [getElem?_eq_none hi, getElem?_eq_none (by rwa [length_range])]
    rfl

lemma listedSize_eq_sum (u) :
    t.listedSize u = ((range t.nodes.length).map fun i => (t.node i).sizeFor u).sum := by
  unfold listedSize
  conv_lhs => rw [t.nodes_eq]
  rw [map_map]
  rfl

/-- Nodes without characters count nothing. -/
lemma listedSize_eq_zero {t : Tree}
    (hnone : ∀ i, (t.node i).lists u = true → (t.node i).text.charCount = 0) :
    t.listedSize u = 0 := by
  rw [listedSize_eq_sum]
  refine sum_eq_zero fun n hn => ?_
  obtain ⟨i, -, rfl⟩ := mem_map.1 hn
  unfold sizeFor
  by_cases hu : (t.node i).lists u = true
  · rw [if_pos hu, hnone i hu]
  · exact if_neg hu

lemma count_addChars (u chars v) :
    (t.addChars u chars).count v = if v = u then t.count u + chars else t.count v := by
  unfold count addChars
  rw [Dict.lookup_upsert]
  split
  · rfl
  · rfl

lemma count_subChars (u chars v) :
    (t.subChars u chars).count v = if v = u then t.count u - chars else t.count v := by
  unfold count subChars
  rw [Dict.lookup_modify]
  split
  · cases t.tenantCharCount.lookup u with
    | none => exact (Nat.zero_sub chars).symm
    | some => rfl
  · rfl

/-! ## Well-formed trees -/

def label (i : NodeRef) : Text := (t.node i).text.text

def child (i : NodeRef) (c : Char) : Option NodeRef := (t.node i).children.lookup c

def view : TrieView NodeRef Char := ⟨rootRef, t.label, t.child⟩

/-- The node is part of the tree. -/
def Reaches (i : NodeRef) : Prop := t.view.Reaches i

variable {t}

structure WellFormed (pre : NodeRef → Text) (t : Tree) : Prop where
  trie : t.view.Shaped pre
  root_count : (t.node rootRef).text.charCount = 0
  root_parent : (t.node rootRef).parent = none
  root_lt : rootRef < t.nodes.length
  child_lt : ∀ i c j, t.child i c = some j → j < t.nodes.length
  child_count : ∀ i c j, t.child i c = some j → (t.node j).text.charCount = (t.label j).length
  child_parent : ∀ i c j, t.child i c = some j → (t.node j).parent = some i
  child_listed : ∀ i c j, t.child i c = some j → ∃ u, (t.node j).lists u = true
  child_lists : ∀ i c j, t.child i c = some j → ∀ u, (t.node j).lists u = true →
    (t.node i).lists u = true
  linked : ∀ j u, j ≠ rootRef → (t.node j).lists u = true → ∃ i c, t.child i c = some j

lemma wellFormed_new : WellFormed (fun _ => []) new := by
  have hnode : ∀ i, new.node i = root := by
    intro i
    cases i with
    | zero => rfl
    | succ i => exact node_of_le (Nat.succ_le_succ (Nat.zero_le i))
  have hchild : ∀ i c j, ¬ new.child i c = some j := by
    intro i c j h
    unfold child at h
    rw [hnode] at h
    cases h
  exact
    { trie :=
        { root_label := rfl
          root_pre := rfl
          child_ne_root := fun i c j h => absurd h (hchild i c j)
          child_label := fun i c j h => absurd h (hchild i c j)
          child_pre := fun i c j h => absurd h (hchild i c j) }
      root_count := rfl
      root_parent := rfl
      root_lt := Nat.zero_lt_one
      child_lt := fun i c j h => absurd h (hchild i c j)
      child_count := fun i c j h => absurd h (hchild i c j)
      child_parent := fun i c j h => absurd h (hchild i c j)
      child_listed := fun i c j h => absurd h (hchild i c j)
      child_lists := fun i c j h => absurd h (hchild i c j)
      linked := fun j u _ h => by
        rw [hnode] at h
        cases h }

/-- The shape is one of the arena. -/
lemma WellFormed.of_nodes (h : WellFormed pre t) (hnodes : t'.nodes = t.nodes) :
    WellFormed pre t' := by
  cases t'
  cases hnodes
  exact ⟨h.trie, h.root_count, h.root_parent, h.root_lt, h.child_lt, h.child_count,
    h.child_parent, h.child_listed, h.child_lists, h.linked⟩

section Facts

variable {pre : NodeRef → Text} {t : Tree} (h : WellFormed pre t)
include h

section

variable (hij : t.child i c = some j)
include hij

lemma WellFormed.parent_lt : i < t.nodes.length := by
  obtain ⟨u, hu⟩ := h.child_listed i c j hij
  exact lt_of_lists (h.child_lists i c j hij u hu)

lemma WellFormed.label_ne_nil : t.label j ≠ [] :=
  ne_nil_of_length_pos (h.trie.child_label_pos hij)

/-- A node has one parent, and is stored there under its first character. -/
lemma WellFormed.child_unique (hij' : t.child i' c' = some j) :
    i = i' ∧ c = c' := by
  have hp := h.child_parent i c j hij
  rw [h.child_parent i' c' j hij'] at hp
  have hc := h.trie.child_label i c j hij
  rw [h.trie.child_label i' c' j hij'] at hc
  exact ⟨(Option.some.inj hp).symm, (Option.some.inj hc).symm⟩

/-- The text up to the end of a node grows from a node to its child. -/
lemma WellFormed.depth_lt :
    (pre i ++ t.label i).length < (pre j ++ t.label j).length := by
  have hpre : pre j = pre i ++ t.label i := h.trie.child_pre i c j hij
  have hpos := length_pos_of_ne_nil (h.label_ne_nil hij)
  rw [length_append, length_append, hpre, length_append]
  omega

end

/-- A node that lists a tenant is part of the tree. -/
lemma WellFormed.reaches_of_lists : ∀ size j u,
    (pre j ++ t.label j).length = size → (t.node j).lists u = true → t.Reaches j := by
  intro size
  induction size using Nat.strong_induction_on with
  | _ _ ih =>
    intro j u hsize hu
    by_cases hj : j = rootRef
    · rw [hj]
      exact .root
    · obtain ⟨i, c, hij⟩ := h.linked j u hj hu
      exact .child (ih _ (hsize ▸ h.depth_lt hij) i u rfl (h.child_lists i c j hij u hu)) hij

lemma WellFormed.reaches (hu : (t.node j).lists u = true) : t.Reaches j :=
  h.reaches_of_lists _ j u rfl hu

/-- The root lists every tenant of the tree. -/
lemma WellFormed.root_lists (hj : t.Reaches j) (hu : (t.node j).lists u = true) :
    (t.node rootRef).lists u = true := by
  induction hj with
  | root => exact hu
  | child _ hij ih => exact ih (h.child_lists _ _ _ hij u hu)

/-- A node that is not the root and lists a tenant has a correct count. -/
lemma WellFormed.count_of_lists (hu : (t.node j).lists u = true) :
    (t.node j).text.charCount = (t.label j).length := by
  by_cases hj : j = rootRef
  · rw [hj, h.root_count]
    exact (congrArg length h.trie.root_label).symm
  · obtain ⟨i, c, hij⟩ := h.linked j u hj hu
    exact h.child_count i c j hij

end Facts

/-! ## Changes of the listing -/

section Shrink

variable {pre : NodeRef → Text} {t t' : Tree}

/-- The nodes keep their texts and parents; they may lose children, and the listing
changes in a way that fits the remaining ones. -/
lemma WellFormed.relist (h : WellFormed pre t) (hlen : t.nodes.length = t'.nodes.length)
    (htext : ∀ i, (t'.node i).text = (t.node i).text)
    (hparent : ∀ i, (t'.node i).parent = (t.node i).parent)
    (hsub : ∀ i c j, t'.child i c = some j → t.child i c = some j)
    (hlisted : ∀ i c j, t'.child i c = some j → ∃ u, (t'.node j).lists u = true)
    (hlists : ∀ i c j, t'.child i c = some j → ∀ u, (t'.node j).lists u = true →
      (t'.node i).lists u = true) (hlinked : ∀ j u, j ≠ rootRef → (t'.node j).lists u = true →
      ∃ i c, t'.child i c = some j) : WellFormed pre t' where
  trie := h.trie.of_sub rfl (fun i => congrArg NodeText.text (htext i)) hsub
  root_count := by rw [htext, h.root_count]
  root_parent := by rw [hparent, h.root_parent]
  root_lt := hlen ▸ h.root_lt
  child_lt i c j hij := hlen ▸ h.child_lt i c j (hsub i c j hij)
  child_count i c j hij := by
    unfold label
    rw [htext]
    exact h.child_count i c j (hsub i c j hij)
  child_parent i c j hij := by rw [hparent, h.child_parent i c j (hsub i c j hij)]
  child_listed := hlisted
  child_lists := hlists
  linked := hlinked

/-- The text `p` ends inside a node that lists `u`. -/
def Owned (pre : NodeRef → Text) (t : Tree) (u : TenantId) (p : Text) : Prop :=
  ∃ i k, (t.node i).lists u = true ∧ 0 < k ∧ k ≤ (t.label i).length ∧
    p = pre i ++ (t.label i).take k

/-- The texts that end inside node `i`. -/
def Inside (pre : NodeRef → Text) (t : Tree) (i : NodeRef) (p : Text) : Prop :=
  ∃ k, 0 < k ∧ k ≤ (t.label i).length ∧ p = pre i ++ (t.label i).take k

lemma owned_iff : Owned pre t u p ↔ ∃ i, (t.node i).lists u = true ∧ Inside pre t i p := by
  constructor
  · rintro ⟨i, k, hu, hk⟩
    exact ⟨i, hu, k, hk⟩
  · rintro ⟨i, hu, k, hk⟩
    exact ⟨i, k, hu, hk⟩

lemma inside_congr (htext : (t'.node i).text = (t.node i).text) :
    Inside pre t' i p ↔ Inside pre t i p := by
  unfold Inside label
  rw [htext]

/-- The nodes keep their texts and links. -/
structure SameFrame (t t' : Tree) : Prop where
  length_eq : t.nodes.length = t'.nodes.length
  text_eq : ∀ i, (t'.node i).text = (t.node i).text
  parent_eq : ∀ i, (t'.node i).parent = (t.node i).parent
  children_eq : ∀ i, (t'.node i).children = (t.node i).children

/-- The listing stays too: only timestamps and cached tenants differ. -/
structure Alike (t t' : Tree) : Prop extends SameFrame t t' where
  lists_iff : ∀ i u, (t'.node i).lists u = true ↔ (t.node i).lists u = true

/-- Node `i` lists `u` in addition. -/
structure Enlists (t t' : Tree) (i : NodeRef) (u : TenantId) : Prop extends SameFrame t t' where
  lists_iff : ∀ j v, (t'.node j).lists v = true ↔
    (t.node j).lists v = true ∨ (j = i ∧ v = u)

lemma SameFrame.child_eq (hs : SameFrame t t') (i c) :
    t'.child i c = t.child i c := by
  unfold child
  rw [hs.children_eq]

lemma Alike.wellFormed (ha : Alike t t') (h : WellFormed pre t) : WellFormed pre t' := by
  have hchild := ha.child_eq
  refine h.relist ha.length_eq ha.text_eq ha.parent_eq (fun i c j hij => hchild i c ▸ hij) ?_ ?_ ?_
  · intro i c j hij
    obtain ⟨u, hu⟩ := h.child_listed i c j (hchild i c ▸ hij)
    exact ⟨u, (ha.lists_iff j u).2 hu⟩
  · intro i c j hij u hu
    exact (ha.lists_iff i u).2
      (h.child_lists i c j (hchild i c ▸ hij) u ((ha.lists_iff j u).1 hu))
  intro j u hj hu
  obtain ⟨i, c, hij⟩ := h.linked j u hj ((ha.lists_iff j u).1 hu)
  exact ⟨i, c, (hchild i c).trans hij⟩

lemma Alike.listedSize_eq (ha : Alike t t') (u) :
    t'.listedSize u = t.listedSize u := by
  have hsize : ∀ i, (t'.node i).sizeFor u = (t.node i).sizeFor u := by
    intro i
    have hlists : (t'.node i).lists u = (t.node i).lists u := by
      rw [Bool.eq_iff_iff]
      exact ha.lists_iff i u
    unfold sizeFor
    rw [hlists, ha.text_eq]
  rw [listedSize_eq_sum, listedSize_eq_sum, ← ha.length_eq]
  simp only [hsize]

lemma Alike.owned_iff (ha : Alike t t') (u p) :
    Owned pre t' u p ↔ Owned pre t u p := by
  simp only [Tree.owned_iff, ha.lists_iff, inside_congr (ha.text_eq _)]

/-- A node may list a tenant of its parent, and the root any. -/
lemma Enlists.wellFormed (he : Enlists t t' i u) (h : WellFormed pre t)
    (hi : i = rootRef ∨ ∃ p c, t.child p c = some i ∧ (t.node p).lists u = true) :
    WellFormed pre t' := by
  have hchild := he.child_eq
  refine h.relist he.length_eq he.text_eq he.parent_eq (fun i c j hij => hchild i c ▸ hij) ?_ ?_ ?_
  · intro p c j hij
    obtain ⟨v, hv⟩ := h.child_listed p c j (hchild p c ▸ hij)
    exact ⟨v, (he.lists_iff j v).2 (.inl hv)⟩
  · intro p c j hij v hv
    have hij' : t.child p c = some j := hchild p c ▸ hij
    refine (he.lists_iff p v).2 (.inl ?_)
    rcases (he.lists_iff j v).1 hv with hv | ⟨rfl, rfl⟩
    · exact h.child_lists p c j hij' v hv
    rcases hi with hroot | ⟨_, _, hij'', _⟩
    · exact absurd hroot (h.trie.child_ne_root p c j hij')
    · rwa [(h.child_unique hij' hij'').1]
  intro j v hj hv
  rcases (he.lists_iff j v).1 hv with hv | ⟨rfl, rfl⟩
  · obtain ⟨p, c, hij⟩ := h.linked j v hj hv
    exact ⟨p, c, (hchild p c).trans hij⟩
  rcases hi with hroot | ⟨p, c, hij, -⟩
  · exact absurd hroot hj
  · exact ⟨p, c, (hchild p c).trans hij⟩

lemma Enlists.owned_iff (he : Enlists t t' i u) (v p) :
    Owned pre t' v p ↔ Owned pre t v p ∨ (v = u ∧ Inside pre t i p) := by
  simp only [Tree.owned_iff, he.lists_iff, inside_congr (he.text_eq _)]
  constructor
  · rintro ⟨j, hv | ⟨rfl, rfl⟩, hin⟩
    · exact .inl ⟨j, hv, hin⟩
    · exact .inr ⟨rfl, hin⟩
  rintro (⟨j, hv, hin⟩ | ⟨rfl, hin⟩)
  · exact ⟨j, .inl hv, hin⟩
  · exact ⟨i, .inr ⟨rfl, rfl⟩, hin⟩

end Shrink

end Tree

end VllmRouter.PrefixTree
