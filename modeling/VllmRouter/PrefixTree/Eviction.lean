import Mathlib.Data.Finset.Max
import VllmRouter.PrefixTree.Matching

/-!
# Removal of listings

Eviction and `remove_tenant` remove a tenant from nodes that are leaves for it, and a
node from the tree when nothing is left of it.

- `unlist_spec`: what one removal does (`Unlisted`).
- `traversal_spec`: a traversal meets every node of the tree once.
- `evictTenantBySize_spec`: eviction ends, and only shrinks what the tenants own.
- `removeTenant_spec`: `remove_tenant` ends, the tenant owns nothing and has no count
  afterwards, and the others keep what they own.
-/

namespace VllmRouter.PrefixTree.Tree

open List Dict Node

variable {pre : NodeRef → Text} {t : Tree}

/-! ## Leaves of a tenant -/

lemma mem_childrenOf : j ∈ t.childrenOf i ↔ ∃ c, t.child i c = some j := mem_values_iff _ _

lemma isLeafFor_iff : t.isLeafFor i u = true ↔ (t.node i).lists u = true ∧
      ∀ c j, t.child i c = some j → ¬ (t.node j).lists u = true := by
  unfold isLeafFor
  rw [Bool.and_eq_true, Bool.not_eq_true', any_eq_false]
  refine and_congr_right fun _ => ⟨fun h c j hij => h j (mem_childrenOf.2 ⟨c, hij⟩), ?_⟩
  intro h j hj
  obtain ⟨c, hij⟩ := mem_childrenOf.1 hj
  exact h c j hij

/-! ## One removal -/

/-- `t'` is `t` without the listing of `u` at `i`; links to other nodes stay. -/
structure Unlisted (t : Tree) (i : NodeRef) (u : TenantId) (t' : Tree) : Prop where
  length_eq : t.nodes.length = t'.nodes.length
  text_eq : ∀ j, (t'.node j).text = (t.node j).text
  parent_eq : ∀ j, (t'.node j).parent = (t.node j).parent
  lists_iff : ∀ j v, (t'.node j).lists v = true ↔ (t.node j).lists v = true ∧ ¬ (j = i ∧ v = u)
  child_sub : ∀ j c k, t'.child j c = some k → t.child j c = some k
  child_kept : ∀ j c k, t.child j c = some k → k ≠ i → t'.child j c = some k
  size_eq : ∀ v, t'.listedSize v + (if v = u then (t.node i).text.charCount else 0)
    = t.listedSize v
  listings_eq : t'.listings + 1 = t.listings
  counts_eq : t'.tenantCharCount = t.tenantCharCount

section Unlist

variable {i : NodeRef} {u : TenantId}

/-- The node without the tenant. -/
def dropTenant (u : TenantId) (n : Node) : Node :=
  { n with tenantLastAccessTime := n.tenantLastAccessTime.erase u }

lemma lists_dropTenant (n v) :
    (dropTenant u n).lists v = true ↔ n.lists v = true ∧ v ≠ u := by
  unfold lists dropTenant
  rw [lookup_erase_eq]
  by_cases hv : v = u
  · simp [hv]
  · simp [hv]

lemma listings_update {f : Node → Node} (hi : i < t.nodes.length) :
    (t.update i f).listings + (t.node i).tenantLastAccessTime.keys.length
      = t.listings + (f (t.node i)).tenantLastAccessTime.keys.length := by
  have hget : t.nodes[i]? = some (t.node i) := by
    unfold node
    rw [getElem?_eq_getElem hi]
    rfl
  exact sum_map_set (fun n => n.tenantLastAccessTime.keys.length) hget

lemma dropTenant_child (hi : i < t.nodes.length) (j c) :
    (t.update i (dropTenant u)).child j c = t.child j c :=
  update_field hi (·.children.lookup c) rfl j

/-- The removal of the listing itself. -/
lemma unlisted_drop (hu : (t.node i).lists u = true) :
    Unlisted t i u (t.update i (dropTenant u)) := by
  have hi := lt_of_lists hu
  have hnode := node_update hi (dropTenant u)
  have hchild := @dropTenant_child t i u hi
  constructor
  · exact (length_update t i _).symm
  · exact update_field hi text rfl
  · exact update_field hi parent rfl
  · intro j v
    rw [hnode]
    split
    · rename_i hj
      rw [lists_dropTenant, hj]
      simp
    · rename_i hj
      simp [hj]
  · intro j c k h
    rwa [hchild] at h
  · intro j c k h _
    rwa [hchild]
  · intro v
    have hupdate := listedSize_update hi (dropTenant u) v
    have hdrop : (dropTenant u (t.node i)).sizeFor v
        = if v = u then 0 else (t.node i).sizeFor v := by
      unfold sizeFor
      have hiff := @lists_dropTenant u (t.node i) v
      by_cases hv : v = u
      · rw [if_pos hv, if_neg fun h => (hiff.1 h).2 hv]
      rw [if_neg hv]
      by_cases hl : (t.node i).lists v = true
      · rw [if_pos (hiff.2 ⟨hl, hv⟩), if_pos hl]
        rfl
      · rw [if_neg fun h => hl (hiff.1 h).1, if_neg hl]
    rw [hdrop] at hupdate
    by_cases hv : v = u
    · subst hv
      have hsize : (t.node i).sizeFor v = (t.node i).text.charCount := if_pos hu
      rw [if_pos rfl] at hupdate ⊢
      omega
    · rw [if_neg hv] at hupdate ⊢
      omega
  · have hupdate := @listings_update t i (dropTenant u) hi
    obtain ⟨_, hlookup⟩ := lists_iff.1 hu
    have herase : (dropTenant u (t.node i)).tenantLastAccessTime.keys.length + 1
        = (t.node i).tenantLastAccessTime.keys.length := length_keys_erase hlookup
    omega
  · rfl

/-- The node without the child under `c`. -/
def dropChild (c : Char) (n : Node) : Node := { n with children := n.children.erase c }

section

variable (h : WellFormed pre t)
include h

/-- Dropping the link to `i` from its parent. -/
lemma Unlisted.detach (hun : Unlisted t i u t1)
    (hlink : t.child p c = some i) : Unlisted t i u (t1.update p (dropChild c)) := by
  have hp : p < t1.nodes.length := hun.length_eq ▸ h.parent_lt hlink
  have hchild : ∀ j d, (t1.update p (dropChild c)).child j d
      = if j = p ∧ d = c then none else t1.child j d := by
    intro j d
    unfold child
    rw [node_update hp]
    by_cases hj : j = p
    · rw [if_pos hj, hj]
      simp only [dropChild, lookup_erase_eq, true_and]
    · rw [if_neg hj, if_neg fun h => hj h.1]
  constructor
  · rw [length_update]
    exact hun.length_eq
  · exact fun j => (update_field hp text rfl j).trans (hun.text_eq j)
  · exact fun j => (update_field hp parent rfl j).trans (hun.parent_eq j)
  · intro j v
    rw [update_field hp (·.lists v) rfl, hun.lists_iff]
  · intro j d k hk
    rw [hchild] at hk
    split at hk
    · cases hk
    · exact hun.child_sub j d k hk
  · intro j d k hk hne
    rw [hchild, if_neg, hun.child_kept j d k hk hne]
    rintro ⟨rfl, rfl⟩
    rw [hlink] at hk
    exact hne (Option.some.inj hk).symm
  · intro v
    rw [listedSize_update_same hp rfl]
    exact hun.size_eq v
  · have hkeep : (t1.update p (dropChild c)).listings = t1.listings :=
      Nat.add_right_cancel (listings_update hp)
    rw [hkeep]
    exact hun.listings_eq
  · exact hun.counts_eq

variable (hleaf : t.isLeafFor i u = true)
include hleaf

/-- How a removal ends: the node keeps a tenant and stays where it is, or it is the root,
or it lists nobody and no link leads to it any more. -/
lemma unlist_unlisted :
    Unlisted t i u (t.unlist i u) ∧ (((∃ v, ((t.unlist i u).node i).lists v = true) ∧
          ∀ j c, (t.unlist i u).child j c = t.child j c) ∨ i = rootRef ∨
        ((∀ v, ¬ ((t.unlist i u).node i).lists v = true) ∧
          ∀ j c, (t.unlist i u).child j c ≠ some i)) := by
  obtain ⟨hu, hnone⟩ := isLeafFor_iff.1 hleaf
  have hdrop := unlisted_drop hu
  by_cases hempty : ((t.update i (dropTenant u)).node i).children.entries = [] ∧
      ((t.update i (dropTenant u)).node i).tenantLastAccessTime.entries = []
  · by_cases hroot : i = rootRef
    · have hparent : (t.node i).parent = none := hroot ▸ h.root_parent
      have hunlist : t.unlist i u = t.update i (dropTenant u) := by
        refine (if_pos hempty).trans ?_
        rw [hparent]
        rfl
      rw [hunlist]
      exact ⟨hdrop, .inr (.inl hroot)⟩
    obtain ⟨p, c, hlink⟩ := h.linked i u hroot hu
    have hparent : (t.node i).parent = some p := h.child_parent p c i hlink
    have hfirst : (t.node i).text.firstChar = some c := h.trie.child_label p c i hlink
    have hunlist : t.unlist i u = (t.update i (dropTenant u)).update p (dropChild c) := by
      refine (if_pos hempty).trans ?_
      rw [hparent, hfirst]
      rfl
    rw [hunlist]
    have hdetach := hdrop.detach h hlink
    refine ⟨hdetach, .inr (.inr ⟨fun v hv => ?_, fun j d hjd => ?_⟩)⟩
    · have hold := (hdrop.lists_iff i v).2 ((hdetach.lists_iff i v).1 hv)
      obtain ⟨_, hlookup⟩ := lists_iff.1 hold
      rw [(entries_eq_nil_iff _).1 hempty.2 v] at hlookup
      cases hlookup
    -- the only link to the node was the one in its parent
    have hp : p < (t.update i (dropTenant u)).nodes.length := hdrop.length_eq ▸ h.parent_lt hlink
    obtain ⟨rfl, rfl⟩ := h.child_unique (hdetach.child_sub j d i hjd) hlink
    unfold child at hjd
    rw [node_update hp] at hjd
    simp only [dropChild, lookup_erase_eq, if_true] at hjd
    cases hjd
  · have hunlist : t.unlist i u = t.update i (dropTenant u) := if_neg hempty
    rw [hunlist]
    refine ⟨hdrop, .inl ⟨?_, dropTenant_child (lt_of_lists hu)⟩⟩
    rcases not_and_or.1 hempty with hchildren | htenants
    · -- a child of the node has a tenant, which is not `u`
      have hex : ∃ c j, t.child i c = some j := by
        by_contra hno
        refine hchildren ((entries_eq_nil_iff _).2 fun c => ?_)
        cases hc : ((t.update i (dropTenant u)).node i).children.lookup c with
        | none => rfl
        | some j => exact absurd ⟨c, j, hdrop.child_sub i c j hc⟩ hno
      obtain ⟨c, j, hij⟩ := hex
      obtain ⟨v, hv⟩ := h.child_listed i c j hij
      refine ⟨v, (hdrop.lists_iff i v).2 ⟨h.child_lists i c j hij v hv, ?_⟩⟩
      rintro ⟨-, rfl⟩
      exact hnone c j hij hv
    · by_contra hno
      refine htenants ((entries_eq_nil_iff _).2 fun v => ?_)
      cases hv : ((t.update i (dropTenant u)).node i).tenantLastAccessTime.lookup v with
      | none => rfl
      | some epoch => exact absurd ⟨v, lists_iff.2 ⟨epoch, hv⟩⟩ hno

/-- **Removing a tenant from a leaf of it keeps the shape.** -/
lemma unlist_spec :
    WellFormed pre (t.unlist i u) ∧ Unlisted t i u (t.unlist i u) := by
  obtain ⟨hun, hend⟩ := unlist_unlisted h hleaf
  obtain ⟨-, hnone⟩ := isLeafFor_iff.1 hleaf
  refine ⟨h.relist hun.length_eq hun.text_eq hun.parent_eq hun.child_sub ?_ ?_ ?_, hun⟩
  · intro p c j hij
    by_cases hj : j = i
    · subst hj
      rcases hend with ⟨hlisted, -⟩ | hroot | ⟨-, hgone⟩
      · exact hlisted
      · exact absurd hroot (h.trie.child_ne_root p c j (hun.child_sub p c j hij))
      · exact absurd hij (hgone p c)
    · obtain ⟨v, hv⟩ := h.child_listed p c j (hun.child_sub p c j hij)
      exact ⟨v, (hun.lists_iff j v).2 ⟨hv, fun heq => hj heq.1⟩⟩
  · intro p c j hij v hv
    have hij' := hun.child_sub p c j hij
    have hv' := ((hun.lists_iff j v).1 hv).1
    refine (hun.lists_iff p v).2 ⟨h.child_lists p c j hij' v hv', ?_⟩
    rintro ⟨rfl, rfl⟩
    exact hnone c j hij' hv'
  intro j v hj hv
  obtain ⟨hv', -⟩ := (hun.lists_iff j v).1 hv
  obtain ⟨p, c, hij⟩ := h.linked j v hj hv'
  refine ⟨p, c, ?_⟩
  by_cases hji : j = i
  · subst hji
    rcases hend with ⟨-, hkept⟩ | hroot | ⟨hnobody, -⟩
    · rw [hkept, hij]
    · exact absurd hroot hj
    · exact absurd hv (hnobody v)
  · exact hun.child_kept p c j hij hji

/-- A leaf after a removal was one before, or the removed listing was the last one below
it. -/
lemma unlist_leaf (hj : (t.unlist i u).isLeafFor j v = true) :
    (t.isLeafFor j v = true ∧ ¬ (j = i ∧ v = u)) ∨ (v = u ∧ (t.node i).parent = some j) := by
  obtain ⟨hun, hend⟩ := unlist_unlisted h hleaf
  obtain ⟨hlist, hchildren⟩ := isLeafFor_iff.1 hj
  obtain ⟨hold, hne⟩ := (hun.lists_iff j v).1 hlist
  by_cases hwas : t.isLeafFor j v = true
  · exact .inl ⟨hwas, hne⟩
  have hex : ∃ c k, t.child j c = some k ∧ (t.node k).lists v = true := by
    by_contra hno
    exact hwas (isLeafFor_iff.2 ⟨hold, fun c k hjk hk => hno ⟨c, k, hjk, hk⟩⟩)
  obtain ⟨c, k, hjk, hk⟩ := hex
  by_cases hsame : k = i ∧ v = u
  · exact .inr ⟨hsame.2, hsame.1 ▸ h.child_parent j c k hjk⟩
  -- the child still lists the tenant, so the link to it is still there
  have hk' := (hun.lists_iff k v).2 ⟨hk, hsame⟩
  refine absurd hk' (hchildren c k ?_)
  by_cases hki : k = i
  · subst hki
    rcases hend with ⟨-, hkept⟩ | hroot | ⟨hnobody, -⟩
    · rw [hkept, hjk]
    · exact absurd hroot (h.trie.child_ne_root j c k hjk)
    · exact absurd hk' (hnobody v)
  · exact hun.child_kept j c k hjk hki

end

lemma Unlisted.owned_of (hun : Unlisted t i u t') (hp : Owned pre t' v p) : Owned pre t v p := by
  obtain ⟨j, hv, hin⟩ := owned_iff.1 hp
  exact owned_iff.2 ⟨j, ((hun.lists_iff j v).1 hv).1, (inside_congr (hun.text_eq j)).1 hin⟩

/-- The other tenants keep what they own. -/
lemma Unlisted.owned_other (hun : Unlisted t i u t') (hv : v ≠ u) (p) :
    Owned pre t' v p ↔ Owned pre t v p := by
  refine ⟨hun.owned_of, fun hp => ?_⟩
  obtain ⟨j, hlist, hin⟩ := owned_iff.1 hp
  exact owned_iff.2 ⟨j, (hun.lists_iff j v).2 ⟨hlist, fun h => hv h.2⟩,
    (inside_congr (hun.text_eq j)).2 hin⟩

end Unlist

/-! ## Traversals -/

lemma WellFormed.isTree (h : WellFormed pre t) (order : MapOrder) :
    IsTree (fun i => (order.children i (t.childrenOf i)).reverse) rootRef
      (range t.nodes.length) := by
  have hmem : ∀ i j, j ∈ (order.children i (t.childrenOf i)).reverse ↔
      ∃ c, t.child i c = some j := by
    intro i j
    rw [mem_reverse, (order.children_perm i _).mem_iff, mem_childrenOf]
  constructor
  · exact mem_range.2 h.root_lt
  · intro i j hj
    obtain ⟨c, hij⟩ := (hmem i j).1 hj
    exact mem_range.2 (h.child_lt i c j hij)
  · intro i
    rw [nodup_reverse, (order.children_perm i _).nodup_iff]
    exact nodup_values fun c c' j hj hj' => (h.child_unique (i := i) (j := j) hj hj').2
  · intro i j hj
    obtain ⟨c, hij⟩ := (hmem i j).1 hj
    exact h.trie.child_ne_root i c j hij
  intro i i' j hj hj'
  obtain ⟨c, hij⟩ := (hmem i j).1 hj
  obtain ⟨c', hij'⟩ := (hmem i' j).1 hj'
  exact (h.child_unique hij hij').1

/-- **A traversal meets every node of the tree once.** -/
lemma traversal_spec (h : WellFormed pre t) (order) :
    ∃ l, t.traversal order = some l ∧ l.Nodup ∧ ∀ i, i ∈ l ↔ t.Reaches i := by
  obtain ⟨l, hl, hnodup, hmem⟩ := depthFirst_spec (h.isTree order)
  rw [length_range] at hl
  refine ⟨l, hl, hnodup, fun i => (hmem i).trans ⟨fun hi => ?_, fun hi => ?_⟩⟩
  · induction hi with
    | root => exact .root
    | @next i j _ hj ih =>
      rw [mem_reverse, (order.children_perm i _).mem_iff, mem_childrenOf] at hj
      obtain ⟨c, hij⟩ := hj
      exact .child ih hij
  induction hi with
  | root => exact .root
  | @child i c j _ hij ih =>
    refine .next ih ?_
    rw [mem_reverse, (order.children_perm i _).mem_iff, mem_childrenOf]
    exact ⟨c, hij⟩

/-- The nodes that list a tenant end in a leaf for it. -/
lemma WellFormed.exists_leaf (h : WellFormed pre t) (hu : (t.node i).lists u = true) :
    ∃ j, t.isLeafFor j u = true := by
  let listing := (Finset.range t.nodes.length).filter fun j => (t.node j).lists u = true
  have hmem : ∀ j, j ∈ listing ↔ (t.node j).lists u = true := by
    intro j
    rw [Finset.mem_filter, Finset.mem_range]
    exact ⟨And.right, fun hj => ⟨lt_of_lists hj, hj⟩⟩
  -- a listing node whose text ends deepest has no listing child
  obtain ⟨j, hj, hmax⟩ := listing.exists_max_image (fun j => (pre j ++ t.label j).length)
    ⟨i, (hmem i).2 hu⟩
  refine ⟨j, isLeafFor_iff.2 ⟨(hmem j).1 hj, fun c k hjk hk => ?_⟩⟩
  exact Nat.not_lt.2 (hmax k ((hmem k).2 hk)) (h.depth_lt hjk)

/-! ## Eviction -/

/-- `t` is `t₀` after some evictions. -/
structure Evicted (pre : NodeRef → Text) (t₀ t : Tree) : Prop where
  wf : WellFormed pre t
  counted : t.Counted
  owned : ∀ u p, Owned pre t u p → Owned pre t₀ u p
  known : ∀ u, t.Known u ↔ t₀.Known u

/-- The tree without the listing of `u` at `i`. -/
def dropped (t : Tree) (i : NodeRef) (u : TenantId) : Tree :=
  (t.subChars u (t.node i).text.charCount).unlist i u

/-- A leaf of a tenant is dropped, whose count is above the limit if it has one. -/
def Drops (maxSize : Nat) (t t' : Tree) : Prop :=
  ∃ u i, t.isLeafFor i u = true ∧ (t.Known u → maxSize < t.count u) ∧ t' = t.dropped i u

/-- `t` is `t₀` on the way of an eviction with the heap `pq`. -/
structure Evicting (pre : NodeRef → Text) (t₀ : Tree) (maxSize : Nat) (t : Tree)
    (pq : List EvictionEntry) : Prop extends Evicted pre t₀ t where
  drops : Relation.ReflTransGen (Drops maxSize) t₀ t
  kept : ∀ u, t₀.count u ≤ maxSize →
    t.count u = t₀.count u ∧ ∀ p, Owned pre t₀ u p → Owned pre t u p
  root_sub : ∀ u, (t.node rootRef).lists u = true → (t₀.node rootRef).lists u = true
  root : ∀ u, t₀.Known u → (t₀.node rootRef).lists u = true → (t.node rootRef).lists u = true
  queued : ∀ u i, t.isLeafFor i u = true → maxSize < t.count u →
    ∃ entry ∈ pq, entry.tenant = u ∧ entry.node = i

section Evict

variable {t₀ : Tree} {maxSize : Nat} {pq rest : List EvictionEntry} {i : NodeRef} {u : TenantId}

lemma mem_leafOf : u ∈ t.leafOf order i ↔ t.isLeafFor i u = true := by
  have hkeys : ∀ j, u ∈ (t.node j).tenantLastAccessTime.keys ↔ (t.node j).lists u = true :=
    fun j => (mem_keys_iff _ u).trans lists_iff.symm
  have hbelow : u ∈ (t.childrenOf i).flatMap (fun c => (t.node c).tenantLastAccessTime.keys) ↔
      ∃ c j, t.child i c = some j ∧ (t.node j).lists u = true := by
    rw [mem_flatMap]
    constructor
    · rintro ⟨j, hj, hu⟩
      obtain ⟨c, hij⟩ := mem_childrenOf.1 hj
      exact ⟨c, j, hij, (hkeys j).1 hu⟩
    · rintro ⟨c, j, hij, hu⟩
      exact ⟨j, mem_childrenOf.2 ⟨c, hij⟩, (hkeys j).2 hu⟩
  unfold leafOf
  rw [(order.tenants_perm i _).mem_iff, ← foldl_flatMap, mem_map, isLeafFor_iff]
  constructor
  · rintro ⟨⟨v, b⟩, hmem, rfl⟩
    obtain ⟨hentry, rfl : b = true⟩ := mem_filter.1 hmem
    rw [mem_entries_iff, lookup_foldl_insert, lookup_foldl_insert] at hentry
    split_ifs at hentry with hchild hown
    · cases hentry
    · exact ⟨(hkeys i).1 hown, fun c j hij hj => hchild (hbelow.2 ⟨c, j, hij, hj⟩)⟩
    · cases hentry
  rintro ⟨hown, hnone⟩
  refine ⟨⟨u, true⟩, mem_filter.2 ⟨?_, rfl⟩, rfl⟩
  rw [mem_entries_iff, lookup_foldl_insert, lookup_foldl_insert, if_neg,
    if_pos ((hkeys i).2 hown)]
  rw [hbelow]
  rintro ⟨c, j, hij, hj⟩
  exact hnone c j hij hj

section

variable (h : WellFormed pre t) (hleaf : t.isLeafFor i u = true)
include h hleaf

lemma dropped_unlisted :
    WellFormed pre (t.dropped i u) ∧
      Unlisted (t.subChars u (t.node i).text.charCount) i u (t.dropped i u) :=
  unlist_spec (h.of_nodes rfl) hleaf

lemma count_dropped (v) :
    (t.dropped i u).count v
      = if v = u then t.count u - (t.node i).text.charCount else t.count v := by
  rw [← count_subChars]
  unfold count
  rw [(dropped_unlisted h hleaf).2.counts_eq]

lemma known_dropped (v) :
    (t.dropped i u).Known v ↔ t.Known v := by
  unfold Known
  rw [(dropped_unlisted h hleaf).2.counts_eq]
  unfold subChars
  rw [lookup_modify]
  split
  · rename_i hv
    rw [hv, Option.isSome_map]
  · rfl

end

lemma Evicted.drop (he : Evicted pre t₀ t) (hleaf : t.isLeafFor i u = true) :
    Evicted pre t₀ (t.dropped i u) := by
  obtain ⟨hwf, hun⟩ := dropped_unlisted he.wf hleaf
  refine ⟨hwf, fun v => ?_, fun v p hp => he.owned v p (hun.owned_of hp), fun v =>
    (known_dropped he.wf hleaf v).trans (he.known v)⟩
  have hsize : _ + (if v = u then (t.node i).text.charCount else 0) = t.listedSize v :=
    hun.size_eq v
  have hold := he.counted v
  rw [count_dropped he.wf hleaf]
  by_cases hv : v = u
  · rw [if_pos hv, ← hv] at hsize
    rw [if_pos hv, ← hv]
    omega
  · rw [if_neg hv] at hsize ⊢
    omega

/-- The root is not the only node of a tenant with characters. -/
lemma WellFormed.root_not_leaf (h : WellFormed pre t) (hcounted : t.Counted)
    (hcount : 0 < t.count u) : ¬ t.isLeafFor rootRef u = true := by
  intro hleaf
  have honly : ∀ j, t.Reaches j → (t.node j).lists u = true → j = rootRef := by
    intro j hj
    induction hj with
    | root => exact fun _ => rfl
    | child _ hij ih =>
      intro hu
      have hroot := ih (h.child_lists _ _ _ hij u hu)
      exact absurd hu ((isLeafFor_iff.1 hleaf).2 _ _ (hroot ▸ hij))
  have hzero : t.listedSize u = 0 := listedSize_eq_zero fun j hu => by
    rw [honly j (h.reaches hu) hu, h.root_count]
  rw [hcounted u, hzero] at hcount
  exact Nat.lt_irrefl 0 hcount

/-- A tenant that owns a text has a count. -/
lemma WellFormed.known_of_owned (h : WellFormed pre t) (hcounted : t.Counted)
    (hp : Owned pre t u p) : t.Known u := by
  obtain ⟨i, _, hu, _, _, -⟩ := hp
  have hchars : 0 < (t.node i).sizeFor u := by
    rw [sizeFor, if_pos hu, h.count_of_lists hu]
    omega
  have hsum : (t.node i).sizeFor u ≤ t.listedSize u := by
    rw [listedSize_eq_sum]
    exact le_sum_of_mem (mem_map.2 ⟨i, mem_range.2 (lt_of_lists hu), rfl⟩)
  have hcount : 0 < t.count u := by
    rw [hcounted u]
    omega
  unfold Known
  unfold count at hcount
  cases hlookup : t.tenantCharCount.lookup u with
  | none =>
    rw [hlookup] at hcount
    exact absurd hcount (Nat.lt_irrefl 0)
  | some => rfl

/-- One listing is dropped, and the parent that became a leaf is pushed. -/
lemma Evicting.drop (he : Evicting pre t₀ maxSize t pq) (hleaf : t.isLeafFor i u = true)
    (hover : t.Known u → maxSize < t.count u)
    (hrest : ∀ entry ∈ pq, (entry.tenant = u ∧ entry.node = i) ∨ entry ∈ rest) :
    Evicting pre t₀ maxSize (t.dropped i u) ((((t.dropped i u).newLeaf i u).bind
      ((t.dropped i u).evictionEntry u)).toList ++ rest) := by
  obtain ⟨-, hun⟩ := dropped_unlisted he.wf hleaf
  have hcount := count_dropped he.wf hleaf
  refine ⟨he.toEvicted.drop hleaf, he.drops.tail ⟨u, i, hleaf, hover, rfl⟩, fun v hv => ?_,
    fun v hv => he.root_sub v ((hun.lists_iff rootRef v).1 hv).1, fun v hv hlist => ?_,
    fun v j hj hlt => ?_⟩
  · obtain ⟨hsame, howned⟩ := he.kept v hv
    by_cases hvu : v = u
    · -- a tenant below the limit that is dropped has no count, and so no texts
      subst hvu
      have hunknown : ¬ t.Known v := fun hk => Nat.not_lt.2 (hsame ▸ hv) (hover hk)
      refine ⟨?_, fun p hp => absurd (he.wf.known_of_owned he.counted (howned p hp)) hunknown⟩
      have hzero : t.count v = 0 := by
        unfold count
        rw [Option.not_isSome_iff_eq_none.1 hunknown]
        rfl
      rw [hcount, if_pos rfl, ← hsame, hzero, Nat.zero_sub]
    · refine ⟨by rw [hcount, if_neg hvu, hsame], fun p hp => ?_⟩
      exact (hun.owned_other hvu p).2 (howned p hp)
  · refine (hun.lists_iff rootRef v).2 ⟨he.root v hv hlist, ?_⟩
    rintro ⟨rfl, rfl⟩
    have hlt := hover ((he.known v).2 hv)
    exact he.wf.root_not_leaf he.counted (Nat.zero_lt_of_lt hlt) hleaf
  rw [hcount] at hlt
  rcases unlist_leaf (t := t.subChars u (t.node i).text.charCount) (he.wf.of_nodes rfl) hleaf
    hj with ⟨hold, hne⟩ | ⟨rfl, hparent⟩
  · have hbefore : maxSize < t.count v := by
      by_cases hv : v = u
      · rw [if_pos hv] at hlt
        rw [hv]
        omega
      · rwa [if_neg hv] at hlt
    obtain ⟨entry, hmem, rfl, rfl⟩ := he.queued v j hold hbefore
    rcases hrest entry hmem with ⟨htenant, hnode⟩ | hin
    · exact absurd ⟨hnode, htenant⟩ hne
    · exact ⟨entry, mem_append_right _ hin, rfl, rfl⟩
  · obtain ⟨epoch, hlookup⟩ := lists_iff.1 (isLeafFor_iff.1 hj).1
    refine ⟨⟨epoch, v, j⟩, mem_append_left _ ?_, rfl, rfl⟩
    have hnew : (t.dropped i v).newLeaf i v = some j := by
      unfold newLeaf
      rw [hun.parent_eq, Option.filter_eq_some_iff]
      exact ⟨hparent, hj⟩
    rw [hnew]
    unfold evictionEntry
    rw [Option.bind_some, hlookup]
    exact mem_singleton_self _

lemma Evicting.step (he : Evicting pre t₀ maxSize t pq) (hpop : (entry :: rest).Perm pq) :
    Evicting pre t₀ maxSize (t.evictEntry maxSize entry).1
        ((t.evictEntry maxSize entry).2 ++ rest) ∧
      (t.evictEntry maxSize entry).2.length + (t.evictEntry maxSize entry).1.listings
        ≤ t.listings := by
  -- an entry that is popped without effect was not needed
  have hskip : ¬ (t.isLeafFor entry.node entry.tenant = true ∧ maxSize < t.count entry.tenant) →
      Evicting pre t₀ maxSize t ([] ++ rest) := by
    intro hno
    refine ⟨he.toEvicted, he.drops, he.kept, he.root_sub, he.root, fun u i hleaf hlt => ?_⟩
    obtain ⟨e, hmem, rfl, rfl⟩ := he.queued u i hleaf hlt
    rcases mem_cons.1 (hpop.mem_iff.2 hmem) with rfl | hin
    · exact absurd ⟨hleaf, hlt⟩ hno
    · exact ⟨e, hin, rfl, rfl⟩
  unfold evictEntry
  split
  · rename_i hsmall
    refine ⟨hskip fun h => Nat.not_le.2 h.2 ?_, Nat.le_of_eq (Nat.zero_add _)⟩
    obtain ⟨n, hn, hle⟩ := (Option.any_eq_true _ _).1 hsmall
    unfold count
    rw [hn]
    exact of_decide_eq_true hle
  rename_i hsmall
  split
  · rename_i hleaf
    have hover : t.Known entry.tenant → maxSize < t.count entry.tenant := by
      intro hknown
      obtain ⟨n, hn⟩ := Option.isSome_iff_exists.1 hknown
      rw [hn] at hsmall
      unfold count
      rw [hn]
      exact Nat.not_le.1 fun hle => hsmall (decide_eq_true hle)
    refine ⟨he.drop hleaf hover fun e hmem => ?_, ?_⟩
    · rcases mem_cons.1 (hpop.mem_iff.2 hmem) with rfl | hin
      · exact .inl ⟨rfl, rfl⟩
      · exact .inr hin
    have hdrop : (t.dropped entry.node entry.tenant).listings + 1 = t.listings :=
      (dropped_unlisted he.wf hleaf).2.listings_eq
    refine Nat.le_trans (Nat.add_le_add_right Option.length_toList_le _) ?_
    rw [Nat.add_comm]
    exact Nat.le_of_eq hdrop
  · rename_i hleaf
    exact ⟨hskip fun h => hleaf h.1, Nat.le_of_eq (Nat.zero_add _)⟩

lemma popEntry_cases (hties : ∀ l, (ties l).Perm l) (pq) :
    (popEntry ties pq = none ∧ pq = []) ∨
      ∃ entry rest, popEntry ties pq = some (entry, rest) ∧ (entry :: rest).Perm pq := by
  have hperm := (perm_sortBy (fun a b =>
    compare a.timestamp.toNat b.timestamp.toNat) (ties pq)).trans (hties pq)
  unfold popEntry
  cases hsort : sortBy (fun a b => compare a.timestamp.toNat b.timestamp.toNat) (ties pq) with
  | nil =>
    rw [hsort] at hperm
    exact .inl ⟨rfl, hperm.nil_eq.symm⟩
  | cons entry rest => exact .inr ⟨entry, rest, rfl, hsort ▸ hperm⟩

/-- Every round takes an entry from the heap, or a listing from the tree for the entry it
pushes. -/
lemma evictLoop_spec (order) : ∀ fuel t pq,
    Evicting pre t₀ maxSize t pq → pq.length + t.listings < fuel →
    ∃ t', evictLoop order maxSize fuel t pq = some t' ∧ Evicting pre t₀ maxSize t' [] := by
  intro fuel
  induction fuel with
  | zero =>
    intro t pq _ hfuel
    exact absurd hfuel (Nat.not_lt_zero _)
  | succ fuel ih =>
    intro t pq he _
    rw [evictLoop]
    rcases popEntry_cases (order.ties_perm fuel) pq with ⟨hpop, rfl⟩ | ⟨_, _, hpop, hperm⟩
    · rw [hpop]
      exact ⟨t, rfl, he⟩
    obtain ⟨henext, _⟩ := he.step hperm
    rw [hpop]
    refine ih _ _ henext ?_
    have hlen := hperm.length_eq
    rw [length_cons] at hlen
    rw [length_append]
    omega

/-- **Eviction ends, and the tenants own no more than before.** -/
lemma evictTenantBySize_spec (h : WellFormed pre t) (hcounted : t.Counted) (order maxSize) :
    ∃ t', t.evictTenantBySize order maxSize = some t' ∧ Evicting pre t maxSize t' [] := by
  obtain ⟨l, hl, -, hmem⟩ := traversal_spec h order
  unfold evictTenantBySize
  simp only [hl]
  refine evictLoop_spec order _ t _ ⟨⟨h, hcounted, fun _ _ hp => hp, fun _ => Iff.rfl⟩, .refl,
    fun u _ => ⟨rfl, fun p hp => hp⟩, fun u hu => hu, fun u _ hu => hu, fun u i hleaf _ => ?_⟩
    (Nat.lt_succ_self _)
  have hlists := (isLeafFor_iff.1 hleaf).1
  obtain ⟨epoch, hlookup⟩ := lists_iff.1 hlists
  refine ⟨⟨epoch, u, i⟩, ?_, rfl, rfl⟩
  rw [mem_flatMap]
  refine ⟨i, (hmem i).2 (h.reaches hlists), mem_filterMap.2 ⟨u, mem_leafOf.2 hleaf, ?_⟩⟩
  unfold evictionEntry
  rw [hlookup]
  rfl

/-- With an empty heap no tenant is above the limit. -/
lemma Evicting.count_le (he : Evicting pre t₀ maxSize t []) (u) :
    t.count u ≤ maxSize := by
  by_contra hlt
  by_cases hex : ∃ i, (t.node i).lists u = true
  · obtain ⟨i, hu⟩ := hex
    obtain ⟨j, hj⟩ := he.wf.exists_leaf hu
    obtain ⟨_, hmem, -⟩ := he.queued u j hj (Nat.not_le.1 hlt)
    cases hmem
  have hzero : t.listedSize u = 0 := listedSize_eq_zero fun i hu => absurd ⟨i, hu⟩ hex
  rw [he.counted u, hzero] at hlt
  exact hlt (Nat.zero_le _)

end Evict

/-! ## Removal of a tenant -/

/-- The tenant has been removed from some nodes of `t₀`; the leaves that are left of it
are in the queue. -/
structure Removing (pre : NodeRef → Text) (t₀ : Tree) (u : TenantId) (t : Tree)
    (queue : List NodeRef) : Prop where
  wf : WellFormed pre t
  nodup : queue.Nodup
  mem_queue : ∀ i, i ∈ queue ↔ t.isLeafFor i u = true
  owned : ∀ v, v ≠ u → ∀ p, Owned pre t v p ↔ Owned pre t₀ v p
  lists : ∀ v, v ≠ u → ∀ i, (t.node i).lists v = true ↔ (t₀.node i).lists v = true
  size_eq : ∀ v, v ≠ u → t.listedSize v = t₀.listedSize v
  counts_eq : t.tenantCharCount = t₀.tenantCharCount

section Remove

variable {t₀ : Tree} {u : TenantId}

/-- One round of the removal. -/
lemma Removing.step (hr : Removing pre t₀ u t (curr :: queue)) :
    Removing pre t₀ u (t.unlist curr u)
      (queue ++ ((t.unlist curr u).newLeaf curr u).toList) ∧
    (t.unlist curr u).listings + 1 = t.listings := by
  have hleaf : t.isLeafFor curr u = true := (hr.mem_queue curr).1 mem_cons_self
  obtain ⟨hcurr, _⟩ := isLeafFor_iff.1 hleaf
  obtain ⟨hwf, hun⟩ := unlist_spec hr.wf hleaf
  obtain ⟨hnotin, hnodup⟩ := nodup_cons.1 hr.nodup
  have hnew : ∀ i, i ∈ ((t.unlist curr u).newLeaf curr u).toList ↔
      (t.node curr).parent = some i ∧ (t.unlist curr u).isLeafFor i u = true := by
    intro i
    unfold newLeaf
    rw [Option.mem_toList, Option.filter_eq_some_iff, hun.parent_eq]
  -- the parent of `curr` was not a leaf
  have hparent : ∀ i, (t.node curr).parent = some i → ¬ t.isLeafFor i u = true := by
    intro i hi hleafi
    have hne : curr ≠ rootRef := by
      rintro rfl
      rw [hr.wf.root_parent] at hi
      cases hi
    obtain ⟨p, c, hlink⟩ := hr.wf.linked curr u hne hcurr
    rw [hr.wf.child_parent p c curr hlink] at hi
    cases hi
    exact (isLeafFor_iff.1 hleafi).2 c curr hlink hcurr
  refine ⟨⟨hwf, ?_, fun i => ?_, fun v hv p => ?_, fun v hv i => ?_, fun v hv => ?_, ?_⟩,
    hun.listings_eq⟩
  · refine nodup_append.2 ⟨hnodup, ?_, ?_⟩
    · cases (t.unlist curr u).newLeaf curr u with
      | none => exact nodup_nil
      | some i => exact nodup_singleton i
    · rintro i hi j hj rfl
      exact hparent i ((hnew i).1 hj).1 ((hr.mem_queue i).1 (mem_cons_of_mem _ hi))
  · rw [mem_append, hnew]
    constructor
    · rintro (hi | ⟨-, hi⟩)
      · have hne : i ≠ curr := fun heq => hnotin (heq ▸ hi)
        obtain ⟨hlist, hchildren⟩ := isLeafFor_iff.1 ((hr.mem_queue i).1 (mem_cons_of_mem _ hi))
        refine isLeafFor_iff.2 ⟨(hun.lists_iff i u).2 ⟨hlist, fun h => hne h.1⟩, ?_⟩
        intro c j hij hj
        exact hchildren c j (hun.child_sub i c j hij) ((hun.lists_iff j u).1 hj).1
      · exact hi
    intro hi
    rcases unlist_leaf hr.wf hleaf hi with ⟨hwas, hne⟩ | ⟨-, hpar⟩
    · rcases mem_cons.1 ((hr.mem_queue i).2 hwas) with heq | hmem
      · exact absurd ⟨heq, rfl⟩ hne
      · exact .inl hmem
    · exact .inr ⟨hpar, hi⟩
  · rw [hun.owned_other hv, hr.owned v hv]
  · rw [hun.lists_iff, hr.lists v hv]
    exact and_iff_left fun h => hv h.2
  · have hsize := hun.size_eq v
    rw [if_neg hv, Nat.add_zero] at hsize
    rw [hsize, hr.size_eq v hv]
  · rw [hun.counts_eq, hr.counts_eq]

lemma removeLoop_spec : ∀ fuel t queue,
    Removing pre t₀ u t queue → queue.length + t.listings < fuel →
    ∃ t', removeLoop u fuel t queue = some t' ∧ Removing pre t₀ u t' [] := by
  intro fuel
  induction fuel with
  | zero =>
    intro _ _ _ hfuel
    exact absurd hfuel (Nat.not_lt_zero _)
  | succ _ ih =>
    intro t queue hr hfuel
    cases queue with
    | nil => exact ⟨t, rfl, hr⟩
    | cons curr =>
      obtain ⟨hnext, _⟩ := hr.step
      refine ih _ _ hnext ?_
      have hone : ((t.unlist curr u).newLeaf curr u).toList.length ≤ 1 := Option.length_toList_le
      rw [length_cons] at hfuel
      rw [length_append]
      omega

/-- `t` is `t₀` without the tenant `u`. -/
structure Removed (pre : NodeRef → Text) (t₀ : Tree) (u : TenantId) (t : Tree) : Prop where
  wf : WellFormed pre t
  counted : t.Counted
  unlisted : ∀ i, ¬ (t.node i).lists u = true
  owned : ∀ v, v ≠ u → ∀ p, Owned pre t v p ↔ Owned pre t₀ v p
  lists : ∀ v, v ≠ u → ∀ i, (t.node i).lists v = true ↔ (t₀.node i).lists v = true
  known : ∀ v, t.Known v ↔ t₀.Known v ∧ v ≠ u

/-- **`remove_tenant` ends, and nothing is left of the tenant.** -/
lemma removeTenant_spec (h : WellFormed pre t) (hcounted : t.Counted) (order u) :
    ∃ t', t.removeTenant order u = some t' ∧ Removed pre t u t' := by
  obtain ⟨l, hl, hnodup, hmem⟩ := traversal_spec h order
  unfold removeTenant
  simp only [hl, Option.bind_eq_bind]
  have hstart : Removing pre t u t (l.filter fun i => t.isLeafFor i u) := by
    refine ⟨h, hnodup.filter _, fun i => ?_, fun _ _ _ => Iff.rfl, fun _ _ _ => Iff.rfl,
      fun _ _ => rfl, rfl⟩
    rw [mem_filter, hmem]
    exact ⟨And.right, fun hi => ⟨h.reaches (isLeafFor_iff.1 hi).1, hi⟩⟩
  obtain ⟨t', hloop, hr⟩ := removeLoop_spec _ t _ hstart (Nat.lt_succ_self _)
  simp only [hloop, Option.bind_some]
  have hunlisted : ∀ i, ¬ (t'.node i).lists u = true := by
    intro i hi
    obtain ⟨j, hj⟩ := hr.wf.exists_leaf hi
    cases (hr.mem_queue j).2 hj
  refine ⟨_, rfl, hr.wf.of_nodes rfl, fun v => ?_, hunlisted, hr.owned, hr.lists, fun v => ?_⟩
  · show (((t'.tenantCharCount.erase u).lookup v).getD 0) = t'.listedSize v
    rw [lookup_erase_eq, hr.counts_eq]
    by_cases hv : v = u
    · rw [if_pos hv, hv, listedSize_eq_zero fun i hi => absurd hi (hunlisted i)]
      rfl
    · rw [if_neg hv, hr.size_eq v hv]
      exact hcounted v
  show ((t'.tenantCharCount.erase u).lookup v).isSome = true ↔ _
  rw [lookup_erase_eq, hr.counts_eq]
  by_cases hv : v = u
  · simp [hv]
  · simp only [hv, ne_eq, not_false_eq_true, and_true]
    rfl

end Remove

end VllmRouter.PrefixTree.Tree
