import VllmRouter.KvIndex.Tree

/-!
# Every edit keeps the heap well formed

`WellFormed` needs no assumption on the keys that are stored, so everything
here holds for any engine, also one that reuses a sequence hash for two
different blocks. For each edit there are two facts: the heap stays well
formed, and the active and known keys change as stated.
-/

namespace VllmRouter.KvIndex

open List EdgeBlock

namespace GroupShard

variable {sh : GroupShard} {node : NodeRef}

/-- A node with a block in its edge is not the root. -/
lemma WellFormed.ne_root (hwf : WellFormed sh) {idx : Nat} (hn : sh.nodes[node]? = some n)
    (hb : n.edge[idx]? = some b) : node ≠ rootRef := by
  rintro rfl
  obtain ⟨r, hr, hedge⟩ := hwf.root
  rw [hr] at hn
  cases hn
  rw [hedge] at hb
  cases hb

lemma WellFormed.child_lt (hwf : WellFormed sh) (hn : sh.nodes[node]? = some n)
    (hc : n.children.lookup h = some c) : c < sh.nodes.length := by
  obtain ⟨m, hm, -⟩ := hwf.child node n h c hn hc
  exact lt_length_of_getElem? hm

/-! ## Splitting -/

section Split

variable {c : TreeNode} {b : EdgeBlock}

lemma split_active (h k s) :
    (sh.split node c pos h).Active k s ↔ sh.Active k s := Iff.rfl

lemma split_anchors (h s) : (sh.split node c pos h).anchors.lookup s
      = if s ∈ (c.edge.drop pos).flatMap aliases then some sh.nodes.length
        else sh.anchors.lookup s :=
  lookup_reanchor _ _ _ _

/-- The aliases of a split node's remainder are those of its blocks from `pos`
on. -/
lemma mem_drop_aliases {edge : List EdgeBlock} : s ∈ (edge.drop pos).flatMap aliases
      ↔ ∃ idx b, pos ≤ idx ∧ edge[idx]? = some b ∧ s ∈ b.aliases := by
  rw [mem_flatMap]
  constructor
  · rintro ⟨b, hb, hs⟩
    obtain ⟨k, hk⟩ := mem_iff_getElem?.1 hb
    rw [getElem?_drop] at hk
    exact ⟨pos + k, b, Nat.le_add_right _ _, hk, hs⟩
  rintro ⟨idx, b, hle, hb, hs⟩
  refine ⟨b, mem_iff_getElem?.2 ⟨idx - pos, ?_⟩, hs⟩
  rw [getElem?_drop, Nat.add_sub_cancel' hle]
  exact hb

/-- An old node is still there after a split and starts with the same block. -/
lemma split_head (hc : sh.nodes[node]? = some c) (hpos : 0 < pos) (h) {j : NodeRef}
    (hm : sh.nodes[j]? = some m) :
    ∃ m', (sh.split node c pos h).nodes[j]? = some m' ∧ m'.locals.head? = m.locals.head? := by
  rw [split_nodes hc]
  by_cases hj : j = node
  · subst hj
    rw [hc] at hm
    cases hm
    refine ⟨_, if_pos rfl, ?_⟩
    show ((c.edge.take pos).map localHash).head? = _
    rw [map_take, head?_take, if_neg hpos.ne']
    rfl
  · have hlt := lt_length_of_getElem? hm
    exact ⟨m, by rw [if_neg hj, if_neg hlt.ne, hm], rfl⟩

lemma split_known (hwf : WellFormed sh) (hc : sh.nodes[node]? = some c) (h s) :
    (sh.split node c pos h).Known s ↔ sh.Known s := by
  have hal : s ∈ (c.edge.drop pos).flatMap aliases → sh.Known s := by
    intro hs
    obtain ⟨idx, b, -, hb, hmem⟩ := mem_drop_aliases.1 hs
    exact hwf.alias_known node c idx b s hc hb hmem
  unfold Known at *
  rw [split_anchors]
  by_cases hs : s ∈ (c.edge.drop pos).flatMap aliases
  · simp [hs, hal hs]
  · simp [hs]

lemma wellFormed_split (hwf : WellFormed sh) (hc : sh.nodes[node]? = some c) (hpos : 0 < pos)
    (hb : c.edge[pos]? = some b) :
    WellFormed (sh.split node c pos b.localHash) where
  root := by
    obtain ⟨r, hr, hedge⟩ := hwf.root
    have hne := hwf.ne_root hc hb
    refine ⟨r, ?_, hedge⟩
    rw [split_nodes hc, if_neg hne.symm, if_neg (lt_length_of_getElem? hr).ne, hr]
  claims_length i n hn := by
    have hlen := hwf.claims_length node c hc
    rw [split_nodes hc] at hn
    split at hn
    · cases hn
      simp [splitKept, hlen]
    split at hn
    · cases hn
      simp [hlen]
    · exact hwf.claims_length i n hn
  child i n h k hn hk := by
    -- the children of the old node `j`, wherever they hang now
    have hold : ∀ (j : NodeRef) (m : TreeNode), sh.nodes[j]? = some m →
        m.children.lookup h = some k →
        ∃ m', (sh.split node c pos b.localHash).nodes[k]? = some m' ∧
          m'.locals.head? = some h := by
      intro j m hm hmk
      obtain ⟨m0, hm0, hhead⟩ := hwf.child j m h k hm hmk
      obtain ⟨m', hm', heq⟩ := split_head hc hpos b.localHash hm0
      exact ⟨m', hm', heq.trans hhead⟩
    rw [split_nodes hc] at hn
    split at hn
    · -- the kept half has one child, the remainder
      cases hn
      have hk' : ((∅ : Dict Hash NodeRef).insert b.localHash sh.nodes.length).lookup h
          = some k := hk
      rw [Dict.lookup_insert_eq] at hk'
      split at hk'
      · next heq =>
        cases hk'
        have hlt := lt_length_of_getElem? hc
        refine ⟨⟨c.edge.drop pos, c.claims.drop pos, c.children⟩, ?_, ?_⟩
        · rw [split_nodes hc, if_neg hlt.ne', if_pos rfl]
        show ((c.edge.drop pos).map localHash).head? = some h
        rw [head?_map, head?_drop, hb, heq]
        rfl
      · cases hk'
    · split at hn
      · cases hn
        exact hold node c hc hk
      · exact hold i n hn hk
  anchored s i hs := by
    have hlt := lt_length_of_getElem? hc
    rw [split_anchors] at hs
    split at hs
    · next hmem =>
      cases hs
      obtain ⟨idx, b', hle, hb', hs'⟩ := mem_drop_aliases.1 hmem
      refine ⟨⟨c.edge.drop pos, c.claims.drop pos, c.children⟩, idx - pos, b', ?_, ?_, hs'⟩
      · rw [split_nodes hc, if_neg hlt.ne', if_pos rfl]
      show (c.edge.drop pos)[idx - pos]? = some b'
      rw [getElem?_drop, Nat.add_sub_cancel' hle]
      exact hb'
    next hmem =>
    obtain ⟨n, idx, b', hn, hb', hs'⟩ := hwf.anchored s i hs
    by_cases hi : i = node
    · subst hi
      rw [hc] at hn
      cases hn
      have hidx : idx < pos := by
        refine Nat.lt_of_not_le fun hle => hmem ?_
        exact mem_drop_aliases.2 ⟨idx, b', hle, hb', hs'⟩
      refine ⟨sh.splitKept c pos b.localHash, idx, b', ?_, ?_, hs'⟩
      · rw [split_nodes hc, if_pos rfl]
      show (c.edge.take pos)[idx]? = some b'
      rw [getElem?_take, if_pos hidx]
      exact hb'
    · have hi' := lt_length_of_getElem? hn
      exact ⟨n, idx, b', by rw [split_nodes hc, if_neg hi, if_neg hi'.ne, hn],
        hb', hs'⟩
  alias_known i n idx b' s hn hb' hs := by
    rw [split_known hwf hc]
    rw [split_nodes hc] at hn
    split at hn
    · cases hn
      have hb'' : (c.edge.take pos)[idx]? = some b' := hb'
      rw [getElem?_take] at hb''
      split at hb''
      · exact hwf.alias_known node c idx b' s hc hb'' hs
      · cases hb''
    split at hn
    · cases hn
      have hb'' : (c.edge.drop pos)[idx]? = some b' := hb'
      rw [getElem?_drop] at hb''
      exact hwf.alias_known node c (pos + idx) b' s hc hb'' hs
    · exact hwf.alias_known i n idx b' s hn hb' hs
  claimed_known k s hs := (split_known hwf hc _ s).2 (hwf.claimed_known k s hs)

end Split

/-! ## Attaching -/

section Attach

variable {h : Hash} {locals : List Hash}

lemma attach_known (s) : (sh.attach node parent h locals).Known s ↔ sh.Known s := Iff.rfl

lemma attach_active (k s) :
    (sh.attach node parent h locals).Active k s ↔ sh.Active k s := Iff.rfl

/-- An old node keeps its edge when a child is attached somewhere. -/
lemma attach_edge (hp : sh.nodes[node]? = some parent) {j : NodeRef}
    (hm : sh.nodes[j]? = some m) :
    ∃ m', (sh.attach node parent h locals).nodes[j]? = some m' ∧ m'.edge = m.edge := by
  rw [attach_nodes hp]
  by_cases hj : j = node
  · subst hj
    rw [hp] at hm
    cases hm
    exact ⟨_, if_pos rfl, rfl⟩
  · exact ⟨m, by rw [if_neg hj, if_neg (lt_length_of_getElem? hm).ne, hm], rfl⟩

lemma wellFormed_attach (hwf : WellFormed sh) (hp : sh.nodes[node]? = some parent)
    (hhead : locals.head? = some h) : WellFormed (sh.attach node parent h locals) where
  root := by
    obtain ⟨r, hr, hedge⟩ := hwf.root
    obtain ⟨m', hm', heq⟩ := attach_edge hp hr
    exact ⟨m', hm', heq.trans hedge⟩
  claims_length i n hn := by
    rw [attach_nodes hp] at hn
    split at hn
    · cases hn
      exact hwf.claims_length node parent hp
    split at hn
    · cases hn
      simp [blankNode]
    · exact hwf.claims_length i n hn
  child i n h' k hn hk := by
    have hold : ∀ (j : NodeRef) (m : TreeNode), sh.nodes[j]? = some m →
        m.children.lookup h' = some k →
        ∃ m', (sh.attach node parent h locals).nodes[k]? = some m' ∧
          m'.locals.head? = some h' := by
      intro j m hm hmk
      obtain ⟨m0, hm0, hhead0⟩ := hwf.child j m h' k hm hmk
      obtain ⟨m', hm', heq⟩ := attach_edge hp hm0
      refine ⟨m', hm', ?_⟩
      unfold TreeNode.locals at *
      rw [heq, hhead0]
    rw [attach_nodes hp] at hn
    split at hn
    · cases hn
      have hk' : (parent.children.insert h sh.nodes.length).lookup h' = some k := hk
      rw [Dict.lookup_insert_eq] at hk'
      split at hk'
      · next heq =>
        cases hk'
        have hlt := lt_length_of_getElem? hp
        refine ⟨blankNode locals, ?_, ?_⟩
        · rw [attach_nodes hp, if_neg hlt.ne', if_pos rfl]
        · simp [blankNode, TreeNode.locals, hhead, heq]
      · exact hold node parent hp hk'
    · split at hn
      · cases hn
        cases hk
      · exact hold i n hn hk
  anchored s i hs := by
    obtain ⟨n, idx, b, hn, hb, hmem⟩ := hwf.anchored s i hs
    obtain ⟨m', hm', heq⟩ := attach_edge hp hn
    exact ⟨m', idx, b, hm', heq ▸ hb, hmem⟩
  alias_known i n idx b s hn hb hs := by
    rw [attach_nodes hp] at hn
    split at hn
    · cases hn
      exact hwf.alias_known node parent idx b s hp hb hs
    split at hn
    · -- the attached run carries no alias
      cases hn
      have hb' : (locals.map fun l => EdgeBlock.mk [] l)[idx]? = some b := hb
      rw [getElem?_map] at hb'
      obtain ⟨l, -, rfl⟩ := Option.map_eq_some_iff.1 hb'
      cases hs
    · exact hwf.alias_known i n idx b s hn hb hs
  claimed_known k s hs := hwf.claimed_known k s hs

end Attach

/-! ## Recording -/

section Record

variable {n : TreeNode} {i : Nat} {b : EdgeBlock} {cl : List OwnerTier} {key : OwnerTier}
  {seq : Hash}

/-- A block of the recorded node: the recorded one gains `seq`, the others are
unchanged. -/
lemma recordNode_edge (hb : n.edge[i]? = some b) (idx : Nat) :
    (recordNode n i b cl key seq).edge[idx]?
      = if idx = i then some { b with aliases := b.aliases.insert seq } else n.edge[idx]? := by
  show (n.edge.set i _)[idx]? = _
  rw [List.getElem?_set]
  by_cases h : i = idx
  · subst h
    simp [(List.getElem?_eq_some_iff.1 hb).1]
  · rw [if_neg h, if_neg (Ne.symm h)]

/-- Old aliases survive a record. -/
lemma record_alias (hn : sh.nodes[node]? = some n) (hb : n.edge[i]? = some b) {j : NodeRef}
    {m : TreeNode} {idx : Nat} {b' : EdgeBlock} {s : Hash} (hm : sh.nodes[j]? = some m)
    (hb' : m.edge[idx]? = some b') (hs : s ∈ b'.aliases) :
    ∃ m' b'',
      (sh.record node n i b cl key seq).nodes[j]? = some m' ∧ m'.edge[idx]? = some b'' ∧
        s ∈ b''.aliases := by
  rw [record_nodes hn]
  by_cases hj : j = node
  · subst hj
    rw [hn] at hm
    cases hm
    by_cases hi : idx = i
    · subst hi
      rw [hb] at hb'
      cases hb'
      exact ⟨_, _, if_pos rfl, by rw [recordNode_edge hb, if_pos rfl], mem_insert_of_mem hs⟩
    · exact ⟨_, b', if_pos rfl, by rw [recordNode_edge hb, if_neg hi, hb'], hs⟩
  · exact ⟨m, b', by rw [if_neg hj, hm], hb', hs⟩

lemma wellFormed_record (hwf : WellFormed sh) (hn : sh.nodes[node]? = some n)
    (hb : n.edge[i]? = some b) : WellFormed (sh.record node n i b cl key seq) where
  root := by
    obtain ⟨r, hr, hedge⟩ := hwf.root
    have hne := hwf.ne_root hn hb
    exact ⟨r, by rw [record_nodes hn, if_neg hne.symm, hr], hedge⟩
  claims_length j m hm := by
    rw [record_nodes hn] at hm
    split at hm
    · cases hm
      simp [recordNode, hwf.claims_length node n hn]
    · exact hwf.claims_length j m hm
  child j m h k hm hk := by
    have hlocals : ∀ m0, sh.nodes[k]? = some m0 →
        ∃ m', (sh.record node n i b cl key seq).nodes[k]? = some m' ∧
          m'.locals = m0.locals := by
      intro m0 hm0
      rw [record_nodes hn]
      by_cases hk' : k = node
      · subst hk'
        rw [hn] at hm0
        cases hm0
        exact ⟨_, if_pos rfl, recordNode_locals cl key seq hb⟩
      · exact ⟨m0, by rw [if_neg hk', hm0], rfl⟩
    have hold : ∃ (j' : NodeRef) (m1 : TreeNode),
        sh.nodes[j']? = some m1 ∧ m1.children.lookup h = some k := by
      rw [record_nodes hn] at hm
      split at hm
      · cases hm
        exact ⟨node, n, hn, hk⟩
      · exact ⟨j, m, hm, hk⟩
    obtain ⟨j', m1, hm1, hk1⟩ := hold
    obtain ⟨m0, hm0, hhead⟩ := hwf.child j' m1 h k hm1 hk1
    obtain ⟨m', hm', heq⟩ := hlocals m0 hm0
    exact ⟨m', hm', heq ▸ hhead⟩
  anchored s j hs := by
    have hs' : (sh.anchors.insert seq node).lookup s = some j := hs
    rw [Dict.lookup_insert_eq] at hs'
    split at hs'
    · next heq =>
      cases hs'
      refine ⟨_, i, _, by rw [record_nodes hn, if_pos rfl],
        by rw [recordNode_edge hb, if_pos rfl], ?_⟩
      rw [heq]
      exact mem_insert_self
    obtain ⟨m, idx, b', hm, hb', hmem⟩ := hwf.anchored s j hs'
    obtain ⟨m', b'', hm', hb'', hmem'⟩ :=
      @record_alias sh node n i b cl key seq hn hb j m idx b' s hm hb' hmem
    exact ⟨m', idx, b'', hm', hb'', hmem'⟩
  alias_known j m idx b' s hm hb' hs := by
    rw [record_known]
    rw [record_nodes hn] at hm
    split at hm
    · cases hm
      rw [recordNode_edge hb] at hb'
      split at hb'
      · cases hb'
        rcases mem_insert_iff.1 hs with rfl | hs
        · exact .inr rfl
        · exact .inl (hwf.alias_known node n i b s hn hb hs)
      · exact .inl (hwf.alias_known node n idx b' s hn hb' hs)
    · exact .inl (hwf.alias_known j m idx b' s hm hb' hs)
  claimed_known k s hs := by
    rw [record_known]
    rcases (record_active n i b cl key seq k s).1 hs with hs | ⟨-, rfl⟩
    · exact .inl (hwf.claimed_known k s hs)
    · exact .inr rfl

end Record

/-! ## Removing -/

/-- Delete `seq` from the reverse entry of `key`. -/
def forget (sh : GroupShard) (key : OwnerTier) (seq : Hash) : GroupShard :=
  { sh with
    reverse := sh.reverse.modify key fun seqs => seqs.filter fun s => decide (s ≠ seq) }

/-- Delete `key` from the claims `cl` of block `idx` of `node`. -/
def unclaim (sh : GroupShard) (node : NodeRef) (n : TreeNode) (idx : Nat)
    (cl : List OwnerTier) (key : OwnerTier) : GroupShard :=
  sh.write node
    { n with claims := n.claims.set idx (cl.filter fun c => decide (c ≠ key)) }

lemma forget_active (key seq k s) :
    (sh.forget key seq).Active k s ↔ sh.Active k s ∧ ¬ (k = key ∧ s = seq) := by
  show s ∈ ((sh.reverse.modify key _).lookup k).getD [] ↔ _
  rw [Dict.lookup_modify]
  unfold Active
  by_cases hk : k = key
  · subst hk
    cases sh.reverse.lookup k <;> simp
  · simp [hk]

/-- Up to the counts, `removeSeq` forgets the key and then cleans the claim up. -/
lemma removeSeq_eq (h : (sh.forget key seq).removeClaim seq key = some sh1) :
    ∃ counts, removeSeq key sh seq = some { sh1 with counts := counts } := by
  unfold forget at h
  unfold removeSeq
  simp only [h]
  split
  · exact ⟨_, rfl⟩
  · exact ⟨sh1.counts, rfl⟩

/-- `removeClaim` on a key that resolves to block `idx` of `node`. -/
lemma removeClaim_eq {node : NodeRef} {n : TreeNode} {idx : Nat} {b : EdgeBlock}
    {cl : List OwnerTier} {seq : Hash} (key) (hnode : sh.anchors.lookup seq = some node)
    (hn : sh.nodes[node]? = some n) (hidx : aliasPos n.edge seq = some idx)
    (hb : n.edge[idx]? = some b) (hcl : n.claims[idx]? = some cl) :
    ((∃ a ∈ b.aliases, sh.Active key a) ∧ sh.removeClaim seq key = some sh) ∨
      ((∀ a ∈ b.aliases, ¬ sh.Active key a) ∧
        sh.removeClaim seq key = some (sh.unclaim node n idx cl key)) := by
  by_cases hany : b.aliases.any fun a => decide (a ∈ (sh.reverse.lookup key).getD [])
  · obtain ⟨a, ha, hact⟩ := any_eq_true.1 hany
    rw [decide_eq_true_eq] at hact
    refine .inl ⟨⟨a, ha, hact⟩, ?_⟩
    simp only [removeClaim, hnode, hn, hidx, hb, Option.bind_eq_bind, Option.bind_some, if_pos hany]
  refine .inr ⟨fun a ha hact => hany ?_, ?_⟩
  · rw [any_eq_true]
    exact ⟨a, ha, by rw [decide_eq_true_eq]; exact hact⟩
  simp only [removeClaim, hnode, hn, hidx, hb, hcl, Option.bind_eq_bind, Option.bind_some,
    if_neg hany]
  rfl

/-- What removing one sequence hash does. The anchors stay; the reverse entry
goes; the claim on the block goes with the last active alias of the block. -/
lemma removeSeq_cases (hwf : WellFormed sh) (key seq) :
    ∃ sh', removeSeq key sh seq = some sh' ∧ sh'.anchors = sh.anchors ∧
      (∀ k s, sh'.Active k s ↔ sh.Active k s ∧ ¬ (k = key ∧ s = seq)) ∧
      ((¬ sh.Known seq ∧ sh'.nodes = sh.nodes) ∨
        ∃ node n idx b,
          sh.nodes[node]? = some n ∧ n.edge[idx]? = some b ∧ seq ∈ b.aliases ∧
          (((∃ a ∈ b.aliases, sh'.Active key a) ∧ sh'.nodes = sh.nodes) ∨
            ∃ cl, (∀ a ∈ b.aliases, ¬ sh'.Active key a) ∧ n.claims[idx]? = some cl ∧
              sh'.nodes = (sh.unclaim node n idx cl key).nodes)) := by
  cases hnode : sh.anchors.lookup seq with
  | none =>
    have hclaim : (sh.forget key seq).removeClaim seq key = some (sh.forget key seq) := by
      simp [removeClaim, forget, hnode]
    obtain ⟨_, hrun⟩ := removeSeq_eq hclaim
    refine ⟨_, hrun, rfl, forget_active key seq, .inl ⟨?_, rfl⟩⟩
    unfold Known
    simp [hnode]
  | some node =>
    obtain ⟨n, _, _, hn, hb0, hs0⟩ := hwf.anchored seq node hnode
    obtain ⟨idx, hidx⟩ := aliasPos_exists hb0 hs0
    obtain ⟨b, hb, hs⟩ := aliasPos_some hidx
    have hlt := (List.getElem?_eq_some_iff.1 hb).1
    have hcl := List.getElem?_eq_getElem
      ((hwf.claims_length node n hn).symm ▸ hlt : idx < n.claims.length)
    rcases @removeClaim_eq (sh.forget key seq) node n idx b _ seq key hnode hn hidx hb hcl with
      ⟨hact, hclaim⟩ | ⟨hact, hclaim⟩
    · obtain ⟨_, hrun⟩ := removeSeq_eq hclaim
      exact ⟨_, hrun, rfl, forget_active key seq,
        .inr ⟨node, n, idx, b, hn, hb, hs, .inl ⟨hact, rfl⟩⟩⟩
    obtain ⟨_, hrun⟩ := removeSeq_eq hclaim
    exact ⟨_, hrun, rfl, forget_active key seq,
      .inr ⟨node, n, idx, b, hn, hb, hs, .inr ⟨_, hact, hcl, rfl⟩⟩⟩

/-- Shards whose nodes differ only in their claims are equally well formed. -/
lemma WellFormed.of_claims (hwf : WellFormed sh) (hanchors : sh'.anchors = sh.anchors)
    (hactive : ∀ k s, sh'.Active k s → sh.Active k s)
    (hnodes : ∀ j : NodeRef, sh'.nodes[j]? = sh.nodes[j]? ∨
      ∃ n n', sh.nodes[j]? = some n ∧ sh'.nodes[j]? = some n' ∧
        n'.edge = n.edge ∧ n'.children = n.children ∧ n'.claims.length = n.claims.length) :
    WellFormed sh' := by
  -- both directions of the correspondence, node by node
  have hto : ∀ (j : NodeRef) (n : TreeNode), sh.nodes[j]? = some n →
      ∃ n', sh'.nodes[j]? = some n' ∧ n'.edge = n.edge := by
    intro j n hn
    rcases hnodes j with h | ⟨m, m', hm, hm', he, -, -⟩
    · exact ⟨n, h.trans hn, rfl⟩
    rw [hm] at hn
    cases hn
    exact ⟨m', hm', he⟩
  have hfrom : ∀ (j : NodeRef) (n' : TreeNode), sh'.nodes[j]? = some n' →
      ∃ n, sh.nodes[j]? = some n ∧ n'.edge = n.edge ∧ n'.children = n.children ∧
        n'.claims.length = n.claims.length := by
    intro j n' hn'
    rcases hnodes j with h | ⟨m, m', hm, hm', he, hc, hl⟩
    · exact ⟨n', h ▸ hn', rfl, rfl, rfl⟩
    rw [hm'] at hn'
    cases hn'
    exact ⟨m, hm, he, hc, hl⟩
  have hknown : ∀ s, sh'.Known s ↔ sh.Known s := fun s => by
    unfold Known
    rw [hanchors]
  constructor
  · obtain ⟨r, hr, hedge⟩ := hwf.root
    obtain ⟨r', hr', he⟩ := hto _ r hr
    exact ⟨r', hr', he.trans hedge⟩
  · intro j n' hn'
    obtain ⟨n, hn, he, -, hl⟩ := hfrom j n' hn'
    rw [he, hl]
    exact hwf.claims_length j n hn
  · intro j n' h k hn' hk
    obtain ⟨n, hn, -, hc, -⟩ := hfrom j n' hn'
    obtain ⟨m, hm, hhead⟩ := hwf.child j n h k hn (hc ▸ hk)
    obtain ⟨m', hm', he⟩ := hto k m hm
    refine ⟨m', hm', ?_⟩
    unfold TreeNode.locals at *
    rw [he, hhead]
  · intro s j hs
    obtain ⟨n, idx, b, hn, hb, hmem⟩ := hwf.anchored s j (hanchors ▸ hs)
    obtain ⟨n', hn', he⟩ := hto j n hn
    exact ⟨n', idx, b, hn', he ▸ hb, hmem⟩
  · intro j n' idx b s hn' hb hs
    obtain ⟨n, hn, he, -, -⟩ := hfrom j n' hn'
    exact (hknown s).2 (hwf.alias_known j n idx b s hn (he ▸ hb) hs)
  · exact fun k s hs => (hknown s).2 (hwf.claimed_known k s (hactive k s hs))

end GroupShard

end VllmRouter.KvIndex
