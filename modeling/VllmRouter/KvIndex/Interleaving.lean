import VllmRouter.KvIndex.Atomic
import VllmRouter.KvIndex.Representation

/-!
# What the atomic steps keep

Between the steps of a `remove` the claims of a block are not exact: the
sequence hash has left `reverse`, and the block still carries the claim. The
*settled* shard puts the hash back until the block has been cleaned up. It has
the nodes and anchors of the real one, so the representation of
`KvIndex.Representation` can be kept for it through every step.

- `Shadows pend sh v`: `v` is the settled shard of `sh`, where `pend` are the
  hashes that a running `remove` has taken out of `reverse` and not yet cleaned
  up.
- `Grows`: what a step of another thread can do to a node reference that is held
  across it. The path of a node never changes, its first block stays, and an
  anchor moves only down.
- `Storing`: what the edits of one section of a `store` have done so far.
- `Follows`, `Retried`: how often an anchor that was moved has been resolved
  again. A node that lost the alias passed it further down, so the path of the
  next anchor is longer each time.
-/

namespace VllmRouter.KvIndex

open List Option

variable {c parent n : TreeNode}

namespace GroupShard

variable {path : Hash → List Hash} {pre pre₁ pre' pre'' : NodeRef → List Hash}
  {sh sh₁ v v₁ v' v'' : GroupShard} {pend : OwnerTier → Hash → Prop} {node : NodeRef}

/-! ## The settled shard -/

/-- `v` is `sh` with the hashes that are still to be cleaned up. -/
structure Shadows (pend : OwnerTier → Hash → Prop) (sh v : GroupShard) : Prop where
  nodes : v.nodes = sh.nodes
  anchors : v.anchors = sh.anchors
  active : ∀ k s, sh.Active k s ↔ v.Active k s ∧ ¬ pend k s

section

variable (h : Shadows pend sh v)
include h

lemma Shadows.wf (hwf : WellFormed v) : WellFormed sh :=
  hwf.of_claims h.anchors.symm (fun k s hs => ((h.active k s).1 hs).1)
    fun j => .inl (by rw [h.nodes])

/-- A split does the same to both shards. -/
lemma Shadows.split (c pos x) :
    Shadows pend (sh.split node c pos x) (v.split node c pos x) where
  nodes := by simp only [GroupShard.split, GroupShard.write, splitOff, splitKept, h.nodes]
  anchors := by simp only [GroupShard.split, GroupShard.write, splitOff, h.nodes, h.anchors]
  active := h.active

lemma Shadows.attach (parent x locals) :
    Shadows pend (sh.attach node parent x locals) (v.attach node parent x locals) where
  nodes := by simp only [GroupShard.attach, h.nodes]
  anchors := h.anchors
  active := h.active

/-- A record does the same to both when its hash is not to be cleaned up. -/
lemma Shadows.record (n i b cl) (hpend : ¬ pend key seq) :
    Shadows pend (sh.record node n i b cl key seq) (v.record node n i b cl key seq) where
  nodes := by simp only [GroupShard.record, GroupShard.write, recordMaps, h.nodes]
  anchors := by simp only [GroupShard.record, GroupShard.write, recordMaps, h.anchors]
  active k s := by
    rw [record_active, record_active, h.active, or_and_right]
    refine or_congr_right (iff_self_and.2 ?_)
    rintro ⟨rfl, rfl⟩
    exact hpend

end

/-! ## What other threads see of a step -/

/-- A node reference that is held across a step still leads to the same path and
starts with the same block. An anchor that moves moves further down. -/
structure Grows (pre : NodeRef → List Hash) (sh : GroupShard) (pre' : NodeRef → List Hash)
    (sh' : GroupShard) : Prop where
  pre_eq : ∀ j, j < sh.nodes.length → pre' j = pre j
  head : ∀ (j : NodeRef) n, sh.nodes[j]? = some n →
    ∃ n', sh'.nodes[j]? = some n' ∧ n'.locals.head? = n.locals.head?
  anchor : ∀ s i, sh.anchors.lookup s = some i →
    ∃ i', sh'.anchors.lookup s = some i' ∧ (i' = i ∨ (pre i).length < (pre' i').length)

lemma Grows.of_eq (hnodes : v'.nodes = v.nodes) (hanchors : v'.anchors = v.anchors) :
    Grows pre v pre v' where
  pre_eq j _ := rfl
  head j n hn := ⟨n, by rw [hnodes, hn], rfl⟩
  anchor s i hi := ⟨i, by rw [hanchors, hi], .inl rfl⟩

lemma Grows.lt (h : Grows pre v pre' v') (hj : j < v.nodes.length) : j < v'.nodes.length := by
  obtain ⟨n', hn', -⟩ := h.head j _ (getElem?_eq_getElem hj)
  exact lt_length_of_getElem? hn'

lemma WellFormed.anchor_lt (hwf : WellFormed sh) (hi : sh.anchors.lookup s = some i) :
    i < sh.nodes.length := by
  obtain ⟨_, _, _, hn, -, -⟩ := hwf.anchored s i hi
  exact lt_length_of_getElem? hn

lemma Grows.trans (h : Grows pre v pre' v') (h' : Grows pre' v' pre'' v'') (hwf : WellFormed v)
    (hwf' : WellFormed v') : Grows pre v pre'' v'' where
  pre_eq j hj := (h'.pre_eq j (h.lt hj)).trans (h.pre_eq j hj)
  head j n hn := by
    obtain ⟨n', hn', hhead⟩ := h.head j n hn
    obtain ⟨n'', hn'', hhead'⟩ := h'.head j n' hn'
    exact ⟨n'', hn'', hhead'.trans hhead⟩
  anchor s i hi := by
    obtain ⟨i', hi', hmove⟩ := h.anchor s i hi
    obtain ⟨i'', hi'', hmove'⟩ := h'.anchor s i' hi'
    refine ⟨i'', hi'', ?_⟩
    have hpre : pre' i = pre i := h.pre_eq i (hwf.anchor_lt hi)
    have hpre' : pre'' i' = pre' i' := h'.pre_eq i' (hwf'.anchor_lt hi')
    rcases hmove with rfl | hlt
    · rcases hmove' with rfl | hlt'
      · exact .inl rfl
      · exact .inr (hpre ▸ hlt')
    rcases hmove' with rfl | hlt'
    · exact .inr (hpre' ▸ hlt)
    · exact .inr (hlt.trans hlt')

/-- A split moves anchors down only. -/
lemma Represents.split_grows (hrep : Represents path pre v) (hc : v.nodes[node]? = some c)
    (hpos : 0 < pos) (hb : c.edge[pos]? = some b) :
    Grows pre v (extendPre pre v (pre node ++ c.locals.take pos))
      (v.split node c pos b.localHash) where
  pre_eq j hj := extendPre_old hj _
  head j n hn := split_head hc hpos _ hn
  anchor s i hi := by
    rw [split_anchors]
    split
    · rename_i hmoved
      -- a moved alias was anchored at the split node, which keeps `pos` blocks
      obtain ⟨_, _, -, hb', hs⟩ := mem_drop_aliases.1 hmoved
      have hnode := hrep.alias_anchor hc hb' hs
      obtain rfl := some.inj (hi.symm.trans hnode)
      refine ⟨v.nodes.length, rfl, .inr ?_⟩
      have hlen : pos < c.locals.length := by
        unfold TreeNode.locals
        rw [List.length_map]
        exact (List.getElem?_eq_some_iff.1 hb).1
      rw [extendPre_new, List.length_append, List.length_take, Nat.min_eq_left hlen.le]
      exact Nat.lt_add_of_pos_right hpos
    · exact ⟨i, hi, .inl rfl⟩

/-- A new child leaves every path and anchor in place. -/
lemma attach_grows (p) (hp : v.nodes[node]? = some parent) :
    Grows pre v (extendPre pre v p) (v.attach node parent h locals) where
  pre_eq j hj := extendPre_old hj _
  head j n hn := by
    obtain ⟨n', hn', hedge⟩ := attach_edge hp hn
    refine ⟨n', hn', ?_⟩
    unfold TreeNode.locals
    rw [hedge]
  anchor s i hi := ⟨i, hi, .inl rfl⟩

/-- A hash recorded on its own path moves its anchor down only. -/
lemma Represents.record_grows (hrep : Represents path pre v) (hn : v.nodes[node]? = some n)
    (hb : n.edge[i]? = some b) (hpath : path seq = pre node ++ n.locals.take (i + 1)) :
    Grows pre v pre (v.record node n i b cl key seq) where
  pre_eq j _ := rfl
  head j m hm := by
    by_cases hj : j = node
    · subst hj
      obtain rfl := some.inj (hn.symm.trans hm)
      refine ⟨recordNode n i b cl key seq, by rw [record_nodes hn, if_pos rfl], ?_⟩
      rw [recordNode_locals cl key seq hb]
    · exact ⟨m, by rw [record_nodes hn, if_neg hj, hm], rfl⟩
  anchor s j hj := by
    refine ⟨j, ?_, .inl rfl⟩
    show (v.anchors.insert seq node).lookup s = some j
    rw [Dict.lookup_insert_eq]
    by_cases hs : s = seq
    · -- a hash that is recorded again was anchored at this very block
      subst hs
      have hknown : v.Known s := by
        unfold Known
        rw [hj]
        rfl
      have hmem := hrep.alias_of_path hn hb hknown hpath
      rw [if_pos rfl, ← hj, hrep.alias_anchor hn hb hmem]
    · rw [if_neg hs, hj]

/-! ## The edits of a store -/

/-- What a section of a `store` has done so far: `pre₁`, `v₁` and `sh₁` are the
paths, the settled shard and the shard, `done` the blocks recorded. -/
structure Storing (path : Hash → List Hash) (pend : OwnerTier → Hash → Prop)
    (pre : NodeRef → List Hash) (v : GroupShard) (key : OwnerTier) (done : List IncomingBlock)
    (pre₁ : NodeRef → List Hash) (v₁ sh₁ : GroupShard) : Prop where
  shadows : Shadows pend sh₁ v₁
  rep : Represents path pre₁ v₁
  stored : Stored v key done v₁
  grows : Grows pre v pre₁ v₁

variable {key : OwnerTier} {done : List IncomingBlock}

/-- A store that has not written yet. -/
lemma storing_refl (hsh : Shadows pend sh v) (hrep : Represents path pre v) (key) :
    Storing path pend pre v key [] pre v sh :=
  ⟨hsh, hrep, stored_refl hrep.wf key, .of_eq rfl rfl⟩

section

variable (hwf : WellFormed v)
include hwf

section

variable (h : Storing path pend pre v key done pre₁ v₁ sh₁)
include h

lemma Storing.split (hc : sh₁.nodes[node]? = some c) (hpos : 0 < pos)
    (hb : c.edge[pos]? = some b) :
    Storing path pend pre v key done (extendPre pre₁ v₁ (pre₁ node ++ c.locals.take pos))
      (v₁.split node c pos b.localHash) (sh₁.split node c pos b.localHash) := by
  have hc' : v₁.nodes[node]? = some c := by rw [h.shadows.nodes, hc]
  exact ⟨h.shadows.split c pos _, h.rep.split hc' hpos hb, h.stored.split hc' hpos hb,
    h.grows.trans (h.rep.split_grows hc' hpos hb) hwf h.rep.wf⟩

lemma Storing.attach (hp : sh₁.nodes[node]? = some parent) (hhead : locals.head? = some x)
    (hfree : parent.children.lookup x = none) :
    Storing path pend pre v key done (extendPre pre₁ v₁ (pre₁ node ++ parent.locals))
      (v₁.attach node parent x locals) (sh₁.attach node parent x locals) := by
  have hp' : v₁.nodes[node]? = some parent := by rw [h.shadows.nodes, hp]
  exact ⟨h.shadows.attach parent x locals, h.rep.attach hp' hhead hfree,
    h.stored.attach hp' hhead, h.grows.trans (attach_grows _ hp') hwf h.rep.wf⟩

end

lemma Storing.record (hpend : ∀ s, ¬ pend key s)
    (h : Storing path pend pre v key done pre₁ v₁ sh₁) (hn : sh₁.nodes[node]? = some n)
    (hb : n.edge[i]? = some b) (hcl : n.claims[i]? = some cl)
    (hpath : path blk.1 = pre₁ node ++ n.locals.take (i + 1)) :
    Storing path pend pre v key (done ++ [blk]) pre₁ (v₁.record node n i b cl key blk.1)
      (sh₁.record node n i b cl key blk.1) := by
  have hn' : v₁.nodes[node]? = some n := by rw [h.shadows.nodes, hn]
  exact ⟨h.shadows.record n i b cl (hpend blk.1), h.rep.record hn' hb hcl hpath,
    h.stored.record cl blk hn' hb, h.grows.trans (h.rep.record_grows hn' hb hpath) hwf h.rep.wf⟩

/-- Appending all blocks below a node whose path their keys continue. -/
lemma Storing.append (hpend : ∀ s, ¬ pend key s)
    (h : Storing path pend pre v key done pre₁ v₁ sh₁) (hp : sh₁.nodes[node]? = some parent)
    (hfree : parent.children.lookup blk.2 = none)
    (hblock : ∀ d blk' rest, blk :: more = d ++ blk' :: rest →
      path blk'.1 = pre₁ node ++ parent.locals ++ (d ++ [blk']).map Prod.snd) :
    ∃ sh' pre' v', sh₁.appendChild node parent key blk.2 (blk :: more) = some sh' ∧
      Storing path pend pre v key (done ++ blk :: more) pre' v' sh' := by
  have hnew : sh₁.nodes.length = v₁.nodes.length := by rw [h.shadows.nodes]
  obtain ⟨sh', hrun, pre', v', hst, -⟩ := appendChild_rule
    (P := fun d sh2 => ∃ pre2 v2, Storing path pend pre v key (done ++ d) pre2 v2 sh2 ∧
      pre2 sh₁.nodes.length = pre₁ node ++ parent.locals) hp key
    ⟨_, _, (append_nil done).symm ▸ h.attach hwf hp rfl hfree, by rw [hnew, extendPre_new]⟩
    (fun d blk' rest _ _ _ _ hd hn hlocals hb hcl hP => by
      obtain ⟨pre2, v2, hst2, hpre2⟩ := hP
      refine ⟨pre2, _, append_assoc done d [blk'] ▸ hst2.record hwf hpend hn hb hcl ?_, hpre2⟩
      rw [hblock d blk' rest hd, hpre2, hlocals])
  exact ⟨sh', pre', v', hrun, hst⟩

end

/-- No more blocks are claimed than there are. -/
lemma claimChild_le (h : sh.claimChild child key blocks = some (sh', matched)) :
    matched ≤ blocks.length := by
  simp only [claimChild, bind_eq_bind, bind_eq_some_iff] at h
  obtain ⟨c, -, hstep⟩ := h
  split_ifs at hstep with hzero hsplit
  all_goals
    simp only [bind_eq_some_iff, some.injEq, Prod.mk.injEq] at hstep
    obtain ⟨r, -, r', -, -, hm⟩ := hstep
    exact hm ▸ (zip_takeWhile_spec EdgeBlock.localHash Prod.snd c.edge blocks _ rfl).2.1

/-- Claiming the blocks that a child's edge shares with the rest of the store. -/
lemma Storing.claim (hwf : WellFormed v) (hpend : ∀ s, ¬ pend key s)
    (h : Storing path pend pre v key done pre₁ v₁ sh₁) {child : NodeRef}
    (hc : sh₁.nodes[child]? = some c) {more : List IncomingBlock}
    (hhead : c.locals.head? = some blk.2) (hblock : ∀ d blk' rest, blk :: more = d ++ blk' :: rest →
      path blk'.1 = pre₁ child ++ (d ++ [blk']).map Prod.snd) :
    ∃ sh' matched pre' v', sh₁.claimChild child key (blk :: more) = some (sh', matched) ∧
      0 < matched ∧ matched ≤ (blk :: more).length ∧
      Storing path pend pre v key (done ++ (blk :: more).take matched) pre' v' sh' := by
  have hold : child < v₁.nodes.length := by
    rw [h.shadows.nodes]
    exact lt_length_of_getElem? hc
  obtain ⟨sh', m, hrun, hpos, pre', v', hst, -⟩ := claimChild_rule
    (P := fun d sh2 => ∃ pre2 v2, Storing path pend pre v key (done ++ d) pre2 v2 sh2 ∧
      pre2 child = pre₁ child) (h.shadows.wf h.rep.wf) hc more hhead key
    (fun _ b hpos hb => ⟨_, _, (append_nil done).symm ▸ h.split hwf hc hpos hb,
      extendPre_old hold _⟩)
    (fun d blk' rest _ _ _ _ hd hn hlocals hb hcl hP => by
      obtain ⟨pre2, v2, hst2, hpre2⟩ := hP
      refine ⟨pre2, _, append_assoc done d [blk'] ▸ hst2.record hwf hpend hn hb hcl ?_, hpre2⟩
      rw [hblock d blk' rest hd, hpre2, hlocals])
    ⟨pre₁, v₁, (append_nil done).symm ▸ h, rfl⟩
  exact ⟨sh', m, pre', v', hrun, hpos, claimChild_le hrun, hst⟩

/-! ## Resolving again -/

/-- `node` was the anchor of `s` when it was resolved, and `retries` attempts
failed before that. -/
def Follows (pre : NodeRef → List Hash) (v : GroupShard) (s : Hash) (node : NodeRef)
    (retries : Nat) : Prop :=
  node < v.nodes.length ∧ retries ≤ (pre node).length ∧
    ∃ i, v.anchors.lookup s = some i ∧ (i = node ∨ (pre node).length < (pre i).length)

/-- The next attempt to resolve `s` comes after `retries` failed ones. -/
def Retried (pre : NodeRef → List Hash) (v : GroupShard) (s : Hash) (retries : Nat) : Prop :=
  retries = 0 ∨ ∃ i, v.anchors.lookup s = some i ∧ retries ≤ (pre i).length

variable {s : Hash} {retries : Nat}

/-- A reader stays on the path of its hash while the shard grows. -/
lemma Follows.grows (h : Follows pre v s node retries) (hgr : Grows pre v pre' v')
    (hwf : WellFormed v) : Follows pre' v' s node retries := by
  obtain ⟨hlt, hle, i, hi, hmove⟩ := h
  obtain ⟨i', hi', hmove'⟩ := hgr.anchor s i hi
  have hpre : pre' node = pre node := hgr.pre_eq node hlt
  have hprei : pre' i = pre i := hgr.pre_eq i (hwf.anchor_lt hi)
  refine ⟨hgr.lt hlt, hpre ▸ hle, i', hi', ?_⟩
  rcases hmove with rfl | hdown
  · rcases hmove' with rfl | hdown'
    · exact .inl rfl
    · exact .inr (hpre ▸ hdown')
  rcases hmove' with rfl | hdown'
  · exact .inr (by rw [hpre, hprei]; exact hdown)
  · exact .inr (by rw [hpre]; exact hdown.trans hdown')

lemma Retried.grows (h : Retried pre v s retries) (hgr : Grows pre v pre' v')
    (hwf : WellFormed v) : Retried pre' v' s retries := by
  rcases h with rfl | ⟨i, hi, hle⟩
  · exact .inl rfl
  obtain ⟨i', hi', hmove⟩ := hgr.anchor s i hi
  refine .inr ⟨i', hi', ?_⟩
  rcases hmove with rfl | hdown
  · rw [hgr.pre_eq i' (hwf.anchor_lt hi)]
    exact hle
  · exact hle.trans hdown.le

/-- Resolving follows the anchor. -/
lemma Retried.follows (h : Retried pre v s retries) (hwf : WellFormed v)
    (hnode : v.anchors.lookup s = some node) : Follows pre v s node retries := by
  refine ⟨hwf.anchor_lt hnode, ?_, node, hnode, .inl rfl⟩
  rcases h with rfl | ⟨i, hi, hle⟩
  · exact Nat.zero_le _
  · obtain rfl := some.inj (hi.symm.trans hnode)
    exact hle

/-- A node that no longer carries the alias has passed it further down. -/
lemma Follows.retry (h : Follows pre v s node retries) (hwf : WellFormed v)
    (hn : v.nodes[node]? = some n) (hgone : aliasPos n.edge s = none) :
    Retried pre v s (retries + 1) := by
  obtain ⟨-, hle, i, hi, hmove⟩ := h
  refine .inr ⟨i, hi, ?_⟩
  rcases hmove with rfl | hdown
  · obtain ⟨_, _, _, hm, hb, hs⟩ := hwf.anchored s i hi
    obtain rfl := some.inj (hn.symm.trans hm)
    obtain ⟨_, hpos⟩ := aliasPos_exists hb hs
    rw [hpos] at hgone
    cases hgone
  · exact Nat.succ_le_of_lt (hle.trans_lt hdown)

/-- The path of a known hash is longer than the path of its anchor. -/
lemma Represents.anchor_length (hrep : Represents path pre v) (hi : v.anchors.lookup s = some i) :
    (pre i).length < (path s).length := by
  obtain ⟨n, idx, b, hn, hb, hs⟩ := hrep.wf.anchored s i hi
  rw [hrep.alias_path hn hb hs, List.length_append, List.length_take]
  have hlen : idx < n.locals.length := by
    unfold TreeNode.locals
    rw [List.length_map]
    exact (List.getElem?_eq_some_iff.1 hb).1
  omega

/-- A path bounds the number of retries. -/
lemma Retried.le (h : Retried pre v s retries) (hrep : Represents path pre v) :
    retries ≤ (path s).length := by
  rcases h with rfl | ⟨i, hi, hle⟩
  · exact Nat.zero_le _
  · exact hle.trans (hrep.anchor_length hi).le

lemma Follows.le (h : Follows pre v s node retries) (hrep : Represents path pre v) :
    retries ≤ (path s).length := by
  obtain ⟨-, hle, i, hi, hmove⟩ := h
  have hlt := hrep.anchor_length hi
  rcases hmove with rfl | hdown
  · exact hle.trans hlt.le
  · exact hle.trans (hdown.trans hlt).le

end GroupShard

end VllmRouter.KvIndex
