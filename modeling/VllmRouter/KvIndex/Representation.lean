import VllmRouter.KvIndex.Observations
import VllmRouter.Lib.Trie

/-!
# The tree represents the paths of its keys

The contract of the index is that an engine sequence hash always names the
same full path of local hashes: `path seq`. Under it the heap is a compressed
trie of those paths. `Represents path pre sh` says so, where `pre i` is the
path that leads to the edge of node `i`.

- `locate`: the trie read one block at a time, as if it were not compressed.
- `Represents.shaped`: the heap is a compressed trie, so a path is located exactly at
  the block it leads to, and no two blocks have the same path (`block_unique`).
- `Represents.split`, `.attach`, `.record`: the edits keep the representation.
-/

namespace VllmRouter.KvIndex

open List TreeNode Option EdgeBlock Dict

variable {b : EdgeBlock} {idx : Nat} {n : TreeNode} {i j : NodeRef}

namespace GroupShard

/-- A block of node `i` that the path `p` leads to: its aliases name the path and are
anchored at the node, and it is claimed by exactly the pairs with an active alias. -/
structure Carries (path : Hash → List Hash) (sh : GroupShard) (p : List Hash) (i : NodeRef)
    (b : EdgeBlock) (claims : Option (List OwnerTier)) : Prop where
  path_eq : ∀ s ∈ b.aliases, path s = p
  anchor : ∀ s ∈ b.aliases, sh.anchors.lookup s = some i
  claim : ∀ cl, claims = some cl → ∀ key, key ∈ cl ↔ ∃ s ∈ b.aliases, sh.Active key s

/-- The heap is a compressed trie, and each block carries the aliases whose path leads to
it. -/
structure Represents (path : Hash → List Hash) (pre : NodeRef → List Hash)
    (sh : GroupShard) : Prop where
  wf : WellFormed sh
  root_pre : pre rootRef = []
  edge_nonempty : ∀ (i : NodeRef) (n : TreeNode), i ≠ rootRef → sh.nodes[i]? = some n →
    n.edge ≠ []
  child_pre : ∀ (i : NodeRef) (n : TreeNode) h c, sh.nodes[i]? = some n →
    n.children.lookup h = some c → pre c = pre i ++ n.locals
  parent : ∀ (c : NodeRef) (m : TreeNode), c ≠ rootRef → sh.nodes[c]? = some m →
    ∃ (i : NodeRef) (n : TreeNode) (h : Hash),
      sh.nodes[i]? = some n ∧ n.children.lookup h = some c
  block : ∀ (i : NodeRef) (n : TreeNode) (idx : Nat) (b : EdgeBlock),
    sh.nodes[i]? = some n → n.edge[idx]? = some b →
    Carries path sh (pre i ++ n.locals.take (idx + 1)) i b n.claims[idx]?

lemma represents_new (path : Hash → List Hash) : Represents path (fun _ => []) new := by
  -- the root is the only node, and it has neither blocks nor children
  have honly : ∀ i n, new.nodes[i]? = some n →
      i = rootRef ∧ n = root := by
    intro i n hn
    cases i with
    | zero =>
      cases hn
      exact ⟨rfl, rfl⟩
    | succ => simp [new] at hn
  refine ⟨wellFormed_new, rfl, ?_, ?_, ?_, ?_⟩
  · exact fun i n hi hn => absurd (honly i n hn).1 hi
  · intro i n h c hn hc
    obtain ⟨-, rfl⟩ := honly i n hn
    cases hc
  · exact fun c m hc hm => absurd (honly c m hm).1 hc
  intro i n _ _ hn hb
  obtain ⟨-, rfl⟩ := honly i n hn
  cases hb

/-! ## Reading the trie one block at a time -/

/-- A position: a node and how many blocks of its edge have been read. -/
abbrev Position := NodeRef × Nat

/-- Read one more block. -/
def readBlock (sh : GroupShard) (p : Position) (h : Hash) : Option Position :=
  match sh.nodes[p.1]? with
  | none => none
  | some n =>
    match n.edge[p.2]? with
    | some b => if b.localHash = h then some (p.1, p.2 + 1) else none
    | none => (n.children.lookup h).map fun c => (c, 1)

/-- The position a path of local hashes leads to. -/
def locate (sh : GroupShard) (p : List Hash) : Option Position :=
  p.foldlM sh.readBlock (rootRef, 0)

variable {path : Hash → List Hash} {pre : NodeRef → List Hash} {sh : GroupShard}

section

variable (hrep : Represents path pre sh)
include hrep

lemma Represents.alias_path (hn : sh.nodes[i]? = some n) (hb : n.edge[idx]? = some b)
    (hs : s ∈ b.aliases) :
    path s = pre i ++ n.locals.take (idx + 1) := (hrep.block i n idx b hn hb).path_eq s hs

lemma Represents.alias_anchor (hn : sh.nodes[i]? = some n) (hb : n.edge[idx]? = some b)
    (hs : s ∈ b.aliases) :
    sh.anchors.lookup s = some i := (hrep.block i n idx b hn hb).anchor s hs

lemma Represents.claim {cl : List OwnerTier} (hn : sh.nodes[i]? = some n)
    (hb : n.edge[idx]? = some b) (hcl : n.claims[idx]? = some cl) (key) :
    key ∈ cl ↔ ∃ s ∈ b.aliases, sh.Active key s :=
  (hrep.block i n idx b hn hb).claim cl hcl key

end

/-- The heap as a compressed trie. -/
def view (sh : GroupShard) : TrieView NodeRef Hash where
  root := rootRef
  label i := sh.nodes[i]?.elim [] locals
  child i h := sh.nodes[i]?.bind fun n => n.children.lookup h

lemma view_label (hn : sh.nodes[i]? = some n) : sh.view.label i = n.locals := by simp [view, hn]

lemma view_child (hn : sh.nodes[i]? = some n) (h) :
    sh.view.child i h = n.children.lookup h := by
  simp [view, hn]

lemma locate_eq (sh : GroupShard) : sh.locate = sh.view.locate := by
  have hread : sh.readBlock = sh.view.read := by
    funext p h
    unfold readBlock TrieView.read
    cases hn : sh.nodes[p.1]? with
    | none => simp [view, hn]
    | some n =>
      rw [view_label hn, view_child hn]
      simp only [locals, getElem?_map]
      cases n.edge[p.2]? <;> rfl
  funext p
  unfold locate TrieView.locate
  rw [hread]
  rfl

section

variable (hrep : Represents path pre sh)
include hrep

lemma Represents.shaped : sh.view.Shaped pre := by
  obtain ⟨r, hr, hedge⟩ := hrep.wf.root
  have hroot : sh.view.label rootRef = [] := by
    rw [view_label hr, locals, hedge]
    rfl
  have hchild : ∀ i h j, sh.view.child i h = some j →
      (sh.view.label j).head? = some h ∧ pre j = pre i ++ sh.view.label i := by
    intro i h j hj
    obtain ⟨n, hn, hc⟩ := bind_eq_some_iff.1 hj
    obtain ⟨m, hm, hhead⟩ := hrep.wf.child i n h j hn hc
    rw [view_label hn, view_label hm]
    exact ⟨hhead, hrep.child_pre i n h j hn hc⟩
  refine ⟨hroot, hrep.root_pre, fun i h j hj hne => ?_, fun i h j hj => (hchild i h j hj).1,
    fun i h j hj => (hchild i h j hj).2⟩
  have hhead := (hchild i h j hj).1
  rw [hne, show sh.view.label sh.view.root = [] from hroot] at hhead
  cases hhead

/-- Every node is below the root. -/
lemma Represents.reaches (hn : sh.nodes[i]? = some n) :
    sh.view.Reaches i := by
  -- the parents have shorter and shorter paths, up to the root
  induction hsize : (pre i).length using Nat.strong_induction_on generalizing i n with
  | _ _ ih =>
    by_cases hi : i = rootRef
    · exact hi ▸ .root
    obtain ⟨j, m, h, hm, hc⟩ := hrep.parent i n hi hn
    refine .child ?_ ((view_child hm h).trans hc)
    by_cases hj : j = rootRef
    · exact hj ▸ .root
    refine ih _ ?_ hm rfl
    have := length_pos_iff.2 (hrep.edge_nonempty j m hj hm)
    rw [← hsize, hrep.child_pre j m h i hm hc, length_append, locals, length_map]
    omega

/-- A located position is on the path that was read. -/
lemma Represents.locate_at (hloc : sh.locate p = some (i, k)) :
    ∃ n, sh.nodes[i]? = some n ∧ p = pre i ++ n.locals.take k ∧ (k = 0 → i = rootRef) := by
  rw [locate_eq] at hloc
  obtain ⟨hreach, -, hp, hzero⟩ := hrep.shaped.locate_at p i k hloc
  obtain ⟨n, hn⟩ : ∃ n, sh.nodes[i]? = some n := by
    rcases hreach.parent with rfl | ⟨j, h, -, hchild⟩
    · exact hrep.wf.root.imp fun r hr => hr.1
    · obtain ⟨m, hm, hc⟩ := bind_eq_some_iff.1 hchild
      exact (hrep.wf.child j m h i hm hc).imp fun n hn => hn.1
  rw [view_label hn] at hp
  exact ⟨n, hn, hp, hzero⟩

variable (hn : sh.nodes[i]? = some n) (hb : n.edge[idx]? = some b)
include hn hb

/-- Reading the path of a block leads right behind it. -/
lemma Represents.locate_block :
    sh.locate (pre i ++ n.locals.take (idx + 1)) = some (i, idx + 1) := by
  have hlt := (List.getElem?_eq_some_iff.1 hb).1
  rw [locate_eq, ← view_label hn]
  refine hrep.shaped.locate_of_reaches (hrep.reaches hn) (idx + 1) ?_ nofun
  rw [view_label hn, locals, List.length_map]
  exact hlt

/-- No two blocks have the same path. -/
lemma Represents.block_unique (hn' : sh.nodes[i']? = some n') (hb' : n'.edge[idx']? = some b')
    (hpath : pre i ++ n.locals.take (idx + 1) = pre i' ++ n'.locals.take (idx' + 1)) :
    i = i' ∧ idx = idx' := by
  have h := hrep.locate_block hn hb
  rw [hpath, hrep.locate_block hn' hb'] at h
  cases h
  exact ⟨rfl, rfl⟩

/-- A known key is an alias of the block that its path leads to. -/
lemma Represents.alias_of_path (hs : sh.Known s)
    (hpath : path s = pre i ++ n.locals.take (idx + 1)) : s ∈ b.aliases := by
  obtain ⟨j, hj⟩ := isSome_iff_exists.1 hs
  obtain ⟨_, _, _, hm, hb', hmem⟩ := hrep.wf.anchored s j hj
  have hsame := (hrep.alias_path hm hb' hmem).symm.trans hpath
  obtain ⟨rfl, rfl⟩ := hrep.block_unique hm hb' hn hb hsame
  rw [hn] at hm
  cases hm
  rw [hb] at hb'
  cases hb'
  exact hmem

end

/-! ## The edits keep the representation -/

/-- The paths after allocating a node that is reached by `p`. -/
def extendPre (pre : NodeRef → List Hash) (sh : GroupShard) (p : List Hash) :
    NodeRef → List Hash :=
  fun j => if j = sh.nodes.length then p else pre j

lemma extendPre_new (pre : NodeRef → List Hash) (sh p) :
    extendPre pre sh p sh.nodes.length = p := if_pos rfl

lemma extendPre_old (hj : j < sh.nodes.length) (p) :
    extendPre pre sh p j = pre j := if_neg hj.ne

section Split

variable {c : TreeNode} {b : EdgeBlock}

/-- A block of the split heap comes from a block of the old heap with the same
path, aliases and claims. -/
lemma split_block (pre : NodeRef → List Hash) (hc : sh.nodes[node]? = some c)
    (hn : (sh.split node c pos h).nodes[i]? = some n) (hb' : n.edge[idx]? = some b') :
    ∃ j m k, sh.nodes[j]? = some m ∧ m.edge[k]? = some b' ∧
      m.claims[k]? = n.claims[idx]? ∧ pre j ++ m.locals.take (k + 1)
        = extendPre pre sh (pre node ++ c.locals.take pos) i ++ n.locals.take (idx + 1) ∧
      ((i = sh.nodes.length ∧ j = node ∧ pos ≤ k) ∨ (i = j ∧ (j = node → k < pos))) := by
  rw [split_nodes hc] at hn
  split at hn
  · next hi =>
    subst hi
    cases hn
    have hb'' : (c.edge.take pos)[idx]? = some b' := hb'
    rw [getElem?_take] at hb''
    split at hb''
    · next hlt =>
      refine ⟨i, c, idx, hc, hb'', ?_, ?_, .inr ⟨rfl, fun _ => hlt⟩⟩
      · show c.claims[idx]? = (c.claims.take pos)[idx]?
        rw [getElem?_take, if_pos hlt]
      rw [extendPre_old (lt_length_of_getElem? hc)]
      show _ = pre i ++ ((c.edge.take pos).map localHash).take (idx + 1)
      rw [map_take, take_take, Nat.min_eq_left hlt]
      rfl
    · cases hb''
  · next hi =>
    split at hn
    · next hlen =>
      cases hn
      have hb'' : (c.edge.drop pos)[idx]? = some b' := hb'
      rw [getElem?_drop] at hb''
      refine ⟨node, c, pos + idx, hc, hb'', ?_, ?_, .inl ⟨hlen, rfl, Nat.le_add_right _ _⟩⟩
      · show c.claims[pos + idx]? = (c.claims.drop pos)[idx]?
        rw [getElem?_drop]
      rw [hlen, extendPre_new]
      show _ = _ ++ ((c.edge.drop pos).map localHash).take (idx + 1)
      rw [map_drop, append_assoc, Nat.add_assoc, take_add]
      rfl
    · refine ⟨i, n, idx, hn, hb', rfl, ?_, .inr ⟨rfl, fun h => absurd h hi⟩⟩
      rw [extendPre_old (lt_length_of_getElem? hn)]

lemma Represents.split (hrep : Represents path pre sh) (hc : sh.nodes[node]? = some c)
    (hpos : 0 < pos) (hb : c.edge[pos]? = some b) :
    Represents path (extendPre pre sh (pre node ++ c.locals.take pos))
      (sh.split node c pos b.localHash) := by
  have hlt := lt_length_of_getElem? hc
  have hposlt := (List.getElem?_eq_some_iff.1 hb).1
  obtain ⟨r, hr, -⟩ := hrep.wf.root
  have hroot := lt_length_of_getElem? hr
  have hkept : (sh.split node c pos b.localHash).nodes[node]?
      = some (sh.splitKept c pos b.localHash) := by rw [split_nodes hc, if_pos rfl]
  have hrem : (sh.split node c pos b.localHash).nodes[sh.nodes.length]?
      = some ⟨c.edge.drop pos, c.claims.drop pos, c.children⟩ := by
    rw [split_nodes hc, if_neg hlt.ne', if_pos rfl]
  have hlink : (sh.splitKept c pos b.localHash).children.lookup b.localHash
      = some sh.nodes.length := by
    show ((∅ : Dict Hash NodeRef).insert b.localHash sh.nodes.length).lookup b.localHash = _
    rw [lookup_insert_eq, if_pos rfl]
  refine ⟨wellFormed_split hrep.wf hc hpos hb, ?_, ?_, ?_, ?_, ?_⟩
  · rw [extendPre_old hroot, hrep.root_pre]
  · intro i n hi hn
    rw [split_nodes hc] at hn
    split at hn
    · cases hn
      intro hnil
      have hlen : (c.edge.take pos).length = 0 := congrArg List.length hnil
      rw [List.length_take] at hlen
      omega
    split at hn
    · cases hn
      intro hnil
      have hlen : (c.edge.drop pos).length = 0 := congrArg List.length hnil
      rw [List.length_drop] at hlen
      omega
    · exact hrep.edge_nonempty i n hi hn
  · intro i n h k hn hk
    rw [split_nodes hc] at hn
    split at hn
    · next hi =>
      subst hi
      cases hn
      have hk' : ((∅ : Dict Hash NodeRef).insert b.localHash sh.nodes.length).lookup h
          = some k := hk
      rw [lookup_insert_eq] at hk'
      split at hk'
      · cases hk'
        rw [extendPre_new, extendPre_old hlt]
        show _ = pre i ++ (c.edge.take pos).map localHash
        rw [List.map_take]
        rfl
      · cases hk'
    · split at hn
      · next hi =>
        cases hn
        have hklt := hrep.wf.child_lt hc hk
        rw [hi, extendPre_new, extendPre_old hklt, hrep.child_pre node c h k hc hk,
          List.append_assoc]
        show _ = _ ++ (_ ++ (c.edge.drop pos).map localHash)
        rw [List.map_drop]
        exact congrArg (pre node ++ ·) (List.take_append_drop pos c.locals).symm
      have hklt := hrep.wf.child_lt hn hk
      rw [extendPre_old hklt, extendPre_old (lt_length_of_getElem? hn)]
      exact hrep.child_pre i n h k hn hk
  · intro k m hk hm
    by_cases hnew : k = sh.nodes.length
    · exact ⟨node, _, b.localHash, hkept, hnew ▸ hlink⟩
    have hold : ∃ m0, sh.nodes[k]? = some m0 := by
      rw [split_nodes hc] at hm
      split at hm
      · next hkn => exact ⟨c, hkn ▸ hc⟩
      · exact ⟨m, by simpa [hnew] using hm⟩
    obtain ⟨m0, hm0⟩ := hold
    obtain ⟨j, n, h, hn, hkc⟩ := hrep.parent k m0 hk hm0
    by_cases hj : j = node
    · subst hj
      rw [hc] at hn
      cases hn
      exact ⟨sh.nodes.length, _, h, hrem, hkc⟩
    · refine ⟨j, n, h, ?_, hkc⟩
      rw [split_nodes hc, if_neg hj, if_neg (lt_length_of_getElem? hn).ne, hn]
  · intro _ _ _ b' hn hb'
    obtain ⟨j, m, k, hm, hbk, hclaims, hpath, hwhere⟩ := split_block pre hc hn hb'
    have hold := hrep.block j m k b' hm hbk
    rw [hclaims, hpath] at hold
    refine ⟨hold.path_eq, fun s hs => ?_, hold.claim⟩
    have hanchor := hrep.alias_anchor hm hbk hs
    rw [split_anchors]
    rcases hwhere with ⟨rfl, rfl, hle⟩ | ⟨rfl, hbefore⟩
    · rw [hc] at hm
      cases hm
      rw [if_pos (mem_drop_aliases.2 ⟨k, b', hle, hbk, hs⟩)]
    -- an alias before the cut is not among the moved ones: its path is shorter
    rw [if_neg, hanchor]
    intro hmoved
    obtain ⟨_, _, _, hbk', hs'⟩ := mem_drop_aliases.1 hmoved
    obtain ⟨hij, _⟩ := hrep.block_unique hm hbk hc hbk'
      ((hrep.alias_path hm hbk hs).symm.trans (hrep.alias_path hc hbk' hs'))
    have := hbefore hij
    omega

end Split

lemma Represents.attach (hrep : Represents path pre sh) {parent : TreeNode} {locals : List Hash}
    (hp : sh.nodes[node]? = some parent) (hhead : locals.head? = some h)
    (hfree : parent.children.lookup h = none) :
    Represents path (extendPre pre sh (pre node ++ parent.locals))
      (sh.attach node parent h locals) := by
  have hlt := lt_length_of_getElem? hp
  obtain ⟨r, hr, -⟩ := hrep.wf.root
  have hroot := lt_length_of_getElem? hr
  -- a block of the new heap with an alias or a claim is a block of the old one
  have hblock : ∀ (i : NodeRef) (n : TreeNode) (idx : Nat) (b : EdgeBlock),
      (sh.attach node parent h locals).nodes[i]? = some n → n.edge[idx]? = some b →
      (∃ m, sh.nodes[i]? = some m ∧ m.edge = n.edge ∧ m.claims = n.claims) ∨
        (b.aliases = [] ∧ ∀ cl, n.claims[idx]? = some cl → cl = []) := by
    intro i n idx b hn hb
    rw [attach_nodes hp] at hn
    split at hn
    · next hi =>
      cases hn
      exact .inl ⟨parent, hi ▸ hp, rfl, rfl⟩
    split at hn
    · cases hn
      have hb' : (locals.map fun l => EdgeBlock.mk [] l)[idx]? = some b := hb
      rw [getElem?_map] at hb'
      obtain ⟨l, -, rfl⟩ := map_eq_some_iff.1 hb'
      refine .inr ⟨rfl, fun cl hcl => ?_⟩
      have hcl' : (locals.map fun _ => ([] : List OwnerTier))[idx]? = some cl := hcl
      rw [getElem?_map] at hcl'
      obtain ⟨l, -, rfl⟩ := map_eq_some_iff.1 hcl'
      rfl
    · exact .inl ⟨n, hn, rfl, rfl⟩
  refine ⟨wellFormed_attach hrep.wf hp hhead, ?_, ?_, ?_, ?_, ?_⟩
  · rw [extendPre_old hroot, hrep.root_pre]
  · intro i n hi hn
    rw [attach_nodes hp] at hn
    split at hn
    · next hin =>
      cases hn
      exact hrep.edge_nonempty i parent hi (hin ▸ hp)
    split at hn
    · cases hn
      cases locals with
      | nil => cases hhead
      | cons l ls => exact cons_ne_nil _ _
    · exact hrep.edge_nonempty i n hi hn
  · intro i n h' k hn hk
    rw [attach_nodes hp] at hn
    split at hn
    · next hi =>
      subst hi
      cases hn
      have hk' : (parent.children.insert h sh.nodes.length).lookup h' = some k := hk
      rw [lookup_insert_eq] at hk'
      split at hk'
      · cases hk'
        rw [extendPre_new, extendPre_old hlt]
        rfl
      · rw [extendPre_old (hrep.wf.child_lt hp hk'), extendPre_old hlt]
        exact hrep.child_pre i parent h' k hp hk'
    · split at hn
      · cases hn
        cases hk
      · rw [extendPre_old (hrep.wf.child_lt hn hk), extendPre_old (lt_length_of_getElem? hn)]
        exact hrep.child_pre i n h' k hn hk
  · intro k m hk hm
    have hpnode : (sh.attach node parent h locals).nodes[node]?
        = some { parent with children := parent.children.insert h sh.nodes.length } := by
      rw [attach_nodes hp, if_pos rfl]
    by_cases hnew : k = sh.nodes.length
    · refine ⟨node, _, h, hpnode, ?_⟩
      show (parent.children.insert h sh.nodes.length).lookup h = some k
      rw [lookup_insert_eq, if_pos rfl, hnew]
    have hold : ∃ m0, sh.nodes[k]? = some m0 := by
      rw [attach_nodes hp] at hm
      split at hm
      · next hkn => exact ⟨parent, hkn ▸ hp⟩
      · exact ⟨m, by simpa [hnew] using hm⟩
    obtain ⟨m0, hm0⟩ := hold
    obtain ⟨j, n, h', hn, hkc⟩ := hrep.parent k m0 hk hm0
    by_cases hj : j = node
    · subst hj
      rw [hp] at hn
      cases hn
      refine ⟨j, _, h', hpnode, ?_⟩
      show (parent.children.insert h sh.nodes.length).lookup h' = some k
      rw [lookup_insert_eq, if_neg, hkc]
      rintro rfl
      rw [hfree] at hkc
      cases hkc
    · refine ⟨j, n, h', ?_, hkc⟩
      rw [attach_nodes hp, if_neg hj, if_neg (lt_length_of_getElem? hn).ne, hn]
  · intro i n idx b hn hb
    rcases hblock i n idx b hn hb with ⟨m, hm, he, hc⟩ | ⟨hnil, hempty⟩
    · have hold := hrep.block i m idx b hm (he ▸ hb)
      rw [TreeNode.locals, he, hc] at hold
      rw [extendPre_old (lt_length_of_getElem? hm)]
      exact ⟨hold.path_eq, hold.anchor, hold.claim⟩
    refine ⟨?_, ?_, fun cl hcl _ => ?_⟩
    · simp [hnil]
    · simp [hnil]
    · simp [hempty cl hcl, hnil]

section Record

variable {n : TreeNode} {i : Nat} {b : EdgeBlock} {cl : List OwnerTier} {key : OwnerTier}
  {seq : Hash}

/-- A node of the recorded heap has the locals and children of the old one. -/
lemma record_node (hn : sh.nodes[node]? = some n) (hb : n.edge[i]? = some b)
    (hm : (sh.record node n i b cl key seq).nodes[j]? = some m) :
    ∃ m0, sh.nodes[j]? = some m0 ∧ m.locals = m0.locals ∧ m.children = m0.children := by
  rw [record_nodes hn] at hm
  split at hm
  · next hj =>
    cases hm
    exact ⟨n, hj ▸ hn, recordNode_locals cl key seq hb, rfl⟩
  · exact ⟨m, hm, rfl, rfl⟩

/-- A block of the recorded heap is the recorded block, or an old block that
was left alone. -/
lemma record_block (hn : sh.nodes[node]? = some n) (hb : n.edge[i]? = some b)
    (hcl : n.claims[i]? = some cl) (hm : (sh.record node n i b cl key seq).nodes[j]? = some m)
    (hb' : m.edge[idx]? = some b') :
    (j = node ∧ idx = i ∧ b'.aliases = b.aliases.insert seq ∧
        m.claims[idx]? = some (if key ∈ cl then cl else cl ++ [key])) ∨
      (¬ (j = node ∧ idx = i) ∧ ∃ m0, sh.nodes[j]? = some m0 ∧ m0.edge[idx]? = some b' ∧
        m0.claims[idx]? = m.claims[idx]?) := by
  rw [record_nodes hn] at hm
  split at hm
  · next hj =>
    cases hm
    rw [recordNode_edge hb] at hb'
    split at hb'
    · next hidx =>
      cases hb'
      refine .inl ⟨hj, hidx, rfl, ?_⟩
      subst hidx
      show (n.claims.set idx _)[idx]? = _
      exact List.getElem?_set_self (List.getElem?_eq_some_iff.1 hcl).1
    next hidx =>
    refine .inr ⟨fun h => hidx h.2, n, hj ▸ hn, hb', ?_⟩
    exact (List.getElem?_set_ne (Ne.symm hidx)).symm
  · next hj => exact .inr ⟨fun h => hj h.1, m, hm, hb', rfl⟩

lemma Represents.record (hrep : Represents path pre sh) (hn : sh.nodes[node]? = some n)
    (hb : n.edge[i]? = some b) (hcl : n.claims[i]? = some cl)
    (hpath : path seq = pre node ++ n.locals.take (i + 1)) :
    Represents path pre (sh.record node n i b cl key seq) := by
  -- elsewhere `seq` is no alias: no other block has its path
  have helse : ∀ j m idx b',
      ¬ (j = node ∧ idx = i) → sh.nodes[j]? = some m → m.edge[idx]? = some b' →
      seq ∉ b'.aliases := by
    intro _ _ _ _ hne hm hb' hs
    exact hne (hrep.block_unique hm hb' hn hb ((hrep.alias_path hm hb' hs).symm.trans hpath))
  refine ⟨wellFormed_record hrep.wf hn hb, hrep.root_pre, ?_, ?_, ?_, ?_⟩
  · intro j m hj hm hnil
    obtain ⟨m0, hm0, hl, -⟩ := record_node hn hb hm
    have hlocals : m0.edge.map localHash = [] := hl.symm.trans (by simp [locals, hnil])
    exact hrep.edge_nonempty j m0 hj hm0 (map_eq_nil_iff.1 hlocals)
  · intro j m h k hm hk
    obtain ⟨m0, hm0, hl, hc⟩ := record_node hn hb hm
    rw [hl]
    exact hrep.child_pre j m0 h k hm0 (hc ▸ hk)
  · intro k m hk hm
    obtain ⟨m0, hm0, -, -⟩ := record_node hn hb hm
    obtain ⟨j, m1, h, hm1, hkc⟩ := hrep.parent k m0 hk hm0
    by_cases hj : j = node
    · subst hj
      rw [hn] at hm1
      cases hm1
      exact ⟨j, recordNode n i b cl key seq, h, by rw [record_nodes hn, if_pos rfl], hkc⟩
    · exact ⟨j, m1, h, by rw [record_nodes hn, if_neg hj, hm1], hkc⟩
  · intro j m idx b' hm hb'
    obtain ⟨m0, hm0, hl, -⟩ := record_node hn hb hm
    rw [hl]
    rcases record_block hn hb hcl hm hb' with ⟨rfl, rfl, hal, hc⟩ | ⟨hne, m1, hm1, hb1, hc⟩
    · rw [hn] at hm0
      cases hm0
      have hold := hrep.block j n idx b hn hb
      refine ⟨fun s hs => ?_, fun s hs => ?_, fun _ hcl' k => ?_⟩
      · rw [hal] at hs
        rcases mem_insert_iff.1 hs with rfl | hs
        · exact hpath
        · exact hold.path_eq s hs
      · show (sh.anchors.insert seq j).lookup s = some j
        rw [hal] at hs
        rw [lookup_insert_eq]
        rcases mem_insert_iff.1 hs with rfl | hs
        · rw [if_pos rfl]
        · rw [hold.anchor s hs, ite_self]
      rw [hcl'] at hc
      cases hc
      have hmem : k ∈ (if key ∈ cl then cl else cl ++ [key]) ↔ k ∈ cl ∨ k = key := by
        split
        · next hkey =>
          refine ⟨.inl, ?_⟩
          rintro (h | rfl)
          · exact h
          · exact hkey
        · simp
      rw [hmem, hold.claim cl hcl k, hal]
      constructor
      · rintro (⟨s, hs, ha⟩ | rfl)
        · exact ⟨s, mem_insert_of_mem hs, (record_active n idx b cl key seq k s).2 (.inl ha)⟩
        · exact ⟨seq, mem_insert_self,
            (record_active n idx b cl k seq k seq).2 (.inr ⟨rfl, rfl⟩)⟩
      rintro ⟨s, hs, ha⟩
      rcases (record_active n idx b cl key seq k s).1 ha with hold | ⟨hk, -⟩
      · refine .inl ⟨s, ?_, hold⟩
        rcases mem_insert_iff.1 hs with rfl | hs
        · -- `seq` was active before, so it was already an alias of this block
          exact hrep.alias_of_path hn hb (hrep.wf.claimed_known k s hold) hpath
        · exact hs
      · exact .inr hk
    · obtain rfl := some.inj (hm1.symm.trans hm0)
      have hold := hrep.block j m1 idx b' hm1 hb1
      have hother : ∀ s ∈ b'.aliases, s ≠ seq := fun s hs heq => helse j m1 idx b' hne hm1 hb1
        (heq ▸ hs)
      refine ⟨hold.path_eq, fun s hs => ?_, fun cl' hcl' k => ?_⟩
      · show (sh.anchors.insert seq node).lookup s = some j
        rw [lookup_insert_eq, if_neg (hother s hs), hold.anchor s hs]
      rw [hold.claim cl' (hc.trans hcl') k]
      refine exists_congr fun s => and_congr_right fun hs => ?_
      rw [record_active, or_iff_left fun h => hother s hs h.2]

end Record

/-! ## Removal keeps the representation -/

/-- A heap that differs only in its claims represents the same paths when the
new claims are exact. -/
lemma Represents.of_claims (hrep : Represents path pre sh) (hwf : WellFormed sh')
    (hanch : sh'.anchors = sh.anchors) (hlen : sh'.nodes.length = sh.nodes.length)
    (hnode : ∀ (j : NodeRef) (m : TreeNode), sh'.nodes[j]? = some m →
      ∃ m0, sh.nodes[j]? = some m0 ∧ m.edge = m0.edge ∧ m.children = m0.children)
    (hclaim : ∀ (j : NodeRef) (m : TreeNode) (idx : Nat) (b : EdgeBlock) cl,
      sh'.nodes[j]? = some m → m.edge[idx]? = some b → m.claims[idx]? = some cl →
      ∀ k, k ∈ cl ↔ ∃ s ∈ b.aliases, sh'.Active k s) : Represents path pre sh' := by
  have hlocals : ∀ {m m0 : TreeNode}, m.edge = m0.edge → m.locals = m0.locals := by
    intro m m0 he
    unfold locals
    rw [he]
  refine ⟨hwf, hrep.root_pre, ?_, ?_, ?_, ?_⟩
  · intro j m hj hm
    obtain ⟨m0, hm0, he, -⟩ := hnode j m hm
    rw [he]
    exact hrep.edge_nonempty j m0 hj hm0
  · intro j m h k hm hk
    obtain ⟨m0, hm0, he, hc⟩ := hnode j m hm
    rw [hlocals he]
    exact hrep.child_pre j m0 h k hm0 (hc ▸ hk)
  · intro k m hk hm
    obtain ⟨m0, hm0, -, -⟩ := hnode k m hm
    obtain ⟨j, m1, h, hm1, hkc⟩ := hrep.parent k m0 hk hm0
    have hj := getElem?_eq_getElem (hlen.symm ▸ lt_length_of_getElem? hm1)
    obtain ⟨m2, hm2, -, hc⟩ := hnode j _ hj
    obtain rfl := some.inj (hm1.symm.trans hm2)
    exact ⟨j, _, h, hj, hc ▸ hkc⟩
  intro j m idx b hm hb
  obtain ⟨m0, hm0, he, -⟩ := hnode j m hm
  have hold := hrep.block j m0 idx b hm0 (he ▸ hb)
  rw [hlocals he]
  exact ⟨hold.path_eq, hanch ▸ hold.anchor, fun cl => hclaim j m idx b cl hm hb⟩

section Remove

variable {sh' : GroupShard} {key : OwnerTier} {seq : Hash} {j : NodeRef} {m : TreeNode}
  {idx : Nat} {b : EdgeBlock} {cl : List OwnerTier}

variable (hrep : Represents path pre sh)
include hrep

/-- No other block has the alias `seq`. -/
lemma Represents.alias_only (hn : sh.nodes[node]? = some n) (hb0 : n.edge[i]? = some b0)
    (hs0 : seq ∈ b0.aliases) (hm : sh.nodes[j]? = some m) (hb : m.edge[idx]? = some b)
    (hs : seq ∈ b.aliases) :
    j = node ∧ idx = i :=
  hrep.block_unique hm hb hn hb0 ((hrep.alias_path hm hb hs).symm.trans
      (hrep.alias_path hn hb0 hs0))

/-- The claims of a pair are still exact at a block where the removal deleted
none of its aliases. -/
lemma Represents.claim_kept (hact : ∀ k s, sh'.Active k s ↔ sh.Active k s ∧ ¬ (k = key ∧ s = seq))
    (hm : sh.nodes[j]? = some m) (hb : m.edge[idx]? = some b) (hcl : m.claims[idx]? = some cl)
    (hk : k = key → seq ∉ b.aliases) : k ∈ cl ↔ ∃ s ∈ b.aliases, sh'.Active k s := by
  rw [hrep.claim hm hb hcl k]
  refine exists_congr fun s => and_congr_right fun hs => ?_
  rw [hact]
  refine ⟨fun ha => ⟨ha, ?_⟩, fun ha => ha.1⟩
  rintro ⟨hkey, rfl⟩
  exact hk hkey hs

/-- Removing a sequence hash changes no path; the claims stay exact because a
block gives up a claim together with its last active alias. -/
lemma Represents.removeSeq (hrun : removeSeq key sh seq = some sh') : Represents path pre
    sh' := by
  have hwf := closed_wellFormed.removeSeq key seq sh sh' hrep.wf hrun
  obtain ⟨_, hrun1, hanch, hact, hnodes⟩ := removeSeq_cases hrep.wf key seq
  obtain rfl := some.inj (hrun.symm.trans hrun1)
  -- when the heap is untouched, only the claims of `key` at `seq` need a look
  have huntouched : sh'.nodes = sh.nodes →
      (∀ (j : NodeRef) (m : TreeNode) (idx : Nat) (b : EdgeBlock), sh.nodes[j]? = some m →
        m.edge[idx]? = some b → seq ∈ b.aliases → ∃ a ∈ b.aliases, sh'.Active key a) →
      Represents path pre sh' := by
    intro hsame hstill
    refine hrep.of_claims hwf hanch (by rw [hsame]) ?_ ?_
    · exact fun j m hm => ⟨m, hsame ▸ hm, rfl, rfl⟩
    intro j m idx b cl hm hb hcl k
    rw [hsame] at hm
    by_cases hk : k = key ∧ seq ∈ b.aliases
    · obtain ⟨rfl, hs⟩ := hk
      obtain ⟨a, ha, hactive⟩ := hstill j m idx b hm hb hs
      refine iff_of_true ?_ ⟨a, ha, hactive⟩
      exact (hrep.claim hm hb hcl k).2 ⟨a, ha, ((hact k a).1 hactive).1⟩
    · exact hrep.claim_kept hact hm hb hcl fun hkey hs => hk ⟨hkey, hs⟩
  rcases hnodes with ⟨hun, hsame⟩ | ⟨node, n, i, b0, hn, hb0, hs0, ⟨hstill, hsame⟩ | hcleared⟩
  · refine huntouched hsame fun j m idx b hm hb hs => ?_
    exact absurd (hrep.wf.alias_known j m idx b seq hm hb hs) hun
  · refine huntouched hsame fun j m idx b hm hb hs => ?_
    obtain ⟨rfl, rfl⟩ := hrep.alias_only hn hb0 hs0 hm hb hs
    obtain rfl := some.inj (hn.symm.trans hm)
    obtain rfl := some.inj (hb0.symm.trans hb)
    exact hstill
  obtain ⟨cl0, hnone, hcl0, hset⟩ := hcleared
  have hget : ∀ j : NodeRef, sh'.nodes[j]? = if j = node
      then some { n with claims := n.claims.set i (cl0.filter fun c => decide (c ≠ key)) }
      else sh.nodes[j]? := by
    intro j
    rw [hset]
    show (sh.nodes.set node _)[j]? = _
    rw [List.getElem?_set]
    by_cases hj : node = j
    · subst hj
      rw [if_pos rfl, if_pos rfl, if_pos (lt_length_of_getElem? hn)]
    · rw [if_neg hj, if_neg (Ne.symm hj)]
  refine hrep.of_claims hwf hanch (by rw [hset]; exact List.length_set) ?_ ?_
  · intro j m hm
    rw [hget] at hm
    split at hm
    · next hj =>
      cases hm
      exact ⟨n, hj ▸ hn, rfl, rfl⟩
    · exact ⟨m, hm, rfl, rfl⟩
  intro j m idx b cl hm hb hcl k
  rw [hget] at hm
  split at hm
  · next hj =>
    cases hm
    have hcl' : (n.claims.set i (cl0.filter fun c => decide (c ≠ key)))[idx]?
        = some cl := hcl
    by_cases hidx : i = idx
    · subst hidx
      rw [List.getElem?_set_self (List.getElem?_eq_some_iff.1 hcl0).1] at hcl'
      cases hcl'
      obtain rfl := some.inj (hb0.symm.trans hb)
      by_cases hk : k = key
      · subst hk
        refine iff_of_false (by simp) ?_
        rintro ⟨s, hs, ha⟩
        exact hnone s hs ha
      · rw [← hrep.claim_kept hact hn hb0 hcl0 fun hkey => absurd hkey hk]
        simp [hk]
    · rw [List.getElem?_set_ne hidx] at hcl'
      exact hrep.claim_kept hact hn hb hcl' fun _ hs =>
        hidx (hrep.alias_only hn hb0 hs0 hn hb hs).2.symm
  · next hj =>
    exact hrep.claim_kept hact hm hb hcl fun _ hs => hj (hrep.alias_only hn hb0 hs0 hm hb hs).1

end Remove

/-- Representation is closed under the removing calls. -/
lemma closed_represents (path : Hash → List Hash) :
    Closed fun sh => ∃ pre, Represents path pre sh where
  wf sh h := h.elim fun _ hrep => hrep.wf
  removeSeq key seq sh sh' h hrun := h.imp fun _ hrep => hrep.removeSeq hrun
  congr sh sh' h hnodes hanch hact := by
    obtain ⟨pre, hrep⟩ := h
    have hwf := closed_wellFormed.congr sh sh' hrep.wf hnodes hanch hact
    refine ⟨pre, hrep.of_claims hwf hanch (by rw [hnodes]) ?_ ?_⟩
    · exact fun j m hm => ⟨m, hnodes ▸ hm, rfl, rfl⟩
    intro _ _ _ _ _ hm hb hcl k
    rw [hrep.claim (hnodes ▸ hm) hb hcl k]
    exact exists_congr fun s => and_congr_right fun _ => (hact k s).symm

/-! ## Storing under the contract -/

/-- The path below which a store hangs. -/
def parentPath (path : Hash → List Hash) : Option Hash → List Hash
  | none => []
  | some seq => path seq

/-- The contract for one store: every block's key names the parent's path
followed by the local hashes up to that block. -/
def NamesPaths (path : Hash → List Hash) (parentSeq : Option Hash)
    (blocks : List IncomingBlock) : Prop :=
  ∀ i b, blocks[i]? = some b →
    path b.1 = parentPath path parentSeq ++ (blocks.take (i + 1)).map Prod.snd

variable {key : OwnerTier} {parentSeq : Option Hash} {blocks done more : List IncomingBlock}

lemma NamesPaths.path_eq (hnames : NamesPaths path parentSeq blocks) (done blk more)
    (hblocks : blocks = done ++ blk :: more) :
    path blk.1 = parentPath path parentSeq ++ (done ++ [blk]).map Prod.snd := by
  have hget : blocks[done.length]? = some blk := by
    rw [hblocks]
    simp
  have hcut : blocks.take (done.length + 1) = done ++ [blk] := by
    rw [hblocks, take_length_add_append]
    rfl
  rw [hnames done.length blk hget, hcut]

/-- The cursor names the path stored so far. -/
lemma NamesPaths.cursor_path (hnames : NamesPaths path parentSeq blocks)
    (hblocks : blocks = done ++ more) (hs : cursorAfter parentSeq done = some s) :
    path s = parentPath path parentSeq ++ done.map Prod.snd := by
  unfold cursorAfter at hs
  split at hs
  · next b hlast =>
    cases hs
    obtain ⟨init, rfl⟩ := getLast?_eq_some_iff.1 hlast
    refine hnames.path_eq init b more ?_
    rw [hblocks, append_assoc]
    rfl
  next hlast =>
  obtain rfl := getLast?_eq_none_iff.1 hlast
  rw [hs]
  exact (append_nil _).symm

/-- One iteration of the store loop keeps the representation. -/
lemma Represents.storeStep (hrep : Represents path pre sh) (hst : Stored sh0 key done sh)
    (hparent : ∀ s, parentSeq = some s → sh0.Known s) (hnames : NamesPaths path parentSeq blocks)
    (hblocks : blocks = done ++ blk :: more) :
    StoreStep key (cursorAfter parentSeq done)
      (fun d sh' => Stored sh0 key d sh' ∧ ∃ pre, Represents path pre sh') done blk more sh := by
  let base := parentPath path parentSeq ++ done.map Prod.snd
  -- the path of the block recorded after `d`
  have hblock : ∀ d blk' rest, blk :: more = d ++ blk' :: rest →
      path blk'.1 = base ++ (d ++ [blk']).map Prod.snd := by
    intro d blk' rest hd
    have h := hnames.path_eq (done ++ d) blk' rest (by rw [hblocks, hd, append_assoc])
    rw [h]
    simp [base]
  -- below a node that ends at `base`, both continuations keep the representation
  have hbelow : ∀ sh1 pre1 node
      (parent : TreeNode), sh.lockCursor (cursorAfter parentSeq done) = some (sh1, node, parent) →
      Stored sh0 key done sh1 → Represents path pre1 sh1 → sh1.nodes[node]? = some parent →
      pre1 node ++ parent.locals = base →
      StoreStep key (cursorAfter parentSeq done)
        (fun d sh' => Stored sh0 key d sh' ∧ ∃ pre, Represents path pre sh')
        done blk more sh := by
    intro sh1 pre1 node parent hlock hst1 hrep1 hp hbase
    refine ⟨sh1, node, parent, hlock, fun hfree => ?_, fun child hchild => ?_⟩
    · obtain ⟨sh', hrun, hst', pre', hrep', -⟩ := appendChild_rule
        (P := fun d sh2 => Stored sh0 key (done ++ d) sh2 ∧
          ∃ pre2, Represents path pre2 sh2 ∧ pre2 sh1.nodes.length = base) hp key
        ⟨(append_nil done).symm ▸ hst1.attach hp rfl, _, hrep1.attach hp rfl hfree,
          (extendPre_new _ _ _).trans hbase⟩
        (fun d blk' rest _ _ _ cl hd hn hlocals hb hcl hP => by
          obtain ⟨hst2, pre2, hrep2, hpre2⟩ := hP
          refine ⟨append_assoc done d [blk'] ▸ hst2.record cl blk' hn hb, pre2, ?_, hpre2⟩
          refine hrep2.record hn hb hcl ?_
          rw [hblock d blk' rest hd, hpre2, hlocals])
      exact ⟨sh', hrun, hst', pre', hrep'⟩
    · obtain ⟨c, hc, hhead⟩ := hst1.wf.child node parent blk.2 child hp hchild
      have hpre : pre1 child = base := (hrep1.child_pre node parent _ child hp hchild).trans hbase
      obtain ⟨sh', m, hrun, hm, hst', pre', hrep', -⟩ := claimChild_rule
        (P := fun d sh2 => Stored sh0 key (done ++ d) sh2 ∧
          ∃ pre2, Represents path pre2 sh2 ∧ pre2 child = base) hst1.wf hc more hhead key
        (fun _ b hpos hb => ⟨(append_nil done).symm ▸ hst1.split hc hpos hb, _,
          hrep1.split hc hpos hb, (extendPre_old (lt_length_of_getElem? hc) _).trans hpre⟩)
        (fun d blk' rest _ _ _ cl hd hn hlocals hb hcl hP => by
          obtain ⟨hst2, pre2, hrep2, hpre2⟩ := hP
          refine ⟨append_assoc done d [blk'] ▸ hst2.record cl blk' hn hb, pre2, ?_, hpre2⟩
          refine hrep2.record hn hb hcl ?_
          rw [hblock d blk' rest hd, hpre2, hlocals])
        ⟨(append_nil done).symm ▸ hst1, pre1, hrep1, hpre⟩
      exact ⟨sh', m, hrun, hm, hst', pre', hrep'⟩
  rcases lockCursor_cases hst.wf (hst.cursor_known hparent) with
    ⟨r, hcur, hr, hedge, hlock⟩ |
    ⟨s, node, n, pos, b, hcur, -, hn, hb, hs, ⟨hend, hlock⟩ | ⟨b', hb', hlock⟩⟩
  · refine hbelow sh pre rootRef r hlock hst hrep hr ?_
    have hdone : done = [] ∧ parentSeq = none := by
      unfold cursorAfter at hcur
      split at hcur
      · cases hcur
      · next hlast => exact ⟨getLast?_eq_none_iff.1 hlast, hcur⟩
    rw [hrep.root_pre]
    simp [base, locals, hedge, hdone.1, hdone.2, parentPath]
  · refine hbelow sh pre node n hlock hst hrep hn ?_
    have hpath := hrep.alias_path hn hb hs
    rw [hnames.cursor_path hblocks hcur, hend, take_of_length_le (by simp [locals])] at hpath
    exact hpath.symm
  have hpath := hrep.alias_path hn hb hs
  rw [hnames.cursor_path hblocks hcur] at hpath
  refine hbelow _ _ node _ hlock (hst.split hn (Nat.succ_pos pos) hb')
    (hrep.split hn (Nat.succ_pos pos) hb') (by rw [split_nodes hn, if_pos rfl]) ?_
  rw [extendPre_old (lt_length_of_getElem? hn)]
  show pre node ++ (n.edge.take (pos + 1)).map localHash = base
  rw [map_take]
  exact hpath.symm

/-- A store that respects the contract keeps the representation. -/
lemma Represents.store (hrep : Represents path pre sh) (hnames : NamesPaths path parentSeq blocks)
    (hrun : sh.store owner tier parentSeq blocks = some sh') :
    ∃ pre', Represents path pre' sh' := by
  by_cases hparent : ∀ s, parentSeq = some s → sh.Known s
  · obtain ⟨sh1, hloop, -, hrep'⟩ := storeLoop_rule
      (I := fun d sh1 => Stored sh (owner, tier) d sh1 ∧ ∃ pre, Represents path pre sh1)
      (fun _ _ _ sh1 hblocks h =>
        h.2.elim fun _ hrep1 => hrep1.storeStep h.1 hparent hnames hblocks)
      blocks.length blocks [] sh rfl le_rfl
      ⟨stored_refl hrep.wf (owner, tier), pre, hrep⟩
    have hsame : sh.store owner tier parentSeq blocks = some sh1 := by
      cases parentSeq with
      | none => exact hloop
      | some s => exact (if_pos (hparent s rfl)).trans hloop
    obtain rfl := some.inj (hrun.symm.trans hsame)
    exact hrep'
  · cases parentSeq with
    | none => exact absurd nofun hparent
    | some s =>
      have hunknown : ¬ sh.Known s := fun hs => hparent fun s' hs' => by
        cases hs'
        exact hs
      obtain rfl := some.inj (hrun.symm.trans (store_unanchored owner tier hunknown blocks))
      exact ⟨pre, hrep⟩

end GroupShard

end VllmRouter.KvIndex
