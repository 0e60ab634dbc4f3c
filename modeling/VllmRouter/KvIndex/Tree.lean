import VllmRouter.KvIndex.Indexer

/-!
# Heap steps of the radix tree

A `store` edits the heap in three ways: it splits an edge, attaches a new
child, and records a sequence hash at a block. This module names the three
edits as pure functions, says what each does to the heap, and shows that the
source's locked sections are compositions of them.

- `WellFormed`: what every operation needs in order to return. It makes no
  assumption on the stored keys.
- `split`, `attach`, `record`: the edits, each with its effect on nodes,
  anchors and claims.
-/

namespace VllmRouter.KvIndex

open List TreeNode EdgeBlock

/-- The block-local hashes of a node's edge. -/
def TreeNode.locals (n : TreeNode) : List Hash := n.edge.map localHash

variable {c n : TreeNode} {node : NodeRef} {sh : GroupShard} {b : EdgeBlock}

namespace GroupShard

/-- `key` has an active claim on `seq`. -/
def Active (sh : GroupShard) (key : OwnerTier) (seq : Hash) : Prop :=
  seq ∈ (sh.reverse.lookup key).getD []

instance (sh : GroupShard) (key : OwnerTier) (seq : Hash) : Decidable (sh.Active key seq) :=
  inferInstanceAs (Decidable (seq ∈ (sh.reverse.lookup key).getD []))

/-- `seq` has been stored at some time: it is anchored. -/
def Known (sh : GroupShard) (seq : Hash) : Prop := (sh.anchors.lookup seq).isSome

/-- What the operations rely on, whatever keys were stored. -/
structure WellFormed (sh : GroupShard) : Prop where
  root : ∃ r, sh.nodes[rootRef]? = some r ∧ r.edge = []
  claims_length : ∀ (i : NodeRef) (n : TreeNode), sh.nodes[i]? = some n →
    n.claims.length = n.edge.length
  child : ∀ (i : NodeRef) (n : TreeNode) h c, sh.nodes[i]? = some n →
    n.children.lookup h = some c → ∃ m, sh.nodes[c]? = some m ∧ m.locals.head? = some h
  anchored : ∀ s i, sh.anchors.lookup s = some i →
    ∃ (n : TreeNode) (idx : Nat) (b : EdgeBlock),
      sh.nodes[i]? = some n ∧ n.edge[idx]? = some b ∧ s ∈ b.aliases
  alias_known : ∀ (i : NodeRef) (n : TreeNode) (idx : Nat) (b : EdgeBlock) s,
    sh.nodes[i]? = some n → n.edge[idx]? = some b → s ∈ b.aliases → sh.Known s
  claimed_known : ∀ key s, sh.Active key s → sh.Known s

lemma wellFormed_new : WellFormed new where
  root := ⟨root, rfl, rfl⟩
  claims_length i n h := by
    cases i with
    | zero =>
      cases h
      rfl
    | succ => simp [new] at h
  child i n h c hn hc := by
    cases i with
    | zero =>
      cases hn
      cases hc
    | succ => simp [new] at hn
  anchored s i h := by cases h
  alias_known i n idx b s hn hb _ := by
    cases i with
    | zero =>
      cases hn
      cases hb
    | succ => simp [new] at hn
  claimed_known key s h := by cases h

/-! ## The three edits -/

/-- The part of a split that leaves the node itself alone: the blocks from
`pos` on move to a new node and their aliases are re-anchored there. -/
def splitOff (sh : GroupShard) (c : TreeNode) (pos : Nat) : GroupShard :=
  { sh with
    nodes := sh.nodes ++ [TreeNode.mk (c.edge.drop pos) (c.claims.drop pos) c.children]
    anchors := reanchor sh.anchors (c.edge.drop pos) sh.nodes.length }

/-- What stays on a split node: the blocks before `pos`, above the new node. -/
def splitKept (sh : GroupShard) (c : TreeNode) (pos : Nat) (h : Hash) : TreeNode :=
  ⟨c.edge.take pos, c.claims.take pos, (∅ : Dict Hash NodeRef).insert h sh.nodes.length⟩

/-- Cut the edge of `node` at `pos`; `h` is the local hash at the cut. -/
def split (sh : GroupShard) (node : NodeRef) (c : TreeNode) (pos : Nat) (h : Hash) :
    GroupShard :=
  (sh.splitOff c pos).write node (sh.splitKept c pos h)

/-- A run of blocks that carries no identity yet. -/
def blankNode (locals : List Hash) : TreeNode :=
  ⟨locals.map fun l => ⟨[], l⟩, locals.map fun _ => [], ∅⟩

/-- Hang a blank run of blocks below `node`. -/
def attach (sh : GroupShard) (node : NodeRef) (parent : TreeNode) (h : Hash)
    (locals : List Hash) : GroupShard :=
  { sh with
    nodes := (sh.nodes ++ [blankNode locals]).set node
      { parent with children := parent.children.insert h sh.nodes.length } }

/-- The part of a record that leaves the node itself alone: anchor, reverse
entry and count. -/
def recordMaps (sh : GroupShard) (node : NodeRef) (key : OwnerTier) (seq : Hash) :
    GroupShard :=
  let claimed := (sh.reverse.lookup key).getD []
  { sh with
    anchors := sh.anchors.insert seq node
    reverse := sh.reverse.insert key (claimed.insert seq)
    counts := if seq ∈ claimed then sh.counts else sh.counts.upsert key 0 (· + 1) }

/-- Record `seq` for `key` at block `i` of `node`. -/
def record (sh : GroupShard) (node : NodeRef) (n : TreeNode) (i : Nat) (b : EdgeBlock)
    (cl : List OwnerTier) (key : OwnerTier) (seq : Hash) : GroupShard :=
  (sh.recordMaps node key seq).write node (recordNode n i b cl key seq)

lemma getElem?_append_set {α : Type} (l : List α) (i j) (x y : α) (hi : i < l.length) :
    ((l ++ [x]).set i y)[j]?
      = if j = i then some y else if j = l.length then some x else l[j]? := by
  rw [getElem?_set]
  by_cases hij : i = j
  · subst hij
    rw [if_pos rfl, if_pos rfl, if_pos (by rw [length_append]; omega)]
  rw [if_neg hij, if_neg (Ne.symm hij)]
  rcases Nat.lt_trichotomy j l.length with h | h | h
  · rw [getElem?_append_left h, if_neg (Nat.ne_of_lt h)]
  · subst h
    simp
  · rw [if_neg (Nat.ne_of_gt h), getElem?_eq_none (by simp; omega),
      getElem?_eq_none (Nat.le_of_lt h)]

/-- After re-anchoring, exactly the aliases of the moved blocks point at `node`. -/
lemma lookup_reanchor (m : Dict Hash NodeRef) (blocks : List EdgeBlock) (node s) :
    (reanchor m blocks node).lookup s
      = if s ∈ blocks.flatMap aliases then some node else m.lookup s :=
  Dict.lookup_foldl_insert node _ s m

section Effects

variable {sh : GroupShard} {node : NodeRef}

section

variable (hc : sh.nodes[node]? = some c)
include hc

lemma lt_length_of_getElem? : node < sh.nodes.length := (List.getElem?_eq_some_iff.1 hc).1

lemma split_nodes (pos h j) :
    (sh.split node c pos h).nodes[j]? = if j = node then some (sh.splitKept c pos h)
        else if j = sh.nodes.length then some ⟨c.edge.drop pos, c.claims.drop pos, c.children⟩
        else sh.nodes[j]? :=
  getElem?_append_set sh.nodes node j _ _ (lt_length_of_getElem? hc)

lemma attach_nodes (h locals j) :
    (sh.attach node c h locals).nodes[j]?
      = if j = node then some { c with children := c.children.insert h sh.nodes.length }
        else if j = sh.nodes.length then some (blankNode locals) else sh.nodes[j]? :=
  getElem?_append_set sh.nodes node j _ _ (lt_length_of_getElem? hc)

end

lemma record_nodes (hn : sh.nodes[node]? = some n) (i b cl key seq j) :
    (sh.record node n i b cl key seq).nodes[j]?
      = if j = node then some (recordNode n i b cl key seq) else sh.nodes[j]? := by
  show (sh.nodes.set node _)[j]? = _
  by_cases h : node = j
  · subst h
    simp [lt_length_of_getElem? hn]
  · simp [h, Ne.symm h]

variable (n : TreeNode) (i : Nat) (b : EdgeBlock) (cl : List OwnerTier) (key : OwnerTier)

lemma record_active (seq k s) :
    (sh.record node n i b cl key seq).Active k s ↔ sh.Active k s ∨ (k = key ∧ s = seq) := by
  show s ∈ ((sh.reverse.insert key _).lookup k).getD [] ↔ _
  unfold Active
  by_cases h : k = key
  · subst h
    simp [or_comm]
  · simp [h]

lemma record_known (seq s) :
    (sh.record node n i b cl key seq).Known s ↔ sh.Known s ∨ s = seq := by
  show ((sh.anchors.insert seq node).lookup s).isSome ↔ _
  unfold Known
  rw [Dict.lookup_insert_eq]
  by_cases h : s = seq <;> simp [h]

end Effects

/-! ## The source's sections as compositions of the edits -/

lemma write_nodes_self (n) (hlt : node < sh.nodes.length) :
    (sh.write node n).nodes[node]? = some n := by
  show (sh.nodes.set node n)[node]? = some n
  rw [getElem?_set_self hlt]

/-- `splitLocked` computes the two halves of the `split` edit. -/
lemma splitLocked_eq (hb : c.edge[pos]? = some b) (hlen : c.claims.length = c.edge.length) :
    sh.splitLocked c pos = some (sh.splitOff c pos, sh.splitKept c pos b.localHash) := by
  obtain ⟨hpos, hget⟩ := List.getElem?_eq_some_iff.1 hb
  have hdrop : c.edge.drop pos = b :: c.edge.drop (pos + 1) := by
    rw [List.drop_eq_getElem_cons hpos, hget]
  unfold splitLocked splitOff
  rw [hdrop]
  simp only [if_neg (show ¬ c.claims.length < pos by omega)]
  rfl

/-- Recording changes no local hash. -/
lemma recordNode_locals (cl key seq) (hb : n.edge[i]? = some b) :
    (recordNode n i b cl key seq).locals = n.locals := by
  obtain ⟨hi, hget⟩ := List.getElem?_eq_some_iff.1 hb
  show (n.edge.set i _).map localHash = n.edge.map localHash
  rw [List.map_set]
  refine List.ext_getElem? fun j => ?_
  rw [List.getElem?_set]
  by_cases hij : i = j
  · subst hij
    simp [hi, hget]
  · rw [if_neg hij]

/-- `recordBlock` computes the two halves of the `record` edit. -/
lemma recordBlock_eq (key seq) (hb : n.edge[i]? = some b) (hcl : n.claims[i]? = some cl) :
    sh.recordBlock n node key i seq
      = some (sh.recordMaps node key seq, recordNode n i b cl key seq) := by
  unfold recordBlock
  rw [hb, hcl]
  rfl

/-- Invariant rule for `recordLocked`: a property kept by each `record` edit
holds once all blocks are recorded and the node is written back. The run of
local hashes never changes. -/
lemma recordLocked_rule {key : OwnerTier} {blocks : List IncomingBlock} {locals : List Hash}
    {P : List IncomingBlock → GroupShard → Prop}
    (hstep : ∀ done blk rest sh n b cl, blocks = done ++ blk :: rest →
      sh.nodes[node]? = some n → n.locals = locals → n.edge[done.length]? = some b →
      n.claims[done.length]? = some cl → P done sh →
      P (done ++ [blk]) (sh.record node n done.length b cl key blk.1))
    (hfit : blocks.length ≤ locals.length) :
    ∀ (rest done : List IncomingBlock) (sh : GroupShard) (n : TreeNode),
      blocks = done ++ rest → node < sh.nodes.length → n.locals = locals →
      n.claims.length = n.edge.length → P done (sh.write node n) →
      ∃ sh' n', sh.recordLocked n node key done.length rest = some (sh', n') ∧
        P blocks (sh'.write node n') := by
  intro rest
  induction rest with
  | nil =>
    intro _ sh n hblocks _ _ _ hP
    rw [append_nil] at hblocks
    exact ⟨sh, n, rfl, hblocks ▸ hP⟩
  | cons blk rest ih =>
    intro done sh n hblocks hnode hlocals hlen hP
    have hpos : done.length < n.edge.length := by
      have h1 : n.edge.length = locals.length := by rw [← hlocals]; simp [TreeNode.locals]
      have h2 : blocks.length = done.length + (rest.length + 1) := by rw [hblocks]; simp
      omega
    have hb := getElem?_eq_getElem hpos
    have hcl := getElem?_eq_getElem (hlen.symm ▸ hpos : done.length < n.claims.length)
    have hrec := hstep done blk rest _ n _ _ hblocks (write_nodes_self n hnode) hlocals hb hcl hP
    have hwrite : ∀ m, ((sh.write node n).recordMaps node key blk.1).write node m
        = (sh.recordMaps node key blk.1).write node m := by
      intro m
      show GroupShard.mk ((sh.nodes.set node n).set node m) _ _ _ = GroupShard.mk _ _ _ _
      rw [set_set]
      rfl
    rw [record, hwrite] at hrec
    obtain ⟨sh', n', hrun, hP'⟩ := ih (done ++ [blk]) (sh.recordMaps node key blk.1) _
      (by rw [hblocks]; simp) hnode
      ((recordNode_locals _ key blk.1 hb).trans hlocals)
      (by simp [recordNode, hlen]) hrec
    refine ⟨sh', n', ?_, hP'⟩
    rw [length_append] at hrun
    unfold recordLocked
    rw [recordBlock_eq key blk.1 hb hcl]
    exact hrun

/-- Recording reads no node but the one it is given. -/
lemma recordLocked_write (node' x node key blocks) :
    ∀ (sh : GroupShard) (n : TreeNode) (i : Nat),
      (sh.write node' x).recordLocked n node key i blocks
        = (sh.recordLocked n node key i blocks).map fun r => (r.1.write node' x, r.2) := by
  induction blocks with
  | nil => exact fun _ _ _ => rfl
  | cons blk _ ih =>
    intro sh n i
    unfold recordLocked
    cases hb : n.edge[i]? with
    | none => simp [recordBlock, hb]
    | some =>
      cases hcl : n.claims[i]? with
      | none => simp [recordBlock, hb, hcl]
      | some =>
        rw [recordBlock_eq key blk.1 hb hcl, recordBlock_eq key blk.1 hb hcl]
        exact ih (sh.recordMaps node key blk.1) _ (i + 1)

/-- A fresh node already carries the identities that recording adds, so it may
as well start blank. -/
lemma recordLocked_blank (node key rest) :
    ∀ (sh : GroupShard) (pre : List EdgeBlock) (claims : List (List OwnerTier))
      (children : Dict Hash NodeRef),
      sh.recordLocked ⟨pre ++ rest.map (fun b => ⟨[b.1], b.2⟩), claims, children⟩ node key
          pre.length rest
        = sh.recordLocked ⟨pre ++ (rest.map Prod.snd).map (fun l => ⟨[], l⟩), claims, children⟩
            node key pre.length rest := by
  induction rest with
  | nil => exact fun _ _ _ _ => rfl
  | cons blk rest ih =>
    intro sh pre claims children
    unfold recordLocked
    cases hcl : claims[pre.length]? with
    | none => simp [recordBlock, hcl]
    | some cl =>
      have hleft : (pre ++ (blk :: rest).map fun b => EdgeBlock.mk [b.1] b.2)[pre.length]?
          = some ⟨[blk.1], blk.2⟩ := by simp
      have hright : (pre ++ ((blk :: rest).map Prod.snd).map (EdgeBlock.mk []))[pre.length]?
          = some ⟨[], blk.2⟩ := by simp
      rw [recordBlock_eq key blk.1 hleft hcl, recordBlock_eq key blk.1 hright hcl]
      have h := ih (sh.recordMaps node key blk.1) (pre ++ [⟨[blk.1], blk.2⟩])
        (claims.set pre.length (if key ∈ cl then cl else cl ++ [key])) children
      simpa [recordNode] using h

/-! ## Resolving and matching -/

/-- The common prefix of two lists under readings `f` and `g`: it fits in both,
the readings agree on it, and they differ right after it. -/
lemma zip_takeWhile_spec {α β : Type} (f : α → Hash) (g : β → Hash) (xs : List α) :
    ∀ ys m, ((xs.zip ys).takeWhile fun p => decide (f p.1 = g p.2)).length = m →
      m ≤ xs.length ∧ m ≤ ys.length ∧ (xs.map f).take m = (ys.map g).take m ∧
        ∀ x y, (xs.map f)[m]? = some x → (ys.map g)[m]? = some y → x ≠ y := by
  induction xs with
  | nil =>
    rintro ys m rfl
    simp
  | cons x xs ih =>
    rintro (_ | ⟨y, ys⟩) m rfl
    · simp
    obtain ⟨_, _, h3, h4⟩ := ih ys _ rfl
    by_cases hxy : f x = g y
    · simp only [zip_cons_cons, hxy, decide_true, takeWhile_cons_of_pos, length_cons, map_cons,
        take_succ_cons]
      exact ⟨by omega, by omega, by rw [h3], h4⟩
    · simp [hxy]

lemma aliasPos_some {edge : List EdgeBlock} (h : aliasPos edge seq = some pos) :
    ∃ b, edge[pos]? = some b ∧ seq ∈ b.aliases := by
  obtain ⟨hlt, hb, -⟩ := findIdx?_eq_some_iff_getElem.1 h
  exact ⟨edge[pos], getElem?_eq_getElem hlt, of_decide_eq_true hb⟩

lemma aliasPos_exists {edge : List EdgeBlock} {idx : Nat} (hb : edge[idx]? = some b)
    (hs : seq ∈ b.aliases) : ∃ pos, aliasPos edge seq = some pos := by
  refine Option.isSome_iff_exists.1 ?_
  unfold aliasPos
  rw [findIdx?_isSome, any_eq_true]
  exact ⟨b, mem_of_getElem? hb, decide_eq_true hs⟩

/-- What locking a resolvable cursor does: nothing, or one split right after
the cursor's block. Either way the cursor's block ends the returned node. -/
lemma lockCursor_cases (hwf : WellFormed sh) (hcur : ∀ s, cursor = some s → sh.Known s) :
    (∃ r, cursor = none ∧ sh.nodes[rootRef]? = some r ∧ r.edge = [] ∧
      sh.lockCursor cursor = some (sh, rootRef, r)) ∨
    (∃ s node n pos b, cursor = some s ∧ sh.anchors.lookup s = some node ∧
      sh.nodes[node]? = some n ∧ n.edge[pos]? = some b ∧ s ∈ b.aliases ∧
      ((pos + 1 = n.edge.length ∧ sh.lockCursor cursor = some (sh, node, n)) ∨
        ∃ b', n.edge[pos + 1]? = some b' ∧
          sh.lockCursor cursor = some (sh.split node n (pos + 1) b'.localHash, node,
            sh.splitKept n (pos + 1) b'.localHash))) := by
  cases cursor with
  | none =>
    obtain ⟨r, hr, hedge⟩ := hwf.root
    refine .inl ⟨r, rfl, hr, hedge, ?_⟩
    simp [lockCursor, hr]
  | some s =>
    obtain ⟨node, hnode⟩ := Option.isSome_iff_exists.1 (hcur s rfl)
    obtain ⟨n, _, _, hn, hb0, hs0⟩ := hwf.anchored s node hnode
    obtain ⟨pos, hpos⟩ := aliasPos_exists hb0 hs0
    obtain ⟨b, hb, hs⟩ := aliasPos_some hpos
    have hlt := (List.getElem?_eq_some_iff.1 hb).1
    refine .inr ⟨s, node, n, pos, b, rfl, hnode, hn, hb, hs, ?_⟩
    by_cases hint : pos + 1 < n.edge.length
    · have hb' := List.getElem?_eq_getElem hint
      refine .inr ⟨_, hb', ?_⟩
      simp only [lockCursor, hnode, hn, hpos, Option.bind_eq_bind, Option.bind_some,
        if_pos hint, splitLocked_eq hb' (hwf.claims_length node n hn)]
      rfl
    · refine .inl ⟨by omega, ?_⟩
      simp [lockCursor, hnode, hn, hpos, hint]

/-- Invariant rule for `claimChild`: one optional split of the child, then one
`record` edit for each matched block. -/
lemma claimChild_rule (hwf : WellFormed sh) (hc : sh.nodes[child]? = some c) (more)
    (hhead : c.locals.head? = some blk.2) (key) {P : List IncomingBlock → GroupShard → Prop}
    (hsplit : ∀ pos b, 0 < pos → c.edge[pos]? = some b → P [] (sh.split child c pos b.localHash))
    (hrecord : ∀ done blk' rest sh' n b cl, blk :: more = done ++ blk' :: rest →
      sh'.nodes[child]? = some n → n.locals.take (done.length + 1) = (done ++ [blk']).map Prod.snd →
      n.edge[done.length]? = some b → n.claims[done.length]? = some cl → P done sh' →
      P (done ++ [blk']) (sh'.record child n done.length b cl key blk'.1)) (hP : P [] sh) :
    ∃ sh' matched, sh.claimChild child key (blk :: more) = some (sh', matched) ∧
      0 < matched ∧ P ((blk :: more).take matched) sh' := by
  obtain ⟨m, hm⟩ : ∃ m, edgeCommonPrefix c.edge (blk :: more) = m := ⟨_, rfl⟩
  obtain ⟨_, _, htake, hdiff⟩ := zip_takeWhile_spec localHash Prod.snd c.edge (blk :: more) m hm
  have hlen := hwf.claims_length child c hc
  have hpos : 0 < m := by
    refine Nat.pos_of_ne_zero ?_
    rintro rfl
    rw [List.head?_eq_getElem?] at hhead
    exact hdiff blk.2 blk.2 hhead rfl rfl
  have hclen : c.locals.length = c.edge.length := List.length_map _
  -- the record phase, from a node `n` whose edge is exactly the matched run
  have hphase : ∀ (sh₁ : GroupShard) (n : TreeNode), child < sh₁.nodes.length →
      n.locals = c.locals.take m → n.claims.length = n.edge.length → P [] (sh₁.write child n) →
      ∃ sh' n', sh₁.recordLocked n child key 0 ((blk :: more).take m) = some (sh', n') ∧
        P ((blk :: more).take m) (sh'.write child n') := by
    intro sh₁ n hlt hlocals hn hP1
    refine recordLocked_rule ?_ ?_ ((blk :: more).take m) [] sh₁ n rfl hlt hlocals hn hP1
    · intro done blk' rest sh' n' b cl hsplitAt hn' hlocals' hb hcl hPd
      have hall : blk :: more = done ++ blk' :: (rest ++ (blk :: more).drop m) := by
        have h := (List.take_append_drop m (blk :: more)).symm
        rw [hsplitAt, List.append_assoc] at h
        exact h
      refine hrecord done blk' _ sh' n' b cl hall hn' ?_ hb hcl hPd
      have hrun : n'.locals = (done ++ blk' :: rest).map Prod.snd := by
        rw [hlocals', ← hsplitAt, List.map_take]
        exact htake
      have hcut : (done ++ blk' :: rest).take (done.length + 1) = done ++ [blk'] := by
        rw [List.take_length_add_append]
        rfl
      rw [hrun, ← List.map_take, hcut]
    · rw [List.length_take, List.length_take]
      omega
  by_cases hint : m < c.edge.length
  · have hb := List.getElem?_eq_getElem hint
    have hsp := hsplit m _ hpos hb
    obtain ⟨sh', n', hrun, hP'⟩ := hphase (sh.splitOff c m) (sh.splitKept c m _) (by
        show child < (sh.nodes ++ [_]).length
        rw [List.length_append]
        exact Nat.lt_add_right _ (lt_length_of_getElem? hc))
      (by simp [splitKept, locals, List.map_take])
      (by simp [splitKept, hlen]) hsp
    refine ⟨sh'.write child n', m, ?_, hpos, hP'⟩
    simp [claimChild, hc, hm, if_neg hpos.ne', if_pos hint, splitLocked_eq hb hlen, hrun]
  · have hself : sh.write child c = sh := by
      obtain ⟨_, hget⟩ := List.getElem?_eq_some_iff.1 hc
      show { sh with nodes := sh.nodes.set child c } = sh
      rw [← hget, List.set_getElem_self]
    obtain ⟨sh', n', hrun, hP'⟩ := hphase sh c (lt_length_of_getElem? hc)
      (by rw [List.take_of_length_le (by omega)]) hlen (hself.symm ▸ hP)
    refine ⟨sh'.write child n', m, ?_, hpos, hP'⟩
    simp [claimChild, hc, hm, if_neg hpos.ne', if_neg hint, hrun]

/-- Invariant rule for `appendChild`: attach a blank run, then one `record` edit
for each block. -/
lemma appendChild_rule {sh : GroupShard} {node : NodeRef} (hp : sh.nodes[node]? = some parent)
    (key) {P : List IncomingBlock → GroupShard → Prop}
    (hattach : P [] (sh.attach node parent blk.2 ((blk :: more).map Prod.snd)))
    (hrecord : ∀ done blk' rest sh' n b cl, blk :: more = done ++ blk' :: rest →
      sh'.nodes[sh.nodes.length]? = some n →
      n.locals.take (done.length + 1) = (done ++ [blk']).map Prod.snd →
      n.edge[done.length]? = some b → n.claims[done.length]? = some cl → P done sh' →
      P (done ++ [blk']) (sh'.record sh.nodes.length n done.length b cl key blk'.1)) :
    ∃ sh', sh.appendChild node parent key blk.2 (blk :: more) = some sh' ∧ P (blk :: more) sh' := by
  generalize hblocks : blk :: more = blocks at *
  have hne : node ≠ sh.nodes.length := Nat.ne_of_lt (lt_length_of_getElem? hp)
  let linked : TreeNode := { parent with children := parent.children.insert blk.2 sh.nodes.length }
  let fresh := sh.alloc (withEdge blocks)
  have hlocals : (blankNode (blocks.map Prod.snd)).locals = blocks.map Prod.snd := by
    simp [blankNode, locals]
  -- linking the parent first gives the same heap, and recording cannot tell
  have hstart : (fresh.write node linked).write sh.nodes.length
      (blankNode (blocks.map Prod.snd)) = sh.attach node parent blk.2 (blocks.map Prod.snd) := by
    show GroupShard.mk (((sh.nodes ++ [_]).set node _).set _ _) _ _ _ = GroupShard.mk _ _ _ _
    rw [set_comm _ _ hne, set_append_right _ _ le_rfl, Nat.sub_self]
    rfl
  obtain ⟨sh', n', hrun, hP⟩ := @recordLocked_rule sh.nodes.length key blocks
    (blocks.map Prod.snd) P
    (fun done blk' rest sh' n b cl hb hn hl hbk hcl hPd =>
      hrecord done blk' rest sh' n b cl hb hn (by
          have hcut : (done ++ blk' :: rest).take (done.length + 1) = done ++ [blk'] := by
            rw [take_length_add_append]
            rfl
          rw [hl, ← map_take, hb, hcut])
        hbk hcl hPd)
    (by simp) blocks [] (fresh.write node linked) (blankNode (blocks.map Prod.snd)) rfl
    (by simp [fresh, alloc, write]) hlocals (by simp [blankNode]) (hstart.symm ▸ hattach)
  rw [recordLocked_write] at hrun
  obtain ⟨⟨sh₁, n1⟩, hrec, heq⟩ := Option.map_eq_some_iff.1 hrun
  obtain ⟨rfl, rfl⟩ := Prod.mk.inj heq
  have hblank := recordLocked_blank sh.nodes.length key blocks fresh [] (blocks.map fun _ => []) ∅
  have hfresh : fresh.recordLocked (withEdge blocks) sh.nodes.length key 0 blocks
      = some (sh₁, n1) := by
    refine hblank.trans ?_
    simpa [blankNode, Function.comp_def] using hrec
  refine ⟨(sh₁.write sh.nodes.length n1).write node linked, ?_, ?_⟩
  · show (fresh.recordLocked _ _ _ _ _).bind _ = _
    rw [hfresh]
    rfl
  have hcomm : (sh₁.write sh.nodes.length n1).write node linked
      = (sh₁.write node linked).write sh.nodes.length n1 := by
    show GroupShard.mk ((sh₁.nodes.set _ _).set _ _) _ _ _ = GroupShard.mk _ _ _ _
    rw [set_comm _ _ hne.symm]
    rfl
  rw [hcomm]
  exact hP

/-- The cursor below which the blocks after `done` are stored. -/
def cursorAfter (parentSeq : Option Hash) (done : List IncomingBlock) : Option Hash :=
  match done.getLast? with
  | some b => some b.1
  | none => parentSeq

/-- One iteration of `store` on the blocks `blk :: more` left after `done`
returns and re-establishes `I`. -/
def StoreStep (key : OwnerTier) (cursor : Option Hash)
    (I : List IncomingBlock → GroupShard → Prop) (done : List IncomingBlock)
    (blk : IncomingBlock) (more : List IncomingBlock) (sh : GroupShard) : Prop :=
  ∃ sh₁ node parent, sh.lockCursor cursor = some (sh₁, node, parent) ∧
    (parent.children.lookup blk.2 = none →
      ∃ sh', sh₁.appendChild node parent key blk.2 (blk :: more) = some sh' ∧
        I (done ++ blk :: more) sh') ∧
    ∀ child, parent.children.lookup blk.2 = some child →
      ∃ sh' matched, sh₁.claimChild child key (blk :: more) = some (sh', matched) ∧
        0 < matched ∧ I (done ++ (blk :: more).take matched) sh'

/-- Invariant rule for the loop of `store`: when every iteration keeps `I`, the
loop returns with all blocks stored. -/
lemma storeLoop_rule (hstep : ∀ done blk more sh, blocks = done ++ blk :: more → I done sh →
      StoreStep key (cursorAfter parentSeq done) I done blk more sh) :
    ∀ fuel rest done sh,
      blocks = done ++ rest → rest.length ≤ fuel → I done sh →
      ∃ sh', storeLoop key fuel sh (cursorAfter parentSeq done) rest = some sh' ∧ I blocks sh' := by
  intro fuel
  induction fuel with
  | zero =>
    intro _ _ sh hblocks hfuel hI
    obtain rfl := length_eq_zero_iff.1 (Nat.le_zero.1 hfuel)
    rw [append_nil] at hblocks
    exact ⟨sh, rfl, hblocks ▸ hI⟩
  | succ _ ih =>
    intro rest done sh hblocks hfuel hI
    cases rest with
    | nil =>
      rw [append_nil] at hblocks
      exact ⟨sh, rfl, hblocks ▸ hI⟩
    | cons blk more =>
      obtain ⟨_, _, parent, hlock, hnone, hsome⟩ := hstep done blk more sh hblocks hI
      cases hchild : parent.children.lookup blk.2 with
      | none =>
        obtain ⟨sh', happ, hI'⟩ := hnone hchild
        refine ⟨sh', ?_, hblocks ▸ hI'⟩
        simp [storeLoop, hlock, hchild, happ]
      | some child =>
        obtain ⟨sh2, m, hclaim, hm, hI2⟩ := hsome child hchild
        obtain ⟨sh', hrun, hI'⟩ := ih ((blk :: more).drop m) (done ++ (blk :: more).take m) sh2
          (by rw [hblocks, append_assoc, take_append_drop])
          (by rw [length_drop]; simp only [length_cons] at hfuel ⊢; omega) hI2
        refine ⟨sh', ?_, hI'⟩
        have hcursor : cursorAfter parentSeq (done ++ (blk :: more).take m)
            = ((blk :: more).take m).getLast?.map Prod.fst := by
          obtain ⟨k, rfl⟩ := Nat.exists_eq_succ_of_ne_zero hm.ne'
          unfold cursorAfter
          rw [take_succ_cons, getLast?_append_of_ne_nil _ (cons_ne_nil _ _)]
          rfl
        rw [hcursor] at hrun
        simp [storeLoop, hlock, hchild, hclaim, hrun]

end GroupShard

end VllmRouter.KvIndex
