import VllmRouter.KvIndex.Interleaving
import VllmRouter.KvIndex.Matches

/-!
# One step of each call

What a call knows between two of its steps, and what its next step does to the
settled shard.

- `StorePc.Ok`, `RemovePc.Ok`, `QueryPc.Ok`: what each program counter knows, in
  terms that survive the steps of other threads (`Grows`).
- `StoreCall.step_spec`, `RemoveCall.step_spec`, `MatchQuery.step_spec`: under the
  contract on the engine's keys every step returns. A `store` adds the blocks it
  records, a `remove` drops a hash when it has cleaned its block up, and a query
  reads the claims on its path as they are at that moment.
-/

namespace VllmRouter.KvIndex

/-! ## One step of `store` -/

open GroupShard List StoreCall Option RemoveCall MatchQuery RemovePc

variable {path : Hash → List Hash} {pre pre' : NodeRef → List Hash} {sh v v' : GroupShard}
  {pend : OwnerTier → Hash → Prop}

/-- The blocks that a `store` has recorded. -/
def StorePc.stored (blocks : List IncomingBlock) : StorePc → List IncomingBlock
  | .check => []
  | .resolve _ bi _ => blocks.take bi
  | .lock _ bi _ _ => blocks.take bi
  | .claim bi _ => blocks.take bi
  | .done stored => if stored then blocks else []

/-- The `store` has found its parent. -/
def StorePc.anchored : StorePc → Bool
  | .check => false
  | .done stored => stored
  | _ => true

/-- What a `store` knows between its steps. -/
def StorePc.Ok (path : Hash → List Hash) (pre : NodeRef → List Hash) (v : GroupShard)
    (call : StoreCall) : StorePc → Prop
  | .check => True
  | .resolve cursor bi retries =>
    bi ≤ call.blocks.length ∧ cursor = cursorAfter call.parentSeq (call.blocks.take bi) ∧
      ∀ s, cursor = some s → v.Known s ∧ Retried pre v s retries
  | .lock cursor bi retries node =>
    bi < call.blocks.length ∧ cursor = cursorAfter call.parentSeq (call.blocks.take bi) ∧
      (cursor = none → node = rootRef) ∧ ∀ s, cursor = some s → Follows pre v s node retries
  | .claim bi child =>
    pre child = parentPath path call.parentSeq ++ (call.blocks.take bi).map Prod.snd ∧
      ∃ n blk, v.nodes[child]? = some n ∧ call.blocks[bi]? = some blk ∧
        n.locals.head? = some blk.2
  | .done _ => True

lemma GroupShard.Grows.known (h : Grows pre v pre' v') {s : Hash} (hs : v.Known s) :
    v'.Known s := by
  obtain ⟨i, hi⟩ := isSome_iff_exists.1 hs
  obtain ⟨i', hi', -⟩ := h.anchor s i hi
  unfold Known
  rw [hi']
  rfl

variable {call : StoreCall} {node : NodeRef}

/-- What a `store` knows survives the steps of the other threads. -/
lemma StorePc.Ok.grows {pc : StorePc} (h : pc.Ok path pre v call) (hgr : Grows pre v pre' v')
    (hwf : WellFormed v) : pc.Ok path pre' v' call := by
  cases pc with
  | check
  | done => trivial
  | resolve =>
    obtain ⟨hbi, hcur, hknown⟩ := h
    exact ⟨hbi, hcur, fun s hs => ⟨hgr.known (hknown s hs).1, (hknown s hs).2.grows hgr hwf⟩⟩
  | lock =>
    obtain ⟨hbi, hcur, hroot, hfol⟩ := h
    exact ⟨hbi, hcur, hroot, fun s hs => (hfol s hs).grows hgr hwf⟩
  | claim bi child =>
    obtain ⟨hpre, n, blk, hn, hblk, hhead⟩ := h
    obtain ⟨n', hn', hhead'⟩ := hgr.head child n hn
    exact ⟨(hgr.pre_eq child (lt_length_of_getElem? hn)).trans hpre, n', blk, hn', hblk,
      hhead'.trans hhead⟩

/-- What one step of a `store` does. -/
structure StoreMove (path : Hash → List Hash) (pend : OwnerTier → Hash → Prop)
    (pre : NodeRef → List Hash) (v : GroupShard) (call : StoreCall) (pc : StorePc)
    (new : List IncomingBlock) (pre' : NodeRef → List Hash) (v' sh' : GroupShard)
    (pc' : StorePc) : Prop where
  storing : Storing path pend pre v call.key new pre' v' sh'
  ok : pc'.Ok path pre' v' call
  stored : pc'.stored call.blocks = pc.stored call.blocks ++ new
  started : pc' ≠ .check
  anchored : pc ≠ .check → pc'.anchored = pc.anchored
  checked : pc = .check → (pc'.anchored = true ∧ ∀ s, call.parentSeq = some s → v.Known s) ∨
    (pc'.anchored = false ∧ ∃ s, call.parentSeq = some s ∧ ¬ v.Known s)

/-- The step returns and does what `StoreMove` says. -/
def StoreCall.Steps (path : Hash → List Hash) (pend : OwnerTier → Hash → Prop)
    (pre : NodeRef → List Hash) (v sh : GroupShard) (call : StoreCall) (pc : StorePc) : Prop :=
  ∃ new pre' v' sh' pc', call.step sh pc = some (sh', pc') ∧
    StoreMove path pend pre v call pc new pre' v' sh' pc'

variable {bi retries : Nat}

/-- The keys of the remaining blocks continue the path of the stored ones. -/
lemma GroupShard.NamesPaths.remaining {parentSeq : Option Hash} {blocks : List IncomingBlock}
    (hnames : NamesPaths path parentSeq blocks) (hdrop : blocks.drop bi = blk :: more) :
    ∀ d blk' rest, blk :: more = d ++ blk' :: rest →
      path blk'.1 = parentPath path parentSeq ++ (blocks.take bi).map Prod.snd
        ++ (d ++ [blk']).map Prod.snd := by
  intro d blk' rest hd
  have hblocks : blocks = (blocks.take bi ++ d) ++ blk' :: rest := by
    rw [append_assoc, ← hd, ← hdrop, take_append_drop]
  rw [hnames.path_eq (blocks.take bi ++ d) blk' rest hblocks]
  simp

/-- A step that leaves the shard alone. -/
lemma StoreMove.pure (hsh : Shadows pend sh v) (hrep : Represents path pre v)
    (hok : pc'.Ok path pre v call) (hstored : pc'.stored call.blocks = pc.stored call.blocks)
    (hstarted : pc' ≠ .check) (hpc : pc ≠ .check) (hanch : pc'.anchored = pc.anchored) :
    StoreMove path pend pre v call pc [] pre v sh pc' :=
  ⟨storing_refl hsh hrep call.key, hok, hstored.trans (append_nil _).symm, hstarted,
    fun _ => hanch, fun h => absurd h hpc⟩

/-- What the section on a resolved node ends in. -/
lemma GroupShard.lockNode_cases (hwf : WellFormed sh) (hn : sh.nodes[node]? = some n) :
    (aliasPos n.edge s = none ∧ sh.lockNode (some s) node = some .moved) ∨
    ∃ pos b, n.edge[pos]? = some b ∧ s ∈ b.aliases ∧
      ((pos + 1 = n.edge.length ∧ sh.lockNode (some s) node = some (.at sh n)) ∨
        ∃ b', n.edge[pos + 1]? = some b' ∧
          sh.lockNode (some s) node = some (.at (sh.split node n (pos + 1) b'.localHash)
            (sh.splitKept n (pos + 1) b'.localHash))) := by
  cases hpos : aliasPos n.edge s with
  | none => exact .inl ⟨rfl, by simp [lockNode, hn, hpos]⟩
  | some pos =>
    obtain ⟨b, hb, hs⟩ := aliasPos_some hpos
    have hlt := (List.getElem?_eq_some_iff.1 hb).1
    refine .inr ⟨pos, b, hb, hs, ?_⟩
    by_cases hint : pos + 1 < n.edge.length
    · have hb' := List.getElem?_eq_getElem hint
      refine .inr ⟨_, hb', ?_⟩
      simp only [lockNode, hn, hpos, bind_eq_bind, bind_some, if_pos hint,
        splitLocked_eq hb' (hwf.claims_length node n hn)]
      rfl
    · exact .inl ⟨by omega, by simp [lockNode, hn, hpos, hint]⟩

section

variable (hnames : NamesPaths path call.parentSeq call.blocks)
include hnames

/-- The rest of the parent's section, once the parent ends at the path of the
blocks stored so far: append the remaining blocks, or go on to a child. -/
lemma StoreCall.steps_below (hwf : WellFormed v) (hpend : ∀ s, ¬ pend call.key s)
    (hbi : bi < call.blocks.length)
    (hlock : sh.lockNode cursor node = some (.at sh1 parent))
    (hst : Storing path pend pre v call.key [] pre1 v1 sh1) (hp : sh1.nodes[node]? = some parent)
    (hbase : pre1 node ++ parent.locals
      = parentPath path call.parentSeq ++ (call.blocks.take bi).map Prod.snd) :
    call.Steps path pend pre v sh (.lock cursor bi retries node) := by
  obtain ⟨blk, hblk⟩ : ∃ blk, call.blocks[bi]? = some blk := ⟨_, getElem?_eq_getElem hbi⟩
  have hdrop : call.blocks.drop bi = blk :: call.blocks.drop (bi + 1) := by
    rw [← (List.getElem?_eq_some_iff.1 hblk).2]
    exact drop_eq_getElem_cons hbi
  cases hchild : parent.children.lookup blk.2 with
  | none =>
    obtain ⟨sh', pre', v', hrun, hst'⟩ := hst.append hwf hpend hp hchild
      (fun d blk' rest hd => by rw [hbase]; exact hnames.remaining hdrop d blk' rest hd)
    refine ⟨_, pre', v', sh', .done true, ?_, hst', trivial, ?_, ?_, fun _ => rfl, ?_⟩
    · simp [step, hlock, hblk, hchild, hdrop, hrun]
    · show call.blocks = call.blocks.take bi ++ ([] ++ blk :: call.blocks.drop (bi + 1))
      rw [nil_append, ← hdrop, take_append_drop]
    · exact nofun
    · exact nofun
  | some child =>
    have hp' : v1.nodes[node]? = some parent := by rw [hst.shadows.nodes, hp]
    obtain ⟨c, hc, hhead⟩ := hst.rep.wf.child node parent blk.2 child hp' hchild
    refine ⟨[], pre1, v1, sh1, .claim bi child, ?_, hst, ⟨?_, c, blk, hc, hblk, hhead⟩, ?_, ?_,
      fun _ => rfl, ?_⟩
    · simp [step, hlock, hblk, hchild]
    · rw [hst.rep.child_pre node parent blk.2 child hp' hchild, hbase]
    · exact (append_nil _).symm
    · exact nofun
    · exact nofun

variable (hsh : Shadows pend sh v) (hpend : ∀ s, ¬ pend call.key s) (hrep : Represents path pre v)
include hsh hpend hrep

/-- The section on the parent. -/
lemma StoreCall.steps_lock (hok : (StorePc.lock cursor bi retries node).Ok path pre v call) :
    call.Steps path pend pre v sh (.lock cursor bi retries node) := by
  obtain ⟨hbi, hcur, hroot, hfol⟩ := hok
  have hrefl := storing_refl hsh hrep call.key
  have hblocks : call.blocks = call.blocks.take bi ++ call.blocks.drop bi :=
    (take_append_drop bi call.blocks).symm
  cases cursor with
  | none =>
    obtain rfl := hroot rfl
    obtain ⟨r, hr, hedge⟩ := hrep.wf.root
    rw [hsh.nodes] at hr
    -- nothing is stored yet and there is no parent
    have hstart : call.blocks.take bi = [] ∧ call.parentSeq = none := by
      unfold cursorAfter at hcur
      split at hcur
      · cases hcur
      · next hlast => exact ⟨getLast?_eq_none_iff.1 hlast, hcur.symm⟩
    refine call.steps_below hnames hrep.wf hpend hbi (by simp [lockNode, hr]) hrefl hr ?_
    simp [hrep.root_pre, TreeNode.locals, hedge, hstart.1, hstart.2, parentPath]
  | some s =>
    have hfs := hfol s rfl
    obtain ⟨n, hn⟩ : ∃ n, v.nodes[node]? = some n := ⟨_, getElem?_eq_getElem hfs.1⟩
    have hn' : sh.nodes[node]? = some n := by rw [← hsh.nodes, hn]
    rcases lockNode_cases (s := s) (hsh.wf hrep.wf) hn' with
      ⟨hgone, hlock⟩ | ⟨pos, b, hb, hs, ⟨hend, hlock⟩ | ⟨b', hb', hlock⟩⟩
    · obtain ⟨_, _, i, hi, _⟩ := hfs
      refine ⟨[], pre, v, sh, .resolve (some s) bi (retries + 1), ?_,
        .pure hsh hrep ⟨hbi.le, hcur, fun s' hs' => ?_⟩ rfl ?_ ?_ rfl⟩
      · simp [step, hlock]
      · cases hs'
        refine ⟨?_, (hfol s rfl).retry hrep.wf hn hgone⟩
        unfold Known
        rw [hi]
        rfl
      · simp
      · simp
    · refine call.steps_below hnames hrep.wf hpend hbi hlock hrefl hn' ?_
      have hpath := hrep.alias_path hn hb hs
      rw [hnames.cursor_path hblocks hcur.symm, hend,
        take_of_length_le (l := n.locals) (by simp [TreeNode.locals])] at hpath
      exact hpath.symm
    have hpath := hrep.alias_path hn hb hs
    rw [hnames.cursor_path hblocks hcur.symm] at hpath
    refine call.steps_below hnames hrep.wf hpend hbi hlock
      (hrefl.split hrep.wf hn' (Nat.succ_pos pos) hb') (by rw [split_nodes hn', if_pos rfl]) ?_
    rw [extendPre_old hfs.1]
    show pre node ++ (n.edge.take (pos + 1)).map EdgeBlock.localHash = _
    rw [map_take]
    exact hpath.symm

/-- The section on a child. -/
lemma StoreCall.steps_claim (hok : (StorePc.claim bi child).Ok path pre v call) :
    call.Steps path pend pre v sh (.claim bi child) := by
  obtain ⟨hpre, n, blk, hn, hblk, hhead⟩ := hok
  have hbi := (List.getElem?_eq_some_iff.1 hblk).1
  have hdrop : call.blocks.drop bi = blk :: call.blocks.drop (bi + 1) := by
    rw [← (List.getElem?_eq_some_iff.1 hblk).2]
    exact List.drop_eq_getElem_cons hbi
  have hn' : sh.nodes[child]? = some n := by rw [← hsh.nodes, hn]
  obtain ⟨sh', m, pre', v', hrun, _, hle, hst⟩ :=
    (storing_refl hsh hrep call.key).claim hrep.wf hpend hn' hhead
      (fun d blk' rest hd => by rw [hpre]; exact hnames.remaining hdrop d blk' rest hd)
  rw [← hdrop] at hrun hle hst
  rw [List.length_drop] at hle
  obtain ⟨last, hlast⟩ : ∃ last, call.blocks[bi + m - 1]? = some last :=
    ⟨_, List.getElem?_eq_getElem (show bi + m - 1 < call.blocks.length by omega)⟩
  have hcur : cursorAfter call.parentSeq (call.blocks.take (bi + m)) = some last.1 := by
    unfold cursorAfter
    rw [List.getLast?_take, if_neg (by omega), hlast]
    rfl
  refine ⟨_, pre', v', sh', .resolve (some last.1) (bi + m) 0, ?_, hst, ⟨?_, hcur.symm, ?_⟩, ?_,
    nofun, fun _ => rfl, nofun⟩
  · simp [step, hrun, hlast]
  · omega
  · intro s hs
    cases hs
    refine ⟨(hst.stored.known last.1).2 (.inr ?_), .inl rfl⟩
    -- the last matched block is among those just recorded
    refine List.mem_map_of_mem (f := Prod.fst) (List.mem_of_getElem? (i := m - 1) ?_)
    rw [List.nil_append, List.getElem?_take, if_pos (by omega), List.getElem?_drop, ← hlast]
    congr 1
    omega
  · show call.blocks.take (bi + m) = call.blocks.take bi ++ ([] ++ (call.blocks.drop bi).take m)
    rw [List.nil_append, List.take_add]

/-- Every step of a `store` that respects the contract returns. -/
lemma StoreCall.step_spec (hok : pc.Ok path pre v call) : call.Steps path pend pre v sh pc := by
  have hrefl := storing_refl hsh hrep call.key
  cases pc with
  | check =>
    cases hparent : call.parentSeq with
    | none =>
      refine ⟨[], pre, v, sh, .resolve none 0 0, by simp [step, hparent], hrefl,
        ⟨Nat.zero_le _, hparent.symm, nofun⟩, rfl, nofun,
        (fun h => absurd rfl h), fun _ => .inl ⟨rfl, fun s hs => ?_⟩⟩
      rw [hparent] at hs
      cases hs
    | some seq =>
      by_cases hknown : v.Known seq
      · have hanch : (sh.anchors.lookup seq).isSome = true := by rw [← hsh.anchors]; exact hknown
        refine ⟨[], pre, v, sh, .resolve (some seq) 0 0,
          by simp [step, hparent, hanch], hrefl,
          ⟨Nat.zero_le _, hparent.symm, fun s hs => ?_⟩, rfl, nofun,
          (fun h => absurd rfl h), fun _ => .inl ⟨rfl, fun s hs => ?_⟩⟩
        · cases hs
          exact ⟨hknown, .inl rfl⟩
        rw [hparent] at hs
        cases hs
        exact hknown
      · have hanch : (sh.anchors.lookup seq).isSome = false := by
          rw [← hsh.anchors]
          exact Bool.eq_false_iff.2 hknown
        exact ⟨[], pre, v, sh, .done false, by simp [step, hparent, hanch], hrefl,
          trivial, rfl, nofun, (fun h => absurd rfl h),
          fun _ => .inr ⟨rfl, seq, hparent, hknown⟩⟩
  | resolve cursor bi retries =>
    obtain ⟨_, hcur, hknown⟩ := hok
    by_cases hend : call.blocks.length ≤ bi
    · refine ⟨[], pre, v, sh, .done true, by simp [step, hend],
        .pure hsh hrep trivial ?_ nofun nofun rfl⟩
      exact (take_of_length_le hend).symm
    have hlt : bi < call.blocks.length := Nat.lt_of_not_le hend
    cases cursor with
    | none =>
      exact ⟨[], pre, v, sh, .lock none bi retries rootRef, by simp [step, hend],
        .pure hsh hrep ⟨hlt, hcur, fun _ => rfl, nofun⟩ rfl
          nofun nofun rfl⟩
    | some s =>
      obtain ⟨hk, hretry⟩ := hknown s rfl
      obtain ⟨node, hnode⟩ := isSome_iff_exists.1 hk
      refine ⟨[], pre, v, sh, .lock (some s) bi retries node, ?_,
        .pure hsh hrep ⟨hlt, hcur, nofun, fun s' hs' => ?_⟩ rfl
          nofun nofun rfl⟩
      · simp [step, hend, ← hsh.anchors, hnode]
      · cases hs'
        exact hretry.follows hrep.wf hnode
  | lock => exact call.steps_lock hnames hsh hpend hrep hok
  | claim => exact call.steps_claim hnames hsh hpend hrep hok
  | done stored =>
    exact ⟨[], pre, v, sh, .done stored, rfl, .pure hsh hrep trivial rfl nofun
      nofun rfl⟩

end

/-! ## One step of `remove` -/

/-- The hash that a `remove` has taken out of `reverse` and not yet cleaned up. -/
def RemovePc.pending (seqs : List Hash) : RemovePc → Option Hash
  | .resolve i _ _ => seqs[i]?
  | .lock i _ _ _ => seqs[i]?
  | _ => none

/-- The hashes that a `remove` is done with. -/
def RemovePc.cleaned (seqs : List Hash) : RemovePc → List Hash
  | .next i => seqs.take i
  | .resolve i _ _ => seqs.take i
  | .lock i _ _ _ => seqs.take i
  | .count i _ => seqs.take (i + 1)
  | .uncount i => seqs.take (i + 1)
  | .done => seqs

/-- What a `remove` knows between its steps. -/
def RemovePc.Ok (pre : NodeRef → List Hash) (v : GroupShard) (call : RemoveCall) :
    RemovePc → Prop
  | .resolve i _ retries => ∃ seq, call.seqHashes[i]? = some seq ∧ Retried pre v seq retries
  | .lock i _ retries node => ∃ seq, call.seqHashes[i]? = some seq ∧ Follows pre v seq node retries
  | _ => True

/-- What a `remove` knows survives the steps of the other threads. -/
lemma RemovePc.Ok.grows {call : RemoveCall} {pc : RemovePc} (h : pc.Ok pre v call)
    (hgr : Grows pre v pre' v') (hwf : WellFormed v) : pc.Ok pre' v' call := by
  cases pc with
  | resolve =>
    obtain ⟨seq, hseq, hretry⟩ := h
    exact ⟨seq, hseq, hretry.grows hgr hwf⟩
  | lock =>
    obtain ⟨seq, hseq, hfol⟩ := h
    exact ⟨seq, hseq, hfol.grows hgr hwf⟩
  | next i
  | count i removed
  | uncount i
  | done => trivial

/-- The pending hashes after a step of the `remove` of `key`. -/
def pendAfter (pend : OwnerTier → Hash → Prop) (key : OwnerTier) (pending : Option Hash) :
    OwnerTier → Hash → Prop :=
  fun k s => (k ≠ key ∧ pend k s) ∨ (k = key ∧ pending = some s)

/-- What one step of a `remove` does: the hashes in `new` are done with. -/
structure RemoveMove (path : Hash → List Hash) (pend : OwnerTier → Hash → Prop)
    (pre : NodeRef → List Hash) (v : GroupShard) (call : RemoveCall) (pc : RemovePc)
    (new : List Hash) (v' sh' : GroupShard) (pc' : RemovePc) : Prop where
  shadows : Shadows (pendAfter pend call.key (pc'.pending call.seqHashes)) sh' v'
  rep : Represents path pre v'
  anchors : v'.anchors = v.anchors
  active : ∀ k s, v'.Active k s ↔ v.Active k s ∧ ¬ (k = call.key ∧ s ∈ new)
  grows : Grows pre v pre v'
  ok : pc'.Ok pre v' call
  cleaned : pc'.cleaned call.seqHashes = pc.cleaned call.seqHashes ++ new

def RemoveCall.Steps (path : Hash → List Hash) (pend : OwnerTier → Hash → Prop)
    (pre : NodeRef → List Hash) (v sh : GroupShard) (call : RemoveCall) (pc : RemovePc) :
    Prop :=
  ∃ new v' sh' pc', call.step sh pc = some (sh', pc') ∧
    RemoveMove path pend pre v call pc new v' sh' pc'

/-- `pend` has for the key of a `remove` exactly what the `remove` has pending. -/
def OwnPending (pend : OwnerTier → Hash → Prop) (call : RemoveCall) (pc : RemovePc) : Prop :=
  ∀ s, pend call.key s ↔ pc.pending call.seqHashes = some s

/-- A step that changes neither the claims nor what is pending. -/
lemma RemoveMove.pure {call : RemoveCall} (hsh : Shadows pend sh v)
    (hown : OwnPending pend call pc) (hrep : Represents path pre v) (hnodes : sh'.nodes = sh.nodes)
    (hanchors : sh'.anchors = sh.anchors) (hreverse : sh'.reverse = sh.reverse)
    (hok : pc'.Ok pre v call) (hpending : pc'.pending call.seqHashes = pc.pending call.seqHashes)
    (hcleaned : pc'.cleaned call.seqHashes = pc.cleaned call.seqHashes) :
    RemoveMove path pend pre v call pc [] v sh' pc' where
  shadows := {
    nodes := hsh.nodes.trans hnodes.symm
    anchors := hsh.anchors.trans hanchors.symm
    active := fun k s => by
      have hsame : sh'.Active k s ↔ sh.Active k s := by
        unfold Active
        rw [hreverse]
      rw [hsame, hsh.active]
      refine and_congr_right fun _ => not_congr ?_
      unfold pendAfter
      by_cases hk : k = call.key
      · subst hk
        simp [hown s, hpending]
      · simp [hk] }
  rep := hrep
  anchors := rfl
  active k s := by simp
  grows := .of_eq rfl rfl
  ok := hok
  cleaned := by rw [hcleaned, append_nil]

/-- The section on a resolved node. -/
lemma GroupShard.cleanNode_cases (hwf : WellFormed sh) (seq key) (hn : sh.nodes[node]? = some n) :
    (aliasPos n.edge seq = none ∧ sh.cleanNode seq key node = some none) ∨
    ∃ idx b, n.edge[idx]? = some b ∧ seq ∈ b.aliases ∧
      (((∃ a ∈ b.aliases, sh.Active key a) ∧ sh.cleanNode seq key node = some (some sh)) ∨
        ∃ cl, (∀ a ∈ b.aliases, ¬ sh.Active key a) ∧ n.claims[idx]? = some cl ∧
          sh.cleanNode seq key node = some (some (sh.unclaim node n idx cl key))) := by
  cases hidx : aliasPos n.edge seq with
  | none => exact .inl ⟨rfl, by simp [cleanNode, hn, hidx]⟩
  | some idx =>
    obtain ⟨b, hb, hs⟩ := aliasPos_some hidx
    have hlt := (List.getElem?_eq_some_iff.1 hb).1
    rw [← hwf.claims_length node n hn] at hlt
    have hcl := List.getElem?_eq_getElem hlt
    refine .inr ⟨idx, b, hb, hs, ?_⟩
    by_cases hany : ∃ a ∈ b.aliases, sh.Active key a
    · refine .inl ⟨hany, ?_⟩
      have htest : (b.aliases.any fun a => decide (a ∈ (sh.reverse.lookup key).getD [])) = true :=
        List.any_eq_true.2 (hany.imp fun a ha => ⟨ha.1, decide_eq_true ha.2⟩)
      simp only [cleanNode, hn, hidx, hb, bind_eq_bind, bind_some, htest, if_true]
    have hnone : ∀ a ∈ b.aliases, ¬ sh.Active key a := fun a ha hact => hany ⟨a, ha, hact⟩
    have htest : (b.aliases.any fun a => decide (a ∈ (sh.reverse.lookup key).getD [])) = false :=
      List.any_eq_false.2 fun a ha h => hnone a ha (of_decide_eq_true h)
    refine .inr ⟨_, hnone, hcl, ?_⟩
    simp only [cleanNode, hn, hidx, hb, hcl, bind_eq_bind, bind_some, htest]
    rfl

/-- A removal changes only claims, so it moves nothing. -/
lemma GroupShard.removeSeq_grows (hwf : WellFormed v) {key : OwnerTier}
    (h : removeSeq key v seq = some v') : Grows pre v pre v' := by
  obtain ⟨v1, hrun, hanch, -, hnodes⟩ := removeSeq_cases hwf key seq
  obtain rfl := some.inj (h.symm.trans hrun)
  rcases hnodes with ⟨_, hsame⟩ | ⟨node, _, _, _, hn, _, _, ⟨_, hsame⟩ | ⟨_, _, _, hset⟩⟩
  · exact .of_eq hsame hanch
  · exact .of_eq hsame hanch
  refine ⟨fun _ _ => rfl, fun j m hm => ?_, fun s j hj => ⟨j, by rw [hanch, hj], .inl rfl⟩⟩
  rw [hset]
  by_cases hj : j = node
  · subst hj
    obtain rfl := some.inj (hn.symm.trans hm)
    exact ⟨_, write_nodes_self _ (lt_length_of_getElem? hn), by rfl⟩
  refine ⟨m, ?_, rfl⟩
  show (v.nodes.set node _)[j]? = some m
  rw [getElem?_set_ne (Ne.symm hj), hm]

/-- The shard after cleaning up is the one of `removeSeq` on the settled shard. -/
lemma RemoveCall.steps_lock {call : RemoveCall} (hsh : Shadows pend sh v)
    (hrep : Represents path pre v) (hown : OwnPending pend call (.lock i removed retries node))
    (hok : (lock i removed retries node).Ok pre v call) :
    call.Steps path pend pre v sh (.lock i removed retries node) := by
  obtain ⟨seq, hseq, hfol⟩ := hok
  obtain ⟨n, hn⟩ : ∃ n, v.nodes[node]? = some n := ⟨_, getElem?_eq_getElem hfol.1⟩
  have hn' : sh.nodes[node]? = some n := by rw [← hsh.nodes, hn]
  have hpend : ∀ s, pend call.key s ↔ s = seq := by
    intro s
    rw [hown s]
    simp [pending, hseq, eq_comm]
  rcases cleanNode_cases (hsh.wf hrep.wf) seq call.key hn' with
    ⟨hgone, hrun⟩ | ⟨idx, b, hb, hs, hclean⟩
  · refine ⟨[], v, sh, .resolve i removed (retries + 1), ?_,
      .pure hsh hown hrep rfl rfl rfl ⟨seq, hseq, hfol.retry hrep.wf hn hgone⟩ rfl rfl⟩
    simp [step, hseq, hrun]
  obtain ⟨v', hremove, hanch, hact, hnodes⟩ := removeSeq_cases hrep.wf call.key seq
  have hrep' := hrep.removeSeq hremove
  -- the same aliases are active in the shard and in the settled one after removal
  have hsame : ∀ a, sh.Active call.key a ↔ v'.Active call.key a := by
    intro a
    rw [hsh.active, hact, hpend]
    simp
  have hknown : v.Known seq := hrep.wf.alias_known node n idx b seq hn hb hs
  obtain ⟨sh', hrun, hshnodes, hshanch, hshrev⟩ : ∃ sh', sh.cleanNode seq call.key node
      = some (some sh') ∧ sh'.nodes = v'.nodes ∧ sh'.anchors = sh.anchors ∧
        sh'.reverse = sh.reverse := by
    rcases hnodes with ⟨hun, _⟩ | ⟨_, _, _, _, hn1, hb1, hs1, hcases⟩
    · exact absurd hknown hun
    obtain ⟨rfl, rfl⟩ := hrep.alias_only hn hb hs hn1 hb1 hs1
    obtain rfl := some.inj (hn.symm.trans hn1)
    obtain rfl := some.inj (hb.symm.trans hb1)
    rcases hclean with ⟨⟨a, ha, hactive⟩, hrun⟩ | ⟨cl, hnone, hcl, hrun⟩
    · rcases hcases with ⟨_, hsame'⟩ | ⟨_, hnone, _, _⟩
      · exact ⟨sh, hrun, by rw [hsame', hsh.nodes], rfl, rfl⟩
      · exact absurd ((hsame a).1 hactive) (hnone a ha)
    rcases hcases with ⟨⟨a, ha, hactive⟩, _⟩ | ⟨_, _, hcl', hset⟩
    · exact absurd ((hsame a).2 hactive) (hnone a ha)
    obtain rfl := some.inj (hcl.symm.trans hcl')
    refine ⟨_, hrun, ?_, rfl, rfl⟩
    rw [hset]
    simp [unclaim, GroupShard.write, hsh.nodes]
  refine ⟨[seq], v', sh', .count i removed, by simp [step, hseq, hrun], ?_⟩
  refine ⟨⟨hshnodes.symm, ?_, fun k s => ?_⟩, hrep', hanch, fun k s => ?_,
    removeSeq_grows hrep.wf hremove, trivial, ?_⟩
  · rw [hanch, hsh.anchors, hshanch]
  · have hreal : sh'.Active k s ↔ sh.Active k s := by
      unfold Active
      rw [hshrev]
    rw [hreal, hsh.active, hact]
    unfold pendAfter
    by_cases hk : k = call.key
    · subst hk
      rw [hpend]
      simp [pending]
    · simp [hk]
  · rw [hact]
    simp
  show call.seqHashes.take (i + 1) = call.seqHashes.take i ++ [seq]
  rw [take_add_one, hseq]
  rfl

/-- Every step of a `remove` returns. -/
lemma RemoveCall.step_spec {call : RemoveCall} (hsh : Shadows pend sh v)
    (hrep : Represents path pre v) (hown : OwnPending pend call pc) (hok : pc.Ok pre v call) :
    call.Steps path pend pre v sh pc := by
  cases pc with
  | next i =>
    cases hseq : call.seqHashes[i]? with
    | none =>
      refine ⟨[], v, sh, .done, by simp [step, hseq],
        .pure hsh hown hrep rfl rfl rfl trivial rfl ?_⟩
      exact (take_of_length_le (getElem?_eq_none_iff.1 hseq)).symm
    | some seq =>
      refine ⟨[], v, sh.forget call.key seq, .resolve i (decide (sh.Active call.key seq)) 0,
        by simp [step, hseq], ⟨hsh.nodes, hsh.anchors, fun k s => ?_⟩, hrep, rfl,
        (fun k s => by simp), .of_eq rfl rfl, ⟨seq, hseq, .inl rfl⟩, (append_nil _).symm⟩
      -- nothing was pending, now `seq` is
      rw [forget_active, hsh.active, and_assoc]
      refine and_congr_right fun _ => ?_
      unfold pendAfter
      by_cases hk : k = call.key
      · subst hk
        have hnone : ¬ pend call.key s := fun h => by cases (hown s).1 h
        simp [hnone, pending, hseq, eq_comm]
      · simp [hk]
  | resolve i removed retries =>
    obtain ⟨seq, hseq, hretry⟩ := hok
    cases hnode : v.anchors.lookup seq with
    | some node =>
      refine ⟨[], v, sh, .lock i removed retries node, ?_,
        .pure hsh hown hrep rfl rfl rfl ⟨seq, hseq, hretry.follows hrep.wf hnode⟩ rfl rfl⟩
      simp [step, hseq, ← hsh.anchors, hnode]
    | none =>
      -- an unknown hash has no claims, so nothing is left to clean up
      have hinactive : ∀ k, ¬ v.Active k seq := by
        intro k hact
        have hknown := hrep.wf.claimed_known k seq hact
        unfold Known at hknown
        rw [hnode] at hknown
        cases hknown
      refine ⟨[seq], v, sh, .count i removed, ?_, ⟨hsh.nodes, hsh.anchors, fun k s => ?_⟩, hrep,
        rfl, fun k s => ?_, .of_eq rfl rfl, trivial, ?_⟩
      · simp [step, hseq, ← hsh.anchors, hnode]
      · rw [hsh.active]
        refine and_congr_right fun hact => not_congr ?_
        unfold pendAfter
        by_cases hk : k = call.key
        · subst hk
          have hne : s ≠ seq := fun heq => hinactive _ (heq ▸ hact)
          have hnone : ¬ pend call.key s := fun h => by
            have hpending : call.seqHashes[i]? = some s := (hown s).1 h
            exact hne (some.inj (hpending.symm.trans hseq))
          simp [hnone, pending]
        · simp [hk]
      · refine iff_self_and.2 fun hact h => ?_
        rw [mem_singleton.1 h.2] at hact
        exact hinactive k hact
      show call.seqHashes.take (i + 1) = call.seqHashes.take i ++ [seq]
      rw [take_add_one, hseq]
      rfl
  | lock => exact call.steps_lock hsh hrep hown hok
  | count i removed =>
    cases removed with
    | true => exact ⟨[], v, _, .uncount i, rfl, .pure hsh hown hrep rfl rfl rfl trivial rfl rfl⟩
    | false => exact ⟨[], v, _, .next (i + 1), rfl, .pure hsh hown hrep rfl rfl rfl trivial rfl rfl⟩
  | uncount i =>
    exact ⟨[], v, _, .next (i + 1), rfl, .pure hsh hown hrep rfl rfl rfl trivial rfl rfl⟩
  | done => exact ⟨[], v, sh, .done, rfl, .pure hsh hown hrep rfl rfl rfl trivial rfl rfl⟩

/-! ## One step of `find_matches` -/

/-- The claims on the block that a path leads to. -/
def GroupShard.claimsOn (sh : GroupShard) (p : List Hash) : Option (List OwnerTier) :=
  (sh.locate p).bind sh.claimsAt

lemma GroupShard.claimsOn_congr (h : v.nodes = sh.nodes) (p) :
    v.claimsOn p = sh.claimsOn p := by
  have hread : v.readBlock = sh.readBlock := by
    funext pos x
    simp [readBlock, h]
  have hat : v.claimsAt = sh.claimsAt := by
    funext pos
    simp [claimsAt, h]
  unfold claimsOn locate
  rw [hread, hat]

/-- What a query knows between its steps. -/
def QueryPc.Ok (pre : NodeRef → List Hash) (v : GroupShard) (query : MatchQuery) :
    QueryPc → Prop
  | .read child qi nodeClaims =>
    nodeClaims.length = qi ∧ pre child = query.localHashes.take qi ∧
      ∃ n h, v.nodes[child]? = some n ∧ query.localHashes[qi]? = some h ∧
        n.locals.head? = some h
  | _ => True

/-- What a query knows survives the steps of the writers. -/
lemma QueryPc.Ok.grows {pc : QueryPc} (h : pc.Ok pre v query) (hgr : Grows pre v pre' v') :
    pc.Ok pre' v' query := by
  cases pc with
  | start
  | done => trivial
  | read child =>
    obtain ⟨hlen, hpre, n, x, hn, hx, hhead⟩ := h
    obtain ⟨n', hn', hhead'⟩ := hgr.head child n hn
    exact ⟨hlen, (hgr.pre_eq child (lt_length_of_getElem? hn)).trans hpre, n', x, hn', hx,
      hhead'.trans hhead⟩

/-- Every step of a query returns. What it adds to the claims is, at each depth,
what the block on the query's path carries at that moment. -/
lemma MatchQuery.step_spec (hsh : Shadows pend sh v) (hrep : Represents path pre v) {pc : QueryPc}
    (hok : pc.Ok pre v query) :
    ∃ pc', query.step sh pc = some pc' ∧ pc'.Ok pre v query ∧
      ∀ d cl, pc'.nodeClaims[d]? = some cl → pc.nodeClaims[d]? = some cl ∨
        ((∃ child qi nodeClaims, pc = .read child qi nodeClaims) ∧ d < query.localHashes.length ∧
          sh.claimsOn (query.localHashes.take (d + 1)) = some cl) := by
  cases pc with
  | start =>
    obtain ⟨r, hr, hedge⟩ := hrep.wf.root
    have hr' : sh.nodes[rootRef]? = some r := by rw [← hsh.nodes, hr]
    cases hnext : query.localHashes.head?.bind fun h => r.children.lookup h with
    | none => exact ⟨.done [], by simp [step, hr', hnext], trivial, fun d cl hcl => .inl hcl⟩
    | some child =>
      obtain ⟨h, hhead, hchild⟩ := bind_eq_some_iff.1 hnext
      obtain ⟨n, hn, hnhead⟩ := hrep.wf.child rootRef r h child hr hchild
      refine ⟨.read child 0 [], by simp [step, hr', hnext],
        ⟨rfl, ?_, n, h, hn, ?_, hnhead⟩, fun d cl hcl => .inl hcl⟩
      · rw [hrep.child_pre rootRef r h child hr hchild, hrep.root_pre]
        simp [TreeNode.locals, hedge]
      · rw [← List.head?_eq_getElem?, hhead]
  | read child qi nodeClaims =>
    obtain ⟨hlen, hpre, c, _, hc, _, _⟩ := hok
    have hc' : sh.nodes[child]? = some c := by rw [← hsh.nodes, hc]
    obtain ⟨m, hm⟩ : ∃ m, advance c.edge (query.localHashes.drop qi) = m := ⟨_, rfl⟩
    obtain ⟨_, hmq, hmatch, -⟩ := zip_takeWhile_spec EdgeBlock.localHash id c.edge
      (query.localHashes.drop qi) m hm
    rw [List.map_id] at hmatch
    rw [List.length_drop] at hmq
    have hclaims := hrep.wf.claims_length child c hc
    -- the blocks of this edge lie on the query's path
    have hpath : ∀ j, j ≤ m →
        query.localHashes.take (qi + j) = pre child ++ c.locals.take j := by
      intro j hj
      rw [List.take_add, hpre]
      congr 1
      have hcut := congrArg (List.take j) hmatch
      rw [List.take_take, List.take_take, Nat.min_eq_left hj] at hcut
      exact hcut.symm
    have hnew : ∀ d cl, (nodeClaims ++ c.claims.take m)[d]? = some cl →
        nodeClaims[d]? = some cl ∨ (d < query.localHashes.length ∧
          sh.claimsOn (query.localHashes.take (d + 1)) = some cl) := by
      intro d cl hcl
      by_cases hd : d < qi
      · rw [List.getElem?_append_left (by omega)] at hcl
        exact .inl hcl
      rw [List.getElem?_append_right (by omega), hlen, List.getElem?_take] at hcl
      split_ifs at hcl with hlt
      obtain ⟨j, rfl⟩ : ∃ j, d = qi + j := ⟨d - qi, by omega⟩
      rw [Nat.add_sub_cancel_left] at hcl hlt
      obtain ⟨b, hb⟩ : ∃ b, c.edge[j]? = some b :=
        ⟨_, List.getElem?_eq_getElem (show j < c.edge.length by omega)⟩
      refine .inr ⟨by omega, ?_⟩
      rw [← claimsOn_congr hsh.nodes, Nat.add_assoc, hpath (j + 1) hlt]
      unfold claimsOn
      rw [hrep.locate_block hc hb]
      simp [claimsAt, hc, hcl]
    have hspec : ∀ pc' : QueryPc, pc'.nodeClaims = nodeClaims ++ c.claims.take m →
        ∀ d cl, pc'.nodeClaims[d]? = some cl → nodeClaims[d]? = some cl ∨
          ((∃ child' qi' nodeClaims', QueryPc.read child qi nodeClaims
              = .read child' qi' nodeClaims') ∧ d < query.localHashes.length ∧
            sh.claimsOn (query.localHashes.take (d + 1)) = some cl) := by
      intro _ hpc' d cl hcl
      rw [hpc'] at hcl
      exact (hnew d cl hcl).imp_right fun h => ⟨⟨child, qi, nodeClaims, rfl⟩, h⟩
    have hroom : ¬ c.claims.length < m := by omega
    by_cases hend : m = 0 ∨ m < c.edge.length
    · exact ⟨.done _, by simp [step, hc', hm, hroom, hend], trivial, hspec (.done _) rfl⟩
    cases hnext : query.localHashes[qi + m]?.bind fun h => c.children.lookup h with
    | none =>
      exact ⟨.done _, by simp [step, hc', hm, hroom, hend, hnext], trivial, hspec (.done _) rfl⟩
    | some next =>
      obtain ⟨h, hq, hchild⟩ := bind_eq_some_iff.1 hnext
      obtain ⟨n, hn, hnhead⟩ := hrep.wf.child child c h next hc hchild
      refine ⟨.read next (qi + m) _, by simp [step, hc', hm, hroom, hend, hnext],
        ⟨?_, ?_, n, h, hn, hq, hnhead⟩, hspec (.read next (qi + m) _) rfl⟩
      · rw [List.length_append, List.length_take]
        omega
      · rw [hpath m le_rfl, hrep.child_pre child c h next hc hchild,
          List.take_of_length_le (l := c.locals) (by simp [TreeNode.locals]; omega)]
  | done nodeClaims => exact ⟨.done nodeClaims, rfl, trivial, fun d cl hcl => .inl hcl⟩

end VllmRouter.KvIndex
