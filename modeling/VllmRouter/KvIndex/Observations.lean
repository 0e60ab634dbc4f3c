import VllmRouter.Lib.Fold
import VllmRouter.KvIndex.WellFormed

/-!
# What the index is for: a set of observations

The abstract index is the set of active `(owner, tier, seq)` observations,
together with the sequence hashes that were ever stored. `Observations.apply`
says what each call does to it.

- `Observes sh obs`: the shard `sh` holds exactly the observations `obs`.
- `applyOp_observes`: every call on a well-formed shard returns, keeps it well
  formed and changes the observations as the abstract index does. No
  assumption on the stored keys is needed for this half of the refinement.
- `Closed`: the properties of a shard that the removing calls preserve. The
  loops are done once for all such properties.
-/

namespace VllmRouter.KvIndex

open List

/-- One call on a shard. -/
inductive ShardOp where
  | store (owner : ResidencyOwner) (tier : StorageTier) (parentSeq : Option Hash)
      (blocks : List IncomingBlock)
  | remove (owner : ResidencyOwner) (tier : StorageTier) (seqHashes : List Hash)
  | clear (owner : ResidencyOwner) (scope : ClearScope)
  | clearSource (source : SourceId) (dpRank : Nat)
deriving DecidableEq, Repr

/-- Run one call. -/
def GroupShard.applyOp (sh : GroupShard) : ShardOp → Option GroupShard
  | .store owner tier parentSeq blocks => sh.store owner tier parentSeq blocks
  | .remove owner tier seqHashes => sh.remove owner tier seqHashes
  | .clear owner scope => sh.clear owner scope
  | .clearSource source dpRank => sh.clearSource source dpRank

/-- Run a sequence of calls on a fresh shard. -/
def GroupShard.runOps (ops : List ShardOp) : Option GroupShard :=
  ops.foldlM GroupShard.applyOp GroupShard.new

/-- The abstract index. -/
structure Observations where
  active : Set (OwnerTier × Hash)
  known : Set Hash

/-- The claims that `clear owner scope` names: the same worker rank, whatever
its incarnation, or the same pool, within the domain of the scope. -/
def ClearNames (owner : ResidencyOwner) (scope : ClearScope) (key : OwnerTier) : Prop :=
  match owner, key.1 with
  | .worker s r _, .worker s' r' _ => s = s' ∧ r = r' ∧ scope ≠ .cacheOwner
  | .cacheOwner p _ _, .cacheOwner p' _ _ => p = p' ∧ scope ≠ .worker
  | _, _ => False

namespace Observations

def empty : Observations := ⟨∅, ∅⟩

/-- A store is anchored when it has no parent or a parent that was stored. -/
def Anchors (obs : Observations) : Option Hash → Prop
  | none => True
  | some seq => seq ∈ obs.known

/-- What each call does to the observations. -/
def apply (obs : Observations) : ShardOp → Observations
  | .store owner tier parentSeq blocks =>
    { active := obs.active ∪
        {t | obs.Anchors parentSeq ∧ t.1 = (owner, tier) ∧ t.2 ∈ blocks.map Prod.fst}
      known := obs.known ∪ {s | obs.Anchors parentSeq ∧ s ∈ blocks.map Prod.fst} }
  | .remove owner tier seqHashes =>
    { obs with active := {t ∈ obs.active | ¬ (t.1 = (owner, tier) ∧ t.2 ∈ seqHashes)} }
  | .clear owner scope => { obs with active := {t ∈ obs.active | ¬ ClearNames owner scope t.1} }
  | .clearSource source dpRank =>
    { obs with active := {t ∈ obs.active | t.1.1.target ≠ ⟨source, dpRank⟩} }

/-- The observations after a sequence of calls. -/
def run (ops : List ShardOp) : Observations := ops.foldl apply empty

end Observations

namespace GroupShard

/-- The shard holds exactly these observations. -/
structure Observes (sh : GroupShard) (obs : Observations) : Prop where
  active : ∀ k s, sh.Active k s ↔ (k, s) ∈ obs.active
  known : ∀ s, sh.Known s ↔ s ∈ obs.known

lemma observes_new : Observes new Observations.empty where
  active k s := by
    constructor
    · intro h
      cases h
    · exact fun h => h.elim
  known s := by
    constructor
    · intro h
      cases h
    · exact fun h => h.elim

/-! ## Storing -/

/-- What a partially run `store` has done to the observations. -/
structure Stored (sh : GroupShard) (key : OwnerTier) (done : List IncomingBlock)
    (sh' : GroupShard) : Prop where
  wf : WellFormed sh'
  active : ∀ k s, sh'.Active k s ↔ sh.Active k s ∨ (k = key ∧ s ∈ done.map Prod.fst)
  known : ∀ s, sh'.Known s ↔ sh.Known s ∨ s ∈ done.map Prod.fst

variable {sh sh' : GroupShard} {key : OwnerTier} {done : List IncomingBlock}

lemma stored_refl (hwf : WellFormed sh) (key : OwnerTier) : Stored sh key [] sh where
  wf := hwf
  active k s := by simp
  known s := by simp

section

variable (hst : Stored sh key done sh')
include hst

lemma Stored.split (hc : sh'.nodes[node]? = some c)
    (hpos : 0 < pos) (hb : c.edge[pos]? = some b) :
    Stored sh key done (sh'.split node c pos b.localHash) where
  wf := wellFormed_split hst.wf hc hpos hb
  active k s := (split_active b.localHash k s).trans (hst.active k s)
  known s := (split_known hst.wf hc b.localHash s).trans (hst.known s)

lemma Stored.attach (hp : sh'.nodes[node]? = some parent) (hhead : locals.head? = some h) :
    Stored sh key done (sh'.attach node parent h locals) where
  wf := wellFormed_attach hst.wf hp hhead
  active k s := (attach_active k s).trans (hst.active k s)
  known s := (attach_known s).trans (hst.known s)

lemma Stored.record (cl) (blk : IncomingBlock) (hn : sh'.nodes[node]? = some n)
    (hb : n.edge[i]? = some b) :
    Stored sh key (done ++ [blk]) (sh'.record node n i b cl key blk.1) where
  wf := wellFormed_record hst.wf hn hb
  active k s := by
    rw [record_active, hst.active, map_append, mem_append, map_singleton, mem_singleton]
    constructor
    · rintro ((h | ⟨hk, hs⟩) | ⟨hk, hs⟩)
      · exact .inl h
      · exact .inr ⟨hk, .inl hs⟩
      · exact .inr ⟨hk, .inr hs⟩
    rintro (h | ⟨hk, hs | hs⟩)
    · exact .inl (.inl h)
    · exact .inl (.inr ⟨hk, hs⟩)
    · exact .inr ⟨hk, hs⟩
  known s := by
    rw [record_known, hst.known, map_append, mem_append, map_singleton, mem_singleton, or_assoc]

end

variable {parentSeq : Option Hash} {obs : Observations}

/-- The cursor of the store loop is always known: it is the parent or a block
that was just stored. -/
lemma Stored.cursor_known (hst : Stored sh key done sh')
    (hparent : ∀ s, parentSeq = some s → sh.Known s) (s)
    (hs : cursorAfter parentSeq done = some s) : sh'.Known s := by
  rw [hst.known]
  unfold cursorAfter at hs
  split at hs
  · next b hlast =>
    cases hs
    exact .inr (mem_map_of_mem (mem_of_getLast? hlast))
  · exact .inl (hparent s hs)

/-- One iteration of the store loop records the blocks it consumes. -/
lemma Stored.step (hst : Stored sh key done sh') (hparent : ∀ s, parentSeq = some s → sh.Known s)
    (blk more) :
    StoreStep key (cursorAfter parentSeq done) (Stored sh key) done blk more sh' := by
  -- whatever node the cursor resolves to, both continuations keep `Stored`
  have hbelow : ∀ sh1 node parent,
      sh'.lockCursor (cursorAfter parentSeq done) = some (sh1, node, parent) →
      Stored sh key done sh1 → sh1.nodes[node]? = some parent →
      StoreStep key (cursorAfter parentSeq done) (Stored sh key) done blk more sh' := by
    intro sh1 node parent hlock hst1 hp
    refine ⟨sh1, node, parent, hlock, fun _ => ?_, fun child hchild => ?_⟩
    · refine appendChild_rule (P := fun d sh2 => Stored sh key (done ++ d) sh2) hp key ?_ ?_
      · rw [append_nil]
        exact hst1.attach hp rfl
      intro _ blk' _ _ _ _ cl _ hn _ hb _ hst2
      rw [← append_assoc]
      exact hst2.record cl blk' hn hb
    obtain ⟨c, hc, hhead⟩ := hst1.wf.child node parent blk.2 child hp hchild
    refine claimChild_rule (P := fun d sh2 => Stored sh key (done ++ d) sh2)
      hst1.wf hc more hhead key ?_ ?_ ?_
    · intro _ _ hpos hb
      rw [append_nil]
      exact hst1.split hc hpos hb
    · intro _ blk' _ _ _ _ cl _ hn _ hb _ hst2
      rw [← append_assoc]
      exact hst2.record cl blk' hn hb
    · rw [append_nil]
      exact hst1
  rcases lockCursor_cases hst.wf (hst.cursor_known hparent) with
    ⟨r, -, hr, -, hlock⟩ | ⟨s, node, n, pos, b, -, -, hn, -, -, ⟨-, hlock⟩ | ⟨b', hb', hlock⟩⟩
  · exact hbelow sh' rootRef r hlock hst hr
  · exact hbelow sh' node n hlock hst hn
  · refine hbelow _ node _ hlock (hst.split hn (Nat.succ_pos pos) hb') ?_
    rw [split_nodes hn, if_pos rfl]

/-- An anchored store returns with every block recorded. -/
lemma store_stored (hwf : WellFormed sh) (owner tier parentSeq blocks)
    (hparent : ∀ s, parentSeq = some s → sh.Known s) :
    ∃ sh', sh.store owner tier parentSeq blocks = some sh' ∧
      Stored sh (owner, tier) blocks sh' := by
  obtain ⟨sh', hrun, hst⟩ := storeLoop_rule (I := Stored sh (owner, tier))
    (fun done blk more sh1 _ hst => hst.step hparent blk more)
    blocks.length blocks [] sh rfl le_rfl (stored_refl hwf (owner, tier))
  refine ⟨sh', ?_, hst⟩
  cases parentSeq with
  | none => exact hrun
  | some s =>
    show (if (sh.anchors.lookup s).isSome then _ else _) = _
    exact (if_pos (hparent s rfl)).trans hrun

lemma store_unanchored (owner tier) (hs : ¬ sh.Known s) (blocks) :
    sh.store owner tier (some s) blocks = some sh := by
  show (if (sh.anchors.lookup s).isSome then _ else _) = _
  exact if_neg hs

/-! ## Removing -/

/-- A property of shards that the removing calls preserve: it survives the
removal of one sequence hash and depends on `reverse` only through the active
claims. -/
structure Closed (Inv : GroupShard → Prop) : Prop where
  wf : ∀ sh, Inv sh → WellFormed sh
  removeSeq : ∀ key seq sh sh', Inv sh → removeSeq key sh seq = some sh' → Inv sh'
  congr : ∀ sh sh', Inv sh → sh'.nodes = sh.nodes → sh'.anchors = sh.anchors →
    (∀ k s, sh'.Active k s ↔ sh.Active k s) → Inv sh'

/-- The effect of a removing call that deletes the claims in `gone`. -/
structure Removed (Inv : GroupShard → Prop) (sh : GroupShard) (gone : OwnerTier → Hash → Prop)
    (sh' : GroupShard) : Prop where
  inv : Inv sh'
  anchors : sh'.anchors = sh.anchors
  active : ∀ k s, sh'.Active k s ↔ sh.Active k s ∧ ¬ gone k s

variable {Inv : GroupShard → Prop}

lemma remove_removed (hcl : Closed Inv) (hinv : Inv sh) (owner tier seqs) :
    ∃ sh', sh.remove owner tier seqs = some sh' ∧
      Removed Inv sh (fun k s => k = (owner, tier) ∧ s ∈ seqs) sh' := by
  refine foldlM_rule (P := fun d sh1 => Removed Inv sh (fun k s => k = (owner, tier) ∧ s ∈ d) sh1)
    ?_ seqs [] sh rfl ⟨hinv, rfl, fun k s => by simp⟩
  intro _ seq _ sh1 _ hrem
  obtain ⟨sh2, hrun, hanch, hact, -⟩ := removeSeq_cases (hcl.wf sh1 hrem.inv) (owner, tier) seq
  refine ⟨sh2, hrun, hcl.removeSeq _ seq sh1 sh2 hrem.inv hrun, hanch.trans hrem.anchors, ?_⟩
  intro k s
  rw [hact, hrem.active, mem_append, mem_singleton]
  constructor
  · rintro ⟨⟨ha, h1⟩, h2⟩
    refine ⟨ha, ?_⟩
    rintro ⟨hk, hs | hs⟩
    · exact h1 ⟨hk, hs⟩
    · exact h2 ⟨hk, hs⟩
  · rintro ⟨ha, h⟩
    exact ⟨⟨ha, fun h1 => h ⟨h1.1, .inl h1.2⟩⟩, fun h2 => h ⟨h2.1, .inr h2.2⟩⟩

/-- Removing all of a key's sequence hashes leaves it without claims. -/
lemma removeKey_removed (hcl : Closed Inv) (hinv : Inv sh) (key) :
    ∃ sh', sh.removeKey key = some sh' ∧ Removed Inv sh (fun k _ => k = key) sh' := by
  obtain ⟨sh1, hrun, hrem⟩ := remove_removed hcl hinv key.1 key.2 ((sh.reverse.lookup key).getD [])
  have hact : ∀ k s, sh1.Active k s ↔ sh.Active k s ∧ ¬ k = key := by
    intro k s
    rw [hrem.active]
    constructor
    · rintro ⟨ha, h⟩
      refine ⟨ha, ?_⟩
      rintro rfl
      exact h ⟨rfl, ha⟩
    · rintro ⟨ha, h⟩
      exact ⟨ha, fun h' => h h'.1⟩
  by_cases hempty : sh1.reverse.lookup key = some []
  · let sh2 : GroupShard := { sh1 with reverse := sh1.reverse.erase key }
    have hsame : ∀ k s, sh2.Active k s ↔ sh1.Active k s := by
      intro k s
      show s ∈ ((sh1.reverse.erase key).lookup k).getD [] ↔ _
      unfold Active
      by_cases hk : k = key
      · subst hk
        simp [hempty]
      · simp [hk]
    refine ⟨sh2, ?_, hcl.congr sh1 sh2 hrem.inv rfl rfl hsame, hrem.anchors,
      fun k s => (hsame k s).trans (hact k s)⟩
    simp only [removeKey, Option.bind_eq_bind, hrun, Option.bind_some, if_pos hempty]
    rfl
  · refine ⟨sh1, ?_, hrem.inv, hrem.anchors, hact⟩
    simp [removeKey, hrun, if_neg hempty]

lemma clearKey_removed (hcl : Closed Inv) (hinv : Inv sh) (key) :
    ∃ sh', sh.clearKey key = some sh' ∧ Removed Inv sh (fun k _ => k = key) sh' := by
  obtain ⟨sh1, hrun, hrem⟩ := removeKey_removed hcl hinv key
  by_cases hzero : sh1.counts.lookup key = some 0
  · refine ⟨{ sh1 with counts := sh1.counts.erase key }, ?_,
      hcl.congr sh1 _ hrem.inv rfl rfl fun _ _ => Iff.rfl, hrem.anchors, hrem.active⟩
    simp [clearKey, hrun, if_pos hzero]
  · refine ⟨sh1, ?_, hrem⟩
    simp [clearKey, hrun, if_neg hzero]

/-- A loop over keys that empties each of them. -/
lemma foldlM_removed
    (hf : ∀ sh key, Inv sh → ∃ sh', f sh key = some sh' ∧ Removed Inv sh (fun k _ => k = key) sh')
    (hinv : Inv sh) (keys : List OwnerTier) :
    ∃ sh', keys.foldlM f sh = some sh' ∧ Removed Inv sh (fun k _ => k ∈ keys) sh' := by
  refine foldlM_rule (P := fun d sh1 => Removed Inv sh (fun k _ => k ∈ d) sh1)
    ?_ keys [] sh rfl ⟨hinv, rfl, fun k s => by simp⟩
  intro _ key _ sh1 _ hrem
  obtain ⟨sh2, hrun, hrem2⟩ := hf sh1 key hrem.inv
  refine ⟨sh2, hrun, hrem2.inv, hrem2.anchors.trans hrem.anchors, fun k s => ?_⟩
  rw [hrem2.active, hrem.active, mem_append, mem_singleton, not_or, and_assoc]

/-- Emptying the keys selected by `p` deletes exactly the claims `p` selects: a
key with an active claim has a reverse entry. -/
lemma Removed.of_filter (hrem : Removed Inv sh (fun k _ => k ∈ sh.reverse.keys.filter p) sh') :
    Removed Inv sh (fun k _ => p k = true) sh' where
  inv := hrem.inv
  anchors := hrem.anchors
  active k s := by
    rw [hrem.active]
    refine and_congr_right fun ha => not_congr ?_
    rw [mem_filter, and_iff_right_iff_imp]
    intro _
    rw [Dict.mem_keys_iff]
    unfold Active at ha
    cases hk : sh.reverse.lookup k with
    | none => simp [hk] at ha
    | some v => exact ⟨v, rfl⟩

lemma clearNames_iff (owner scope key) :
    clearNames owner scope key = true ↔ ClearNames owner scope key := by
  obtain ⟨holder, _⟩ := key
  cases owner <;> cases holder <;> cases scope <;>
    simp [clearNames, ClearNames, sameOwner, ResidencyOwner.domain]

/-- Well-formedness is closed under the removing calls. -/
lemma closed_wellFormed : Closed WellFormed where
  wf _ h := h
  removeSeq key seq sh sh' hwf hrun := by
    obtain ⟨_, hrun1, hanch, hact, hnodes⟩ := removeSeq_cases hwf key seq
    rw [hrun] at hrun1
    cases hrun1
    refine hwf.of_claims hanch (fun k s h => ((hact k s).1 h).1) fun j => ?_
    rcases hnodes with ⟨-, h⟩ | ⟨node, n, idx, b, hn, -, -, ⟨-, h⟩ | ⟨cl, -, -, h⟩⟩
    · exact .inl (by rw [h])
    · exact .inl (by rw [h])
    by_cases hj : node = j
    · subst hj
      have hself := write_nodes_self
        { n with claims := n.claims.set idx (cl.filter fun c => decide (c ≠ key)) }
        (lt_length_of_getElem? hn)
      exact .inr ⟨n, _, hn, (congrArg (·[node]?) h).trans hself, rfl, rfl, length_set⟩
    refine .inl ?_
    rw [h]
    exact getElem?_set_ne hj
  congr sh sh' hwf hnodes hanch hact :=
    hwf.of_claims hanch (fun k s => (hact k s).1) fun j => .inl (by rw [hnodes])

lemma Removed.observes (hrem : Removed Inv sh gone sh') (hobs : Observes sh obs)
    (hknown : obs'.known = obs.known)
    (hactive : ∀ k s, (k, s) ∈ obs'.active ↔ (k, s) ∈ obs.active ∧ ¬ gone k s) :
    Observes sh' obs' where
  active k s := by rw [hrem.active, hobs.active, hactive]
  known s := by
    rw [hknown, ← hobs.known]
    unfold Known
    rw [hrem.anchors]

/-! ## The calls refine the abstract index -/

/-- A store returns and adds its keys to the observations when it is anchored. -/
lemma store_observes (hwf : WellFormed sh) (hobs : Observes sh obs)
    (owner tier parentSeq blocks) :
    ∃ sh', sh.store owner tier parentSeq blocks = some sh' ∧ WellFormed sh' ∧
      Observes sh' (obs.apply (.store owner tier parentSeq blocks)) := by
  have hanch : obs.Anchors parentSeq ↔ ∀ s, parentSeq = some s → sh.Known s := by
    cases parentSeq with
    | none => simp [Observations.Anchors]
    | some => simp [Observations.Anchors, hobs.known]
  by_cases hparent : ∀ s, parentSeq = some s → sh.Known s
  · obtain ⟨sh', hrun, hst⟩ := store_stored hwf owner tier parentSeq blocks hparent
    refine ⟨sh', hrun, hst.wf, fun k s => ?_, fun s => ?_⟩
    · rw [hst.active, hobs.active]
      simp [Observations.apply, hanch.2 hparent]
    · rw [hst.known, hobs.known]
      simp only [Observations.apply, Set.mem_union, Set.mem_ofPred_eq, hanch.2 hparent, true_and]
  -- an unknown parent: the store is skipped
  have hrun : sh.store owner tier parentSeq blocks = some sh := by
    cases parentSeq with
    | none => exact absurd nofun hparent
    | some =>
      refine store_unanchored owner tier (fun hs => hparent fun s' hs' => ?_) blocks
      cases hs'
      exact hs
  refine ⟨sh, hrun, hwf, fun k s => ?_, fun s => ?_⟩
  · rw [hobs.active]
    simp [Observations.apply, hanch, hparent]
  rw [hobs.known]
  simp only [Observations.apply, Set.mem_union, Set.mem_ofPred_eq, hanch, hparent,
    false_and, or_false]

/-- Every call returns and acts on the observations as the abstract index
does. A closed property that this store keeps is kept by the call. -/
lemma applyOp_observes (hcl : Closed Inv) (hinv : Inv sh) (hobs : Observes sh obs) (op)
    (hstore : ∀ owner tier parentSeq blocks sh', op = .store owner tier parentSeq blocks →
      sh.store owner tier parentSeq blocks = some sh' → Inv sh') :
    ∃ sh', sh.applyOp op = some sh' ∧ Inv sh' ∧ Observes sh' (obs.apply op) := by
  cases op with
  | store owner tier parentSeq blocks =>
    obtain ⟨sh', hrun, -, hobs'⟩ := store_observes (hcl.wf sh hinv) hobs owner tier parentSeq blocks
    exact ⟨sh', hrun, hstore owner tier parentSeq blocks sh' rfl hrun, hobs'⟩
  | remove owner tier seqs =>
    obtain ⟨sh', hrun, hrem⟩ := remove_removed hcl hinv owner tier seqs
    exact ⟨sh', hrun, hrem.inv, hrem.observes hobs rfl fun _ _ => Iff.rfl⟩
  | clear owner scope =>
    obtain ⟨sh', hrun, hrem⟩ := foldlM_removed (fun sh key h => clearKey_removed hcl h key) hinv
      (sh.reverse.keys.filter (clearNames owner scope))
    refine ⟨sh', hrun, hrem.inv, hrem.of_filter.observes hobs rfl fun k s => ?_⟩
    rw [clearNames_iff]
    exact Iff.rfl
  | clearSource source dpRank =>
    obtain ⟨sh', hrun, hrem⟩ := foldlM_removed (fun sh key h => removeKey_removed hcl h key) hinv
      (sh.reverse.keys.filter fun key => decide (key.1.target = ⟨source, dpRank⟩))
    refine ⟨sh', hrun, hrem.inv, hrem.of_filter.observes hobs rfl fun k s => ?_⟩
    rw [decide_eq_true_eq]
    exact Iff.rfl

end GroupShard

end VllmRouter.KvIndex
