import VllmRouter.KvIndex.Observations
import VllmRouter.KvIndex.Subscriber

/-!
# Folding a publisher's log into the index

The index is a family of shards, so its observations are a family indexed by
the group. A batch is a list of index calls and a log is a list of batches;
this module relates the state an index is in to the fold of a log prefix.

- `IndexObserves`: an index holds the given observations, and every call on it
  returns and acts as the abstract call does (`call_observes`).
- `Credit log n`: what the claims of one source are worth after the log prefix
  of length `n`. It survives the next batch of the log and is re-established
  at any position by discarding the source.
-/

namespace VllmRouter.KvIndex

open GroupShard KvBlockIndexer List

/-! ## Index calls and their observations -/

/-- One call on the index. -/
inductive IndexCall where
  | store (groupIdx : Nat) (owner : ResidencyOwner) (tier : StorageTier)
      (parentSeq : Option Hash) (blocks : List IncomingBlock)
  | remove (groupIdx : Nat) (owner : ResidencyOwner) (tier : StorageTier)
      (seqHashes : List Hash)
  | clear (owner : ResidencyOwner) (scope : ClearScope)
  | clearSource (source : SourceId) (dpRank : Nat)

/-- What a call does on one group's shard. -/
def IndexCall.opFor : IndexCall → Nat → Option ShardOp
  | .store groupIdx owner tier parentSeq blocks, g =>
    if g = groupIdx then some (.store owner tier parentSeq blocks) else none
  | .remove groupIdx owner tier seqHashes, g =>
    if g = groupIdx then some (.remove owner tier seqHashes) else none
  | .clear owner scope, _ => some (.clear owner scope)
  | .clearSource source dpRank, _ => some (.clearSource source dpRank)

/-- Run one call. -/
def KvBlockIndexer.call (idx : KvBlockIndexer) : IndexCall → Option KvBlockIndexer
  | .store groupIdx owner tier parentSeq blocks => idx.store groupIdx owner tier parentSeq blocks
  | .remove groupIdx owner tier seqHashes => idx.remove groupIdx owner tier seqHashes
  | .clear owner scope => idx.clear owner scope
  | .clearSource source dpRank => idx.onShards fun sh => sh.clearSource source dpRank

/-- The observations of every group. -/
abbrev IndexObs := Nat → Observations

namespace IndexObs

def empty : IndexObs := fun _ => Observations.empty

def apply (obs : IndexObs) (c : IndexCall) : IndexObs := fun g =>
  match c.opFor g with
  | some op => (obs g).apply op
  | none => obs g

/-- The observations after a list of calls. -/
def fold (obs : IndexObs) (calls : List IndexCall) : IndexObs := calls.foldl apply obs

lemma fold_append (obs : IndexObs) (c1 c2) :
    obs.fold (c1 ++ c2) = (obs.fold c1).fold c2 := foldl_append

lemma fold_cons (obs : IndexObs) (c calls) :
    obs.fold (c :: calls) = (obs.apply c).fold calls := rfl

end IndexObs

/-- The index holds the observations `obs`, in well-formed shards. -/
structure IndexObserves (idx : KvBlockIndexer) (obs : IndexObs) : Prop where
  wf : ∀ g, WellFormed (idx.shard g)
  observes : ∀ g, Observes (idx.shard g) (obs g)

lemma indexObserves_new : IndexObserves new IndexObs.empty where
  wf _ := wellFormed_new
  observes _ := observes_new

variable {idx : KvBlockIndexer} {obs : IndexObs}

lemma shard_insert (groupIdx g sh) :
    ({ idx with shards := idx.shards.insert groupIdx sh } : KvBlockIndexer).shard g
      = if g = groupIdx then sh else idx.shard g := by
  unfold shard
  rw [Dict.lookup_insert_eq]
  split <;> rfl

section

variable (h : IndexObserves idx obs)
include h

/-- One shard's operation changes that shard's observations only. -/
lemma onShard_observes (groupIdx op) :
    ∃ idx', idx.onShard groupIdx (fun sh => sh.applyOp op) = some idx' ∧
      idx'.suspendedSources = idx.suspendedSources ∧
      IndexObserves idx' fun g => if g = groupIdx then (obs g).apply op else obs g := by
  obtain ⟨sh', hrun, hwf, hobs⟩ := applyOp_observes closed_wellFormed (h.wf groupIdx)
    (h.observes groupIdx) op fun owner tier parentSeq blocks sh' _ hstore => by
      obtain ⟨_, hrun1, hwf1, -⟩ := store_observes (h.wf groupIdx) (h.observes groupIdx)
        owner tier parentSeq blocks
      obtain rfl := Option.some.inj (hstore.symm.trans hrun1)
      exact hwf1
  refine ⟨{ idx with shards := idx.shards.insert groupIdx sh' }, ?_, rfl, fun g => ?_, fun g => ?_⟩
  · simp [onShard, hrun]
  · rw [shard_insert]
    split
    · exact hwf
    · exact h.wf g
  rw [shard_insert]
  split
  · next hg =>
    subst hg
    exact hobs
  · exact h.observes g

/-- A removing operation on every shard acts on every group. Groups without a
shard have no claims to remove. -/
lemma onShards_observes (op)
    (hremoves : ∀ o : Observations, (∀ t, t ∉ o.active) → o.apply op = o) :
    ∃ idx', idx.onShards (fun sh => sh.applyOp op) = some idx' ∧
      idx'.suspendedSources = idx.suspendedSources ∧
      IndexObserves idx' fun g => (obs g).apply op := by
  obtain ⟨idx', hrun, hsusp, hobs⟩ := foldlM_rule
    (f := fun idx groupIdx => onShard idx groupIdx fun sh => sh.applyOp op)
    (l := idx.shards.keys)
    (P := fun done idx1 => idx1.suspendedSources = idx.suspendedSources ∧
      IndexObserves idx1 fun g => if g ∈ done then (obs g).apply op else obs g)
    (fun done g _ _ hkeys hP => by
      obtain ⟨idx2, hrun2, hsusp2, hobs2⟩ := onShard_observes hP.2 g op
      refine ⟨idx2, hrun2, hsusp2.trans hP.1, ?_⟩
      -- a key occurs once, so its group was not done yet
      have hnew : g ∉ done := by
        have hnd := idx.shards.keys_nodup
        rw [hkeys] at hnd
        exact fun hg => (nodup_append.1 hnd).2.2 g hg g (mem_cons_self) rfl
      convert hobs2 using 1
      funext g'
      by_cases hg : g' = g
      · subst hg
        simp [hnew]
      · simp [hg])
    idx.shards.keys [] idx rfl ⟨rfl, by simpa using h⟩
  refine ⟨idx', hrun, hsusp, hobs.wf, fun g => ?_⟩
  by_cases hg : g ∈ idx.shards.keys
  · have := hobs.observes g
    rwa [if_pos hg] at this
  have hnone : idx.shards.lookup g = none := by
    cases hl : idx.shards.lookup g with
    | none => rfl
    | some sh => exact absurd ((Dict.mem_keys_iff _ g).2 ⟨sh, hl⟩) hg
  have hempty : ∀ t, t ∉ (obs g).active := by
    rintro ⟨k, s⟩ ht
    have hact := ((h.observes g).active k s).2 ht
    unfold shard at hact
    rw [hnone] at hact
    cases hact
  have := hobs.observes g
  rwa [if_neg hg, ← hremoves (obs g) hempty] at this

/-- **Every call returns and acts on the observations as stated.** -/
lemma call_observes (c) :
    ∃ idx', idx.call c = some idx' ∧ idx'.suspendedSources = idx.suspendedSources ∧
      IndexObserves idx' (obs.apply c) := by
  have hgroup : ∀ groupIdx op, (∀ g, c.opFor g = if g = groupIdx then some op else none) →
      (obs.apply c) = fun g => if g = groupIdx then (obs g).apply op else obs g := by
    intro _ _ _
    funext g
    unfold IndexObs.apply
    split <;> simp_all
  cases c with
  | store groupIdx owner tier parentSeq blocks =>
    rw [hgroup groupIdx (.store owner tier parentSeq blocks) fun _ => rfl]
    exact onShard_observes h groupIdx (.store owner tier parentSeq blocks)
  | remove groupIdx owner tier seqHashes =>
    rw [hgroup groupIdx (.remove owner tier seqHashes) fun _ => rfl]
    exact onShard_observes h groupIdx (.remove owner tier seqHashes)
  | clear owner scope =>
    refine onShards_observes h (.clear owner scope) fun o ho => ?_
    have hnone : {t ∈ o.active | ¬ ClearNames owner scope t.1} = o.active :=
      Set.ext fun t => ⟨fun ht => ht.1, fun ht => absurd ht (ho t)⟩
    simp [Observations.apply, hnone]
  | clearSource source dpRank =>
    refine onShards_observes h (.clearSource source dpRank) fun o ho => ?_
    have hnone : {t ∈ o.active | t.1.1.target ≠ ⟨source, dpRank⟩} = o.active :=
      Set.ext fun t => ⟨fun ht => ht.1, fun ht => absurd ht (ho t)⟩
    simp only [Observations.apply, hnone]

end

/-- A list of calls returns and folds the observations. -/
lemma calls_observe (calls) :
    ∀ idx obs, IndexObserves idx obs →
      ∃ idx', calls.foldlM call idx = some idx' ∧
        idx'.suspendedSources = idx.suspendedSources ∧ IndexObserves idx' (obs.fold calls) := by
  induction calls with
  | nil => exact fun idx _ h => ⟨idx, rfl, rfl, h⟩
  | cons c _ ih =>
    intro _ _ h
    obtain ⟨idx1, hrun, hsusp, h1⟩ := call_observes h c
    obtain ⟨idx', hrun', hsusp', h'⟩ := ih idx1 _ h1
    refine ⟨idx', ?_, hsusp'.trans hsusp, h'⟩
    rw [foldlM_cons, hrun]
    exact hrun'

/-! ## What a call touches -/

namespace IndexCall

/-- The call can change claims of this key. -/
def Touches : IndexCall → OwnerTier → Prop
  | .store _ owner tier _ _, key => key = (owner, tier)
  | .remove _ owner tier _, key => key = (owner, tier)
  | .clear owner scope, key => ClearNames owner scope key
  | .clearSource source dpRank, key => key.1.target = ⟨source, dpRank⟩

/-- The parent key that a store needs. -/
def parentSeq : IndexCall → Option Hash
  | .store _ _ _ parentSeq _ => parentSeq
  | _ => none

/-- The call stores this claim. -/
def Stores : IndexCall → Nat → OwnerTier → Hash → Prop
  | .store groupIdx owner tier _ blocks, g, key, seq =>
    g = groupIdx ∧ key = (owner, tier) ∧ seq ∈ blocks.map Prod.fst
  | _, _, _, _ => False

/-- The call deletes this claim. -/
def Evicts : IndexCall → Nat → OwnerTier → Hash → Prop
  | .store .., _, _, _ => False
  | .remove groupIdx owner tier seqHashes, g, key, seq =>
    g = groupIdx ∧ key = (owner, tier) ∧ seq ∈ seqHashes
  | .clear owner scope, _, key, _ => ClearNames owner scope key
  | .clearSource source dpRank, _, key, _ => key.1.target = ⟨source, dpRank⟩

end IndexCall

namespace IndexObs

variable (obs : IndexObs) (c : IndexCall) (g : Nat)

/-- One call on one claim: it stays unless evicted, and only an anchored store
adds it. -/
lemma mem_apply (k s) : (k, s) ∈ (obs.apply c g).active ↔
      ((k, s) ∈ (obs g).active ∧ ¬ c.Evicts g k s) ∨
      (c.Stores g k s ∧ (obs g).Anchors c.parentSeq) := by
  cases c with
  | store groupIdx =>
    by_cases hg : g = groupIdx
    · simp only [apply, IndexCall.opFor, if_pos hg, Observations.apply, Set.mem_union,
        Set.mem_ofPred_eq, IndexCall.Stores]
      tauto
    · simp [apply, IndexCall.opFor, IndexCall.Stores, IndexCall.Evicts, hg]
  | remove groupIdx =>
    by_cases hg : g = groupIdx
    · simp [apply, IndexCall.opFor, Observations.apply, IndexCall.Stores, IndexCall.Evicts, hg]
    · simp [apply, IndexCall.opFor, IndexCall.Stores, IndexCall.Evicts, hg]
  | clear owner scope
  | clearSource =>
    simp [apply, IndexCall.opFor, Observations.apply, IndexCall.Stores, IndexCall.Evicts]

/-- A key becomes known by an anchored store. -/
lemma mem_known_apply (s) : s ∈ (obs.apply c g).known ↔
      s ∈ (obs g).known ∨ ∃ k, c.Stores g k s ∧ (obs g).Anchors c.parentSeq := by
  cases c with
  | store groupIdx owner tier =>
    by_cases hg : g = groupIdx
    · simp only [apply, IndexCall.opFor, if_pos hg]
      constructor
      · exact Or.imp id fun h => ⟨(owner, tier), ⟨hg, rfl, h.2⟩, h.1⟩
      rintro (hknown | ⟨_, h, ha⟩)
      · exact .inl hknown
      · exact .inr ⟨ha, h.2.2⟩
    · simp [apply, IndexCall.opFor, IndexCall.Stores, hg]
  | remove groupIdx =>
    by_cases hg : g = groupIdx
    · simp [apply, IndexCall.opFor, Observations.apply, IndexCall.Stores, hg]
    · simp [apply, IndexCall.opFor, IndexCall.Stores, hg]
  | clear
  | clearSource => simp [apply, IndexCall.opFor, Observations.apply, IndexCall.Stores]

/-- Known keys are never forgotten. -/
lemma known_apply : (obs g).known ⊆ (obs.apply c g).known :=
  fun s hs => (mem_known_apply obs c g s).2 (.inl hs)

variable {obs c g}

lemma known_fold (calls) :
    ∀ (obs : IndexObs) (g : Nat), (obs g).known ⊆ (obs.fold calls g).known := by
  induction calls with
  | nil => exact fun _ _ _ hs => hs
  | cons c _ ih => exact fun obs g s hs => ih (obs.apply c) g (obs.known_apply c g hs)

/-- A call leaves the claims it does not touch. -/
lemma mem_apply_untouched (obs : IndexObs) (hc : ¬ c.Touches k) (g s) :
    (k, s) ∈ (obs.apply c g).active ↔ (k, s) ∈ (obs g).active := by
  have hstore : ¬ c.Stores g k s := by
    cases c with
    | store => exact fun h => hc h.2.1
    | remove
    | clear
    | clearSource => exact id
  have hevict : ¬ c.Evicts g k s := by
    cases c with
    | store => exact id
    | remove => exact fun h => hc h.2.1
    | clear => exact hc
    | clearSource => exact hc
  rw [mem_apply]
  simp [hstore, hevict]

/-- An evicted claim stays away until it is stored again. -/
lemma evicted_fold (hevict : c.Evicts g k s) (hpost : ∀ c' ∈ post, ¬ c'.Stores g k s)
    (obs : IndexObs) : (k, s) ∉ (obs.fold (pre ++ c :: post) g).active := by
  rw [fold_append, fold_cons]
  have hgone : (k, s) ∉ ((obs.fold pre).apply c g).active := by
    rw [mem_apply]
    rintro (h | h)
    · exact h.2 hevict
    cases c with
    | store => exact hevict
    | remove
    | clear
    | clearSource => exact h.1
  refine foldlRecOn (motive := fun o : IndexObs => (k, s) ∉ (o g).active) post _ hgone ?_
  intro o hgone c' hc'
  rw [mem_apply]
  rintro (h | h)
  · exact hgone h.1
  · exact hpost c' hc' h.1

end IndexObs

/-! ## Comparing observations

Two indexes that fold the same calls may differ in what they held before. More
known keys anchor more stores, so the order on observations compares the claims
of one target and the known keys of everyone. -/

/-- Every claim of `target` and every known key of `o₁` is in `o₂`. -/
structure Below (target : RoutableTarget) (o₁ o₂ : IndexObs) : Prop where
  active : ∀ g k s, k.1.target = target → (k, s) ∈ (o₁ g).active → (k, s) ∈ (o₂ g).active
  known : ∀ g, (o₁ g).known ⊆ (o₂ g).known

section Below

variable {target : RoutableTarget} {o₁ o₂ : IndexObs}

lemma Below.refl (o) : Below target o o := ⟨fun _ _ _ _ h => h, fun _ _ h => h⟩

lemma anchors_mono {o₁ o₂ : Observations} (h : o₁.known ⊆ o₂.known) (ha : o₁.Anchors parentSeq) :
    o₂.Anchors parentSeq := by
  cases parentSeq with
  | none => trivial
  | some => exact h ha

/-- The same call keeps the order. -/
lemma Below.apply (h : Below target o₁ o₂) (c) :
    Below target (o₁.apply c) (o₂.apply c) where
  active g k s hk hmem := by
    rw [IndexObs.mem_apply] at hmem ⊢
    rcases hmem with ⟨hold, hev⟩ | ⟨hst, hanch⟩
    · exact .inl ⟨h.active g k s hk hold, hev⟩
    · exact .inr ⟨hst, anchors_mono (h.known g) hanch⟩
  known g s hs := by
    rw [IndexObs.mem_known_apply] at hs ⊢
    rcases hs with hs | ⟨k, hst, hanch⟩
    · exact .inl (h.known g hs)
    · exact .inr ⟨k, hst, anchors_mono (h.known g) hanch⟩

lemma Below.fold (calls) :
    ∀ {o₁ o₂}, Below target o₁ o₂ → Below target (o₁.fold calls) (o₂.fold calls) := by
  induction calls with
  | nil => exact fun h => h
  | cons c _ ih => exact fun h => ih (h.apply c)

end Below

/-- A fold that starts with more known keys, and no claims of the target, adds
nothing when each store whose parent is among those keys is anchored anyway. -/
lemma below_fold_of_anchored {o : IndexObs}
    (hnone : ∀ g k s, k.1.target = target → (k, s) ∉ (o g).active)
    (hanch : ∀ pre c post parent g, calls = pre ++ c :: post → c.parentSeq = some parent →
      (∃ k s, c.Stores g k s) → parent ∈ (o g).known → parent ∈ (IndexObs.empty.fold pre g).known) :
    ∀ g k s, k.1.target = target → (k, s) ∈ (o.fold calls g).active →
      (k, s) ∈ (IndexObs.empty.fold calls g).active := by
  -- induction from the right: the keys known by the longer start are its own or folded ones
  suffices h : (∀ g k s, k.1.target = target → (k, s) ∈ (o.fold calls g).active →
        (k, s) ∈ (IndexObs.empty.fold calls g).active) ∧
      ∀ g, (o.fold calls g).known ⊆ (o g).known ∪ (IndexObs.empty.fold calls g).known from h.1
  induction calls using reverseRecOn with
  | nil => exact ⟨fun g k s hk h => absurd h (hnone g k s hk), fun g s hs => .inl hs⟩
  | append_singleton pre c ih =>
    obtain ⟨hact, hknown⟩ := ih fun pre' c' post parent g hc =>
      hanch pre' c' (post ++ [c]) parent g (by rw [hc]; simp)
    -- a store that adds a claim to the longer start is anchored in the fold too
    have hanchors : ∀ g, (∃ k s, c.Stores g k s) → (o.fold pre g).Anchors c.parentSeq →
        (IndexObs.empty.fold pre g).Anchors c.parentSeq := by
      intro g hst ha
      cases hp : c.parentSeq with
      | none => trivial
      | some parent =>
        rw [hp] at ha
        rcases hknown g ha with hk | hk
        · exact hanch pre c [] parent g rfl hp hst hk
        · exact hk
    rw [IndexObs.fold_append, IndexObs.fold_append]
    refine ⟨fun g k s hk hmem => ?_, fun g s hs => ?_⟩
    · change (k, s) ∈ ((o.fold pre).apply c g).active at hmem
      change (k, s) ∈ ((IndexObs.empty.fold pre).apply c g).active
      rw [IndexObs.mem_apply] at hmem ⊢
      rcases hmem with ⟨hold, hev⟩ | ⟨hst, ha⟩
      · exact .inl ⟨hact g k s hk hold, hev⟩
      · exact .inr ⟨hst, hanchors g ⟨k, s, hst⟩ ha⟩
    change s ∈ ((o.fold pre).apply c g).known at hs
    change s ∈ (o g).known ∪ ((IndexObs.empty.fold pre).apply c g).known
    rw [IndexObs.mem_known_apply] at hs
    rcases hs with hs | ⟨k, hst, ha⟩
    · exact (hknown g hs).imp id fun h => IndexObs.known_apply _ c g h
    · exact .inr ((IndexObs.mem_known_apply _ c g s).2
        (.inr ⟨k, hst, hanchors g ⟨k, s, hst⟩ ha⟩))

/-! ## A log as a list of calls -/

/-- The index call an event makes. -/
def eventCall (codec : Codec) (source : SourceId) (rank incarnation : Nat) :
    KVEvent → IndexCall
  | .blockStored s =>
    let owner := eventOwner source rank incarnation s.ownership
    let locals := (localBlockHashes codec.sha256 s.tokenIds s.blockSize s.loraName).map hex
    .store (s.groupIdx.getD 0) owner (eventTier owner s.medium)
      (s.parentBlockHash.map hashStr) ((s.blockHashes.map hashStr).zip locals)
  | .blockRemoved r =>
    let owner := eventOwner source rank incarnation r.ownership
    .remove (r.groupIdx.getD 0) owner (eventTier owner r.medium) (r.blockHashes.map hashStr)
  | .allBlocksCleared => .clear (ownerFor source rank incarnation) .worker

def batchCalls (codec : Codec) (source : SourceId) (dpRank incarnation : Nat)
    (batch : KVEventBatch) : List IndexCall :=
  batch.events.map (eventCall codec source (batch.dataParallelRank.getD dpRank) incarnation)

lemma applyBatch_eq (codec idx source dpRank incarnation batch) :
    applyBatch codec idx source dpRank incarnation batch
      = (batchCalls codec source dpRank incarnation batch).foldlM call idx := by
  unfold applyBatch batchCalls
  rw [foldlM_map]
  congr 1
  funext idx ev
  cases ev <;> rfl

/-- The owner of an event's blocks is on the publisher's target. -/
lemma eventOwner_target (source rank incarnation ownership) :
    (eventOwner source rank incarnation ownership).target = ⟨source, rank⟩ := by
  unfold eventOwner
  split
  · split <;> rfl
  · rfl

/-- An event touches claims of its publisher only. -/
lemma eventCall_touches (h : (eventCall codec source rank incarnation ev).Touches k) :
    k.1.target = ⟨source, rank⟩ := by
  cases ev with
  | blockStored s
  | blockRemoved =>
    cases h
    exact eventOwner_target ..
  | allBlocksCleared =>
    obtain ⟨owner, _⟩ := k
    cases owner with
    | worker =>
      obtain ⟨rfl, rfl, -⟩ := h
      rfl
    | cacheOwner => exact h.elim

section Log

variable (codec : Codec) (src : EventSource)

/-- The calls of a log published by `src` in its first incarnation. -/
def logCalls (log : List KVEventBatch) : List IndexCall :=
  log.flatMap (batchCalls codec src.source src.dpRank 0)

/-- Fold a log into an index. -/
def foldLog (idx : KvBlockIndexer) (log : List KVEventBatch) : Option KvBlockIndexer :=
  log.foldlM (fun idx batch => applyBatch codec idx src.source src.dpRank 0 batch) idx

lemma foldLog_eq (log) : ∀ idx,
    foldLog codec src idx log = (logCalls codec src log).foldlM call idx := by
  induction log with
  | nil => exact fun _ => rfl
  | cons batch log ih =>
    intro _
    have hcons : logCalls codec src (batch :: log)
        = batchCalls codec src.source src.dpRank 0 batch ++ logCalls codec src log :=
      flatMap_cons
    rw [hcons, foldlM_append, ← applyBatch_eq]
    exact bind_congr ih

lemma foldLog_observes (h : IndexObserves idx obs) (log) :
    ∃ idx', foldLog codec src idx log = some idx' ∧
      IndexObserves idx' (obs.fold (logCalls codec src log)) := by
  obtain ⟨idx', hrun, -, hobs⟩ := calls_observe (logCalls codec src log) idx obs h
  exact ⟨idx', (foldLog_eq codec src log idx).trans hrun, hobs⟩

/-- The fold of one more entry of the log. -/
lemma fold_take_succ {log : List KVEventBatch} (h : log[n]? = some batch) (obs : IndexObs) :
    obs.fold (logCalls codec src (log.take (n + 1)))
      = (obs.fold (logCalls codec src (log.take n))).fold
          (batchCalls codec src.source src.dpRank 0 batch) := by
  rw [← IndexObs.fold_append]
  unfold logCalls
  rw [take_add_one, h]
  simp

/-! ## What the claims of a source are worth -/

/-- The claims of `src` in the observations `obs`, against the first `n`
entries of its log. `alone` says that no other publisher used the index, and
`invalidated` that the source was discarded at some point. -/
structure Credit (log : List KVEventBatch) (alone invalidated : Prop) (n : Nat)
    (obs : IndexObs) : Prop where
  /-- Folding the log over any index that knows at least the same keys gives
  every claim back. -/
  sound : ∀ o₀ : IndexObs, (∀ g, (obs g).known ⊆ (o₀ g).known) →
    ∀ g k s, k.1.target = ⟨src.source, src.dpRank⟩ → (k, s) ∈ (obs g).active →
      (k, s) ∈ (o₀.fold (logCalls codec src (log.take n)) g).active
  complete : ¬ invalidated →
    Below ⟨src.source, src.dpRank⟩ (IndexObs.empty.fold (logCalls codec src (log.take n))) obs
  exact : alone → ¬ invalidated → obs = IndexObs.empty.fold (logCalls codec src (log.take n))

variable {codec src} {log : List KVEventBatch} {alone invalidated : Prop} {n : Nat}
  {obs : IndexObs}

lemma credit_empty : Credit codec src log alone invalidated 0 IndexObs.empty where
  sound _ _ _ _ _ _ h := h.elim
  complete _ := Below.refl _
  exact _ _ := rfl

/-- The next batch of the log. -/
lemma Credit.batch (h : Credit codec src log alone invalidated n obs) {batch : KVEventBatch}
    (hb : log[n]? = some batch) : Credit codec src log alone invalidated (n + 1)
      (obs.fold (batchCalls codec src.source src.dpRank 0 batch)) where
  sound o₀ hk := by
    rw [fold_take_succ codec src hb]
    have hbelow : Below ⟨src.source, src.dpRank⟩ obs
        (o₀.fold (logCalls codec src (log.take n))) := by
      have hold : ∀ g, (obs g).known ⊆ (o₀ g).known := fun g s hs => hk g (obs.known_fold _ g hs)
      exact ⟨h.sound o₀ hold, fun g s hs => IndexObs.known_fold _ o₀ g (hold g hs)⟩
    exact (hbelow.fold _).active
  complete hinv := by
    rw [fold_take_succ codec src hb]
    exact (h.complete hinv).fold _
  exact ha hinv := by rw [fold_take_succ codec src hb, ← h.exact ha hinv]

/-- Discarding the source makes its claims sound at every position. -/
lemma Credit.discard (h : invalidated) (m) : Credit codec src log alone invalidated m
      (obs.apply (.clearSource src.source src.dpRank)) where
  sound o₀ _ g k s hk hmem := by
    rw [IndexObs.mem_apply] at hmem
    rcases hmem with ⟨-, hev⟩ | ⟨hst, -⟩
    · exact absurd hk hev
    · exact hst.elim
  complete hinv := absurd h hinv
  exact _ hinv := absurd h hinv

/-- Calls that do not touch the source's claims keep what they are worth. -/
lemma Credit.foreign (h : Credit codec src log alone invalidated n obs)
    (hc : ∀ k, c.Touches k → k.1.target ≠ ⟨src.source, src.dpRank⟩) :
    Credit codec src log False invalidated n (obs.apply c) where
  sound o₀ hk g k s hours hmem := by
    rw [obs.mem_apply_untouched fun ht => hc k ht hours] at hmem
    exact h.sound o₀ (fun g s hs => hk g (obs.known_apply c g hs)) g k s hours hmem
  complete hinv := by
    refine ⟨fun g k s hours hmem => ?_, fun g s hs => ?_⟩
    · rw [obs.mem_apply_untouched fun ht => hc k ht hours]
      exact (h.complete hinv).active g k s hours hmem
    · exact obs.known_apply c g ((h.complete hinv).known g hs)
  exact ha := ha.elim

lemma Credit.foreign_fold
    (hc : ∀ c ∈ calls, ∀ k, c.Touches k → k.1.target ≠ ⟨src.source, src.dpRank⟩)
    (h : Credit codec src log False invalidated n obs) :
    Credit codec src log False invalidated n (obs.fold calls) :=
  foldlRecOn (motive := Credit codec src log False invalidated n) calls _ h
    fun _ h c hcall => h.foreign (hc c hcall)

lemma Credit.weaken (h : Credit codec src log alone invalidated n obs) (ha : alone' → alone)
    (hi : invalidated → invalidated') : Credit codec src log alone' invalidated' n obs where
  sound := h.sound
  complete hinv := h.complete fun hc => hinv (hi hc)
  exact ha' hinv := h.exact (ha ha') fun hc => hinv (hi hc)

end Log

end VllmRouter.KvIndex
