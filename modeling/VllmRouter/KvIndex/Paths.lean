import VllmRouter.KvIndex.Refinement
import VllmRouter.KvIndex.Actions

/-!
# Queries on a whole index

The refinement of one shard, lifted to the family of shards an index is. The
contract on engine keys is per group: within a shard a key always names the
same full path.

- `IndexRepresents`: every shard represents the paths of its keys, and every
  call that respects the contract keeps this.
- `Holds path idx obs`: the index holds the observations `obs` and answers from
  them (`Holds.findMatches`); `Holds.perform` runs one action of a task.
-/

namespace VllmRouter.KvIndex

open GroupShard

/-- The paths that the keys of each group name. -/
abbrev GroupPaths := Nat → Hash → List Hash

def IndexRepresents (path : GroupPaths) (idx : KvBlockIndexer) : Prop :=
  ∀ g, ∃ pre, Represents (path g) pre (idx.shard g)

lemma indexRepresents_new (path) : IndexRepresents path KvBlockIndexer.new :=
  fun g => ⟨_, represents_new (path g)⟩

/-- The contract on the engine's keys, for the group a call stores into. -/
def IndexCall.Respects (path : GroupPaths) : IndexCall → Prop
  | .store groupIdx _ _ parentSeq blocks => NamesPaths (path groupIdx) parentSeq blocks
  | _ => True

section Calls

variable {path : GroupPaths} {idx idx' : KvBlockIndexer}

/-- Every shard has observations. -/
lemma exists_observes (sh) : ∃ obs, Observes sh obs :=
  ⟨⟨{t | sh.Active t.1 t.2}, {s | sh.Known s}⟩, fun _ _ => Iff.rfl, fun _ => Iff.rfl⟩

variable (h : IndexRepresents path idx)
include h

lemma onShard_represents (hop : op.Respects (path groupIdx))
    (hrun : idx.onShard groupIdx (fun sh => sh.applyOp op) = some idx') :
    IndexRepresents path idx' := by
  obtain ⟨pre, hrep⟩ := h groupIdx
  obtain ⟨_, hobs⟩ := exists_observes (idx.shard groupIdx)
  obtain ⟨sh', hsh, hrep', -⟩ := applyOp_observes (closed_represents (path groupIdx))
    ⟨pre, hrep⟩ hobs op fun _ _ _ _ _ heq hstore => by
      subst heq
      exact hrep.store hop hstore
  simp only [KvBlockIndexer.onShard, hsh] at hrun
  obtain rfl := Option.some.inj hrun
  intro g
  rw [shard_insert]
  split
  · next hg => exact hg ▸ hrep'
  · exact h g

lemma onShards_represents (hop : ∀ g, op.Respects (path g))
    (hrun : idx.onShards (fun sh => sh.applyOp op) = some idx') : IndexRepresents path idx' :=
  foldlM_invariant (fun _ g _ hf hI => onShard_represents hI (hop g) hf) _ _ _ hrun h

/-- A call that respects the contract keeps the representation. -/
lemma call_represents (hc : c.Respects path) (hrun : idx.call c = some idx') :
    IndexRepresents path idx' := by
  cases c with
  | store groupIdx owner tier parentSeq blocks =>
    have hop : (ShardOp.store owner tier parentSeq blocks).Respects (path groupIdx) := hc
    exact onShard_represents h hop hrun
  | remove groupIdx owner tier seqHashes =>
    have hop : (ShardOp.remove owner tier seqHashes).Respects (path groupIdx) := trivial
    exact onShard_represents h hop hrun
  | clear owner scope =>
    have hop : ∀ g, (ShardOp.clear owner scope).Respects (path g) := fun _ => trivial
    exact onShards_represents h hop hrun
  | clearSource source dpRank =>
    have hop : ∀ g, (ShardOp.clearSource source dpRank).Respects (path g) := fun _ => trivial
    exact onShards_represents h hop hrun

end Calls

/-! ## An index that answers from its observations -/

/-- The index holds `obs`, at the paths its keys name. -/
structure Holds (path : GroupPaths) (idx : KvBlockIndexer) (obs : IndexObs) : Prop where
  observes : IndexObserves idx obs
  represents : IndexRepresents path idx

lemma holds_new (path) : Holds path KvBlockIndexer.new IndexObs.empty :=
  ⟨indexObserves_new, indexRepresents_new path⟩

/-- An action that stores respects the contract. -/
def TaskAction.Respects (path : GroupPaths) : TaskAction → Prop
  | .call c => c.Respects path
  | .suspend => True
  | .resume => True

/-- What an action does to the observations: hiding a source changes none. -/
def IndexObs.act (obs : IndexObs) : TaskAction → IndexObs
  | .call c => obs.apply c
  | .suspend => obs
  | .resume => obs

namespace Holds

variable {path : GroupPaths} {idx : KvBlockIndexer} {obs : IndexObs}

variable (h : Holds path idx obs)
include h

lemma call (hc : c.Respects path) :
    ∃ idx', idx.call c = some idx' ∧ idx'.suspendedSources = idx.suspendedSources ∧
      Holds path idx' (obs.apply c) := by
  obtain ⟨idx', hrun, hsusp, hobs⟩ := call_observes h.observes c
  exact ⟨idx', hrun, hsusp, hobs, call_represents h.represents hc hrun⟩

/-- **Every action of a task returns** and acts on the observations. -/
lemma perform (src) (ha : a.Respects path) :
    ∃ idx', a.perform src idx = some idx' ∧ Holds path idx' (obs.act a) := by
  cases a with
  | call =>
    obtain ⟨idx', hrun, -, h'⟩ := h.call ha
    exact ⟨idx', hrun, h'⟩
  | suspend
  | resume => exact ⟨_, rfl, ⟨h.observes.wf, h.observes.observes⟩, h.represents⟩

/-- A query returns the reference answer, without the hidden sources. -/
lemma findMatches (query) :
    ∃ ms, (idx.shard query.groupIdx).findMatches query = some ms ∧
      Answers (path query.groupIdx) (obs query.groupIdx) query ms ∧
      idx.findMatches query = some (ms.filter fun hit =>
        !idx.isSuspended hit.target.instanceId hit.target.dpRank) := by
  obtain ⟨_, hrep⟩ := h.represents query.groupIdx
  obtain ⟨ms, hms, hans⟩ := findMatches_answers hrep (h.observes.observes query.groupIdx) query
  refine ⟨ms, hms, hans, ?_⟩
  simp [KvBlockIndexer.findMatches, hms]

/-- Every depth of a reported hit is held by an active claim of its target. -/
lemma findMatches_held (hms : idx.findMatches query = some ms) (hm : m ∈ ms)
    (hseg : (a, b) ∈ m.segments) (ha : a ≤ d) (hb : d < b) :
    Held (path query.groupIdx) (obs query.groupIdx) query.localHashes m.target m.tier d := by
  obtain ⟨_, -, hans, hfind⟩ := h.findMatches query
  obtain rfl := Option.some.inj (hms.symm.trans hfind)
  have hmem := (List.mem_filter.1 hm).1
  exact ((hans.segments m hmem a b).1 hseg).inside d ha hb

/-- A target without claims is not reported. -/
lemma findMatches_unclaimed (hms : idx.findMatches query = some ms)
    (hnone : ∀ k s, k.1.target = target → (k, s) ∉ (obs query.groupIdx).active) :
    ∀ m ∈ ms, m.target ≠ target := by
  intro m hm htarget
  obtain ⟨_, -, hans, hfind⟩ := h.findMatches query
  obtain rfl := Option.some.inj (hms.symm.trans hfind)
  have hmem := (List.mem_filter.1 hm).1
  obtain ⟨-, d, owner, howner, -, s, hs, -⟩ :=
    (hans.reported target m.tier).1 ⟨m, hmem, htarget, rfl⟩
  exact hnone (owner, m.tier) s howner hs

end Holds

end VllmRouter.KvIndex
