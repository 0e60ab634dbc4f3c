import VllmRouter.KvIndex.Supervisor
import VllmRouter.Lib.Machine
import VllmRouter.Lib.Sums

/-!
# Acquiring and releasing an identity, section by section

`acquire_identity` counts the reference under the lock of `identity_refs`,
creating the index with the first one, and looks the index up after it has
dropped the lock. `release_identity` drops the reference under the lock and, when
it was the last, removes the index after it has dropped the lock. Run without
interruption these are the two steps of the supervisor (`acquireIdentity_eq`,
`releaseIdentity_eq`); here any number of workers interleave the sections.

- `Counted` relates the counts, the map of indexes and the calls in progress. A
  step keeps it unless it counts a reference to a key while a last release of the
  key has still to remove the index (`Counted.step`).
- `refCounted_of_settled` reads the reference counting off it.
-/

namespace VllmRouter.KvIndex

open KvIndexSupervisor List

variable {key : CacheKey}

namespace KvIndexSupervisor

/-! ## The sections -/

variable (s : KvIndexSupervisor) (key : CacheKey)

/-- `acquire_identity` up to the release of the lock. -/
def countReference : KvIndexSupervisor :=
  let count := (s.identityRefs.lookup key).getD 0
  let s := if count = 0 then
      { s with
        indexes := s.indexes ++ [KvBlockIndexer.new]
        indexers := s.indexers.insert key s.indexes.length }
    else s
  { s with identityRefs := s.identityRefs.insert key (count + 1) }

/-- The lookup that ends `acquire_identity`; it panics when there is no index. -/
def fetchIndex : Option IndexRef :=
  s.indexers.lookup key

/-- `release_identity` up to the release of the lock, and whether the reference
was the last. -/
def dropReference : KvIndexSupervisor × Bool :=
  match s.identityRefs.lookup key with
  | none => (s, false)
  | some count =>
    if count - 1 = 0 then ({ s with identityRefs := s.identityRefs.erase key }, true)
    else ({ s with identityRefs := s.identityRefs.insert key (count - 1) }, false)

/-- The removal that ends the last `release_identity`. -/
def removeIndex : KvIndexSupervisor :=
  { s with indexers := s.indexers.erase key }

lemma acquireIdentity_eq :
    s.acquireIdentity key = (s.countReference key, (s.countReference key).fetchIndex key) := rfl

lemma releaseIdentity_eq : s.releaseIdentity key =
      if (s.dropReference key).2 then (s.dropReference key).1.removeIndex key
      else (s.dropReference key).1 := by
  grind [releaseIdentity, dropReference, removeIndex]

/-- The reference count of a key. -/
def refCount : Nat := (s.identityRefs.lookup key).getD 0

variable {s key}

lemma refCount_countReference (s : KvIndexSupervisor) (key k) :
    (s.countReference key).refCount k = s.refCount k + if k = key then 1 else 0 := by
  grind [refCount, countReference]

lemma fetchIndex_countReference (s : KvIndexSupervisor) (key k) :
    (s.countReference key).fetchIndex k =
      if s.refCount key = 0 ∧ k = key then some s.indexes.length else s.fetchIndex k := by
  grind [refCount, countReference, fetchIndex]

lemma refCount_dropReference (hpos : 0 < s.refCount key) (k) :
    (s.dropReference key).1.refCount k + (if k = key then 1 else 0) = s.refCount k := by
  grind [refCount, dropReference]

lemma last_dropReference (hpos : 0 < s.refCount key) :
    (s.dropReference key).2 = decide (s.refCount key = 1) := by
  grind [refCount, dropReference]

lemma fetchIndex_dropReference (s : KvIndexSupervisor) (key k) :
    (s.dropReference key).1.fetchIndex k = s.fetchIndex k := by
  grind [fetchIndex, dropReference]

lemma fetchIndex_removeIndex (s : KvIndexSupervisor) (key k) :
    (s.removeIndex key).fetchIndex k = if k = key then none else s.fetchIndex k :=
  Dict.lookup_erase_eq _ _ _

end KvIndexSupervisor

/-! ## The interleaving -/

/-- Where a worker stands between the sections. -/
inductive IdentityCall where
  | idle
  /-- the reference is counted, the index not yet looked up -/
  | acquiring (key : CacheKey)
  | holding (key : CacheKey) (ref : IndexRef)
  /-- the last reference is dropped, the index not yet removed -/
  | releasing (key : CacheKey)
  | panicked (key : CacheKey)
deriving DecidableEq, Repr

namespace IdentityCall

/-- The worker's reference to `key` is counted. -/
def counts (key : CacheKey) : IdentityCall → Bool
  | acquiring k => k = key
  | holding k _ => k = key
  | panicked k => k = key
  | _ => false

/-- No call is in progress. -/
def settled : IdentityCall → Bool
  | acquiring _ => false
  | releasing _ => false
  | _ => true

end IdentityCall

structure IdentityCalls where
  sup : KvIndexSupervisor
  workers : List IdentityCall

/-- Worker `i` takes the next section of `acquire_identity` (`acquire`, `fetch`) or
of `release_identity` (`release`, `remove`). -/
inductive IdentityEvent where
  | acquire (i : Nat) (key : CacheKey)
  | fetch (i : Nat)
  | release (i : Nat)
  | remove (i : Nat)
deriving DecidableEq, Repr

namespace IdentityCalls

def init (n : Nat) : IdentityCalls := ⟨new, replicate n .idle⟩

/-- A worker for which the section is not the next one takes no step. -/
def step (s : IdentityCalls) : IdentityEvent → IdentityCalls
  | .acquire i key => match s.workers[i]? with
    | some .idle => ⟨s.sup.countReference key, s.workers.set i (.acquiring key)⟩
    | _ => s
  | .fetch i => match s.workers[i]? with
    | some (.acquiring key) => match s.sup.fetchIndex key with
      | some ref => ⟨s.sup, s.workers.set i (.holding key ref)⟩
      | none => ⟨s.sup, s.workers.set i (.panicked key)⟩
    | _ => s
  | .release i => match s.workers[i]? with
    | some (.holding key _) =>
      ⟨(s.sup.dropReference key).1, s.workers.set i
        (if (s.sup.dropReference key).2 then .releasing key else .idle)⟩
    | _ => s
  | .remove i => match s.workers[i]? with
    | some (.releasing key) => ⟨s.sup.removeIndex key, s.workers.set i .idle⟩
    | _ => s

def run (n : Nat) (es : List IdentityEvent) : IdentityCalls := es.foldl step (init n)

/-- The step does not count a reference to a key whose index a last release has
still to remove. -/
def acquiresSettled (s : IdentityCalls) : IdentityEvent → Bool
  | .acquire _ key => .releasing key ∉ s.workers
  | _ => true

structure RefCounted (s : IdentityCalls) : Prop where
  noPanic : ∀ key, .panicked key ∉ s.workers
  indexed : (∀ w ∈ s.workers, w.settled = true) →
    ∀ key, (s.sup.fetchIndex key).isSome = true ↔ 0 < s.sup.refCount key
  shared : ∀ key ref ref', .holding key ref ∈ s.workers → .holding key ref' ∈ s.workers →
    ref = ref'

/-! ## The invariant -/

/-- The number of workers whose reference to `key` is counted. -/
def users (workers : List IdentityCall) (key : CacheKey) : Nat :=
  (workers.map fun w => if w.counts key then 1 else 0).sum

structure Counted (s : IdentityCalls) : Prop where
  count : ∀ key, s.sup.refCount key = users s.workers key
  /-- while a last release is in progress its key is not referenced -/
  released : ∀ key, .releasing key ∈ s.workers → s.sup.refCount key = 0
  present : ∀ key, 0 < s.sup.refCount key → (s.sup.fetchIndex key).isSome = true
  absent : ∀ key, s.sup.refCount key = 0 → (s.sup.fetchIndex key).isSome = true →
    .releasing key ∈ s.workers
  held : ∀ key ref, .holding key ref ∈ s.workers → s.sup.fetchIndex key = some ref
  noPanic : ∀ key, .panicked key ∉ s.workers

lemma counted_init (n : Nat) : Counted (init n) := by
  have hidle : ∀ w ∈ (init n).workers, w = .idle := fun w hw => (mem_replicate.1 hw).2
  have husers : ∀ key, users (init n).workers key = 0 := by
    intro key
    refine sum_eq_zero fun x hx => ?_
    obtain ⟨w, hw, rfl⟩ := mem_map.1 hx
    rw [hidle w hw]
    rfl
  refine ⟨fun key => (husers key).symm, fun key _ => rfl, fun key h => ?_, fun key _ h => ?_,
    fun key _ hw => ?_, fun _ hw => ?_⟩
  · exact absurd h (Nat.lt_irrefl 0)
  · cases h
  · cases hidle _ hw
  · cases hidle _ hw

section Moves

variable {s : IdentityCalls} {i : Nat} {w : IdentityCall}

/-- The workers after worker `i` has moved from `w` to `w'`. -/
lemma workers_set (hw : s.workers[i]? = some w) (w' : IdentityCall) :
    (∀ key, users (s.workers.set i w') key + (if w.counts key then 1 else 0)
      = users s.workers key + if w'.counts key then 1 else 0) ∧
    (∀ x ∈ s.workers.set i w', x = w' ∨ x ∈ s.workers) ∧
    (∀ x ∈ s.workers, x ≠ w → x ∈ s.workers.set i w') ∧ w' ∈ s.workers.set i w' :=
  ⟨fun key => sum_map_set (fun w => if w.counts key then 1 else 0) hw,
    fun _ hx => (List.mem_or_eq_of_mem_set hx).symm,
    fun _ hx hne => mem_set_of_mem_of_ne hx hw hne,
    List.mem_set (List.getElem?_eq_some_iff.1 hw).1 _⟩

variable (h : Counted s)
include h

lemma Counted.refCount_pos (hw : w ∈ s.workers) (hcounts : w.counts key = true) :
    0 < s.sup.refCount key := by
  have hmem : 1 ∈ s.workers.map fun w => if w.counts key then 1 else 0 :=
    mem_map.2 ⟨w, hw, if_pos hcounts⟩
  rw [h.count]
  exact le_sum_of_mem hmem

/-- The first section of an acquisition, while nobody has still to remove the index. -/
lemma Counted.acquire (hw : s.workers[i]? = some .idle) (hfree : .releasing key ∉ s.workers) :
    Counted ⟨s.sup.countReference key, s.workers.set i (.acquiring key)⟩ := by
  obtain ⟨husers, hmem, hstay, -⟩ := workers_set hw (.acquiring key)
  have hcount := s.sup.refCount_countReference key
  have hfetch := s.sup.fetchIndex_countReference key
  -- the key of a holder is counted, so its index is not replaced
  have hpos : ∀ k ref, .holding k ref ∈ s.workers → 0 < s.sup.refCount k :=
    fun _ _ hk => h.refCount_pos hk (decide_eq_true rfl)
  cases h
  constructor
  · grind [IdentityCall.counts]
  all_goals grind

/-- The lookup of an acquisition finds the index. -/
lemma Counted.fetchIndex (hw : s.workers[i]? = some (.acquiring key)) :
    ∃ ref, s.sup.fetchIndex key = some ref :=
  Option.isSome_iff_exists.1
    (h.present key (h.refCount_pos (mem_of_getElem? hw) (decide_eq_true rfl)))

lemma Counted.fetch (hw : s.workers[i]? = some (.acquiring key))
    (href : s.sup.fetchIndex key = some ref) :
    Counted ⟨s.sup, s.workers.set i (.holding key ref)⟩ := by
  obtain ⟨_, _, _, -⟩ := workers_set hw (.holding key ref)
  cases h
  constructor
  · grind [IdentityCall.counts]
  all_goals grind

/-- The worker is idle afterwards, or it has the index to remove. -/
lemma Counted.release {ref : IndexRef} (hw : s.workers[i]? = some (.holding key ref)) :
    Counted ⟨(s.sup.dropReference key).1, s.workers.set i
      (if (s.sup.dropReference key).2 then .releasing key else .idle)⟩ := by
  have hpos : 0 < s.sup.refCount key := h.refCount_pos (mem_of_getElem? hw) (decide_eq_true rfl)
  rw [last_dropReference hpos]
  obtain ⟨_, _, _, _⟩ := workers_set hw
    (if decide (s.sup.refCount key = 1) = true then .releasing key else .idle)
  have hcount := refCount_dropReference hpos
  have hfetch := s.sup.fetchIndex_dropReference key
  cases h
  constructor
  · grind [IdentityCall.counts]
  all_goals grind

lemma Counted.remove (hw : s.workers[i]? = some (.releasing key)) :
    Counted ⟨s.sup.removeIndex key, s.workers.set i .idle⟩ := by
  obtain ⟨husers, hmem, hstay, -⟩ := workers_set hw .idle
  have hcount : ∀ k, (s.sup.removeIndex key).refCount k = s.sup.refCount k := fun _ => rfl
  have hfetch := s.sup.fetchIndex_removeIndex key
  have hpos : ∀ k ref, .holding k ref ∈ s.workers → 0 < s.sup.refCount k :=
    fun _ _ hk => h.refCount_pos hk (decide_eq_true rfl)
  cases h
  constructor
  · grind [IdentityCall.counts]
  all_goals grind

end Moves

lemma Counted.step (h : Counted s) (e) (hsettled : s.acquiresSettled e = true) :
    Counted (s.step e) := by
  cases e with
  | acquire =>
    simp only [IdentityCalls.step]
    split
    · rename_i hw
      exact h.acquire hw (of_decide_eq_true hsettled)
    · exact h
  | fetch =>
    simp only [IdentityCalls.step]
    split
    · rename_i hw
      obtain ⟨_, href⟩ := h.fetchIndex hw
      rw [href]
      exact h.fetch hw href
    · exact h
  | release =>
    simp only [IdentityCalls.step]
    split
    · rename_i hw
      exact h.release hw
    · exact h
  | remove =>
    simp only [IdentityCalls.step]
    split
    · rename_i hw
      exact h.remove hw
    · exact h

lemma Counted.refCounted (h : Counted s) : RefCounted s where
  noPanic := h.noPanic
  indexed := by
    intro hsettled key
    refine ⟨fun hsome => Nat.pos_of_ne_zero fun hzero => ?_, h.present key⟩
    cases hsettled _ (h.absent key hzero hsome)
  shared := by
    intro key ref ref' hr hr'
    have := (h.held key ref hr).symm.trans (h.held key ref' hr')
    exact Option.some.inj this

/-- Along every interleaving in which no reference to a key is counted between the
two sections of a last release of it, the reference counting is right. -/
theorem refCounted_of_settled (n : Nat) (es : List IdentityEvent)
    (hrun : guardedRun step acquiresSettled (init n) es = true) : RefCounted (run n es) :=
  Counted.refCounted (foldl_guarded (fun _ e he h => h.step e he) es (init n) hrun (counted_init n))

/-- Two workers share an identity, release it one after the other, and it is
acquired again once the index is gone. -/
theorem refCounted_after_reacquisition : let key : CacheKey := ⟨"m", .sha256, 16⟩
    let es : List IdentityEvent := [.acquire 0 key, .acquire 1 key, .fetch 0, .fetch 1,
      .release 0, .release 1, .remove 1, .acquire 0 key, .fetch 0]
    guardedRun step acquiresSettled (init 2) es = true ∧ RefCounted (run 2 es) :=
  ⟨by decide +kernel, refCounted_of_settled 2 _ (by decide +kernel)⟩

/-- The first acquisition of a key overtakes the removal of its last release: the
index it has just created is removed, and its lookup panics. -/
theorem acquisition_overtaking_removal_panics : let key : CacheKey := ⟨"m", .sha256, 16⟩
    let s := run 2 [.acquire 0 key, .fetch 0, .release 0, .acquire 1 key, .remove 0, .fetch 1]
    s.workers = [.idle, .panicked key] ∧ s.sup.refCount key = 1 ∧ s.sup.fetchIndex key = none := by
  decide +kernel

end IdentityCalls

end VllmRouter.KvIndex
