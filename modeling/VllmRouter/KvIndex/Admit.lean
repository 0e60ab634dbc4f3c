import VllmRouter.KvIndex.LogReplay

/-!
# Local hashes and device admission (`kv_index/mod.rs`, `kv_index/admit.rs`)

A block is known by the digest of its adapter name and its tokens, and an event
pairs the engine's hashes with these digests. The name is written before the
tokens without its length; the pairing stops at the shorter list.

- `local_hashes_separate`: under one adapter name, and for chunks of one length,
  digests differ unless name and tokens agree. Chunks of different lengths can
  collide under different names.
- `device_batch_stored_whole`: in a batch that `validateDeviceBatch` accepts the
  two lists have one length, and no token is left over.
-/

namespace VllmRouter.KvIndex

open List

/-! ## Local hashes -/

lemma toLeBytes_inj (h : toLeBytes a = toLeBytes b) : a = b := by
  simp only [toLeBytes, cons.injEq, ← UInt8.toNat_inj] at h
  have ha := a.toNat_lt
  have hb := b.toNat_lt
  refine UInt32.toNat_inj.1 ?_
  simp at h
  omega

lemma flatMap_toLeBytes_inj : ∀ {bs : List UInt32},
    as.flatMap toLeBytes = bs.flatMap toLeBytes → as = bs := by
  induction as with
  | nil =>
    intro bs h
    cases bs with
    | nil => rfl
    | cons => simp [toLeBytes] at h
  | cons a as ih =>
    intro bs h
    cases bs with
    | nil => simp [toLeBytes] at h
    | cons =>
      obtain ⟨hhead, htail⟩ := append_inj h rfl
      rw [toLeBytes_inj hhead, ih htail]

/-- The bytes of an adapter name; no name and the empty name have none. -/
def nameBytes (name : Option String) : List UInt8 := (name.getD "").toUTF8.data.toList

lemma nameBytes_inj (h : nameBytes a = nameBytes b) : a.getD "" = b.getD "" :=
  String.toByteArray_inj.1 (ByteArray.ext (Array.toList_inj.1 h))

lemma getElem?_localBlockHashes {blockSize i : Nat} {digest : List UInt8}
    (h : (localBlockHashes sha256 tokens blockSize name)[i]? = some digest) :
    ∃ chunk, (chunks blockSize tokens)[i]? = some chunk ∧
      digest = sha256 (nameBytes name ++ chunk.flatMap toLeBytes) := by
  unfold localBlockHashes at h
  split at h
  · cases h
  rw [getElem?_map] at h
  obtain ⟨chunk, hchunk, rfl⟩ := Option.map_eq_some_iff.1 h
  refine ⟨chunk, hchunk, ?_⟩
  cases name with
  | none
  | some => rfl

/-- **Local hashes separate adapters and tokens** of chunks with one name or one
length, where the empty name counts as none. -/
theorem local_hashes_separate {sha256 : List UInt8 → List UInt8} (hsha : Function.Injective sha256)
    {blockSize i j : Nat} {tokens₁ tokens₂ : List UInt32} {name₁ name₂ : Option String}
    {digest : List UInt8} (h₁ : (localBlockHashes sha256 tokens₁ blockSize name₁)[i]? = some digest)
    (h₂ : (localBlockHashes sha256 tokens₂ blockSize name₂)[j]? = some digest) :
    ∃ chunk₁ chunk₂, (chunks blockSize tokens₁)[i]? = some chunk₁ ∧
      (chunks blockSize tokens₂)[j]? = some chunk₂ ∧
      (name₁.getD "" = name₂.getD "" ∨ chunk₁.length = chunk₂.length →
        name₁.getD "" = name₂.getD "" ∧ chunk₁ = chunk₂) := by
  obtain ⟨chunk₁, hchunk1, heq1⟩ := getElem?_localBlockHashes h₁
  obtain ⟨chunk₂, hchunk2, heq2⟩ := getElem?_localBlockHashes h₂
  have hbytes := hsha (heq1.symm.trans heq2)
  refine ⟨chunk₁, chunk₂, hchunk1, hchunk2, fun hsame => ?_⟩
  rcases hsame with hname | hlen
  · unfold nameBytes at hbytes
    rw [hname] at hbytes
    exact ⟨hname, flatMap_toLeBytes_inj (append_cancel_left hbytes)⟩
  have hwidth : ∀ ts : List UInt32, (ts.flatMap toLeBytes).length = 4 * ts.length := by
    intro ts
    induction ts with
    | nil => rfl
    | cons t ts ih =>
      rw [flatMap_cons, length_append, ih, Nat.add_comm]
      rfl
  obtain ⟨hname, hchunk⟩ := append_inj' hbytes (by rw [hwidth, hwidth, hlen])
  exact ⟨nameBytes_inj hname, flatMap_toLeBytes_inj hchunk⟩

theorem local_hashes_separate_partial : ∃ chunk₁ chunk₂ : List UInt32,
    (chunks 2 [(1 : UInt32), 2, 3])[1]? = some chunk₁ ∧ (chunks 2 [(3 : UInt32)])[0]? = some
      chunk₂ ∧
      ((some "a").getD "" = (some "a").getD "" ∨ chunk₁.length = chunk₂.length →
        (some "a").getD "" = (some "a").getD "" ∧ chunk₁ = chunk₂) := by
  have h₁ : (localBlockHashes id [1, 2, 3] 2 (some "a"))[1]? = some [97, 3, 0, 0, 0] := by
    decide +kernel
  have h₂ : (localBlockHashes id [3] 2 (some "a"))[0]? = some [97, 3, 0, 0, 0] := by
    decide +kernel
  exact local_hashes_separate (fun _ _ h => h) h₁ h₂

/-- A name of four bytes reads like a token: the partial block of an adapter and a
full block without one have the same preimage, here with the identity for the hash. -/
theorem adapter_name_reads_as_token : localBlockHashes id [5] 2 (some "abcd")
    = localBlockHashes id [1684234849, 5] 2 none := rfl

/-! ## Admission -/

/-- A stored event with the fields that only admission reads. `V` is the type of
the opaque extra keys. -/
structure DeviceStored (V : Type) extends BlockStored where
  extraKeys : Option (List V)
  loraId : Option Int
  kvCacheSpecKind : Option String
  kvCacheSpecSlidingWindow : Option Nat
  locality : Option String
  sessionId : Option String

structure DeviceRemoved extends BlockRemoved where
  locality : Option String

inductive DeviceEvent (V : Type) where
  | blockStored (s : DeviceStored V)
  | blockRemoved (r : DeviceRemoved)
  | allBlocksCleared

variable {V : Type}

def DeviceEvent.toKVEvent : DeviceEvent V → KVEvent
  | .blockStored s => .blockStored s.toBlockStored
  | .blockRemoved r => .blockRemoved r.toBlockRemoved
  | .allBlocksCleared => .allBlocksCleared

def validateHash : ExternalBlockHash → Except String Unit
  | .bytes b => if b.length = 32 then .ok () else .error "KV hash must be 32-byte sha256_cbor bytes"
  | .int _ => .error "KV hash must be 32-byte sha256_cbor bytes"

/-- The product is checked for overflow. -/
def normalDenseShape (event : BlockStored) (expectedBlockSize : Nat) : Bool :=
  let product := event.blockHashes.length * expectedBlockSize
  event.blockSize = expectedBlockSize && product < 2 ^ 64 && product = event.tokenIds.length

def noUnsupportedExtensions (isNil : V → Bool) (event : DeviceStored V) : Bool :=
  event.loraId.isNone && event.loraName.isNone &&
    event.extraKeys.all (fun keys => keys.length = event.blockHashes.length && keys.all isNil) &&
    event.kvCacheSpecKind.all (· = "full_attention") && event.kvCacheSpecSlidingWindow.isNone &&
    event.sessionId.isNone

def validatePlacement (hashes : List ExternalBlockHash) (medium : Option String)
    (group : Option Nat) (locality ownership : Option String) : Except String Unit :=
  if medium ≠ some "GPU" ∨ group.any (· ≠ 0) ∨ locality.any (· ≠ "LOCAL") ∨ ownership.isSome then
    .error "event is outside the GPU group-0 local ownership contract"
  else if hashes.isEmpty then .error "KV event hashes cannot be empty"
  else hashes.forM validateHash

def validateDeviceEvent (isNil : V → Bool) (expectedBlockSize : Nat) :
    DeviceEvent V → Except String Unit
  | .allBlocksCleared => .ok ()
  | .blockRemoved r => validatePlacement r.blockHashes r.medium r.groupIdx r.locality r.ownership
  | .blockStored s =>
    if !normalDenseShape s.toBlockStored expectedBlockSize || !noUnsupportedExtensions isNil s then
      .error "stored event is outside the normal-dense complete-block contract"
    else do
      s.parentBlockHash.forM validateHash
      validatePlacement s.blockHashes s.medium s.groupIdx s.locality s.ownership

def validateDeviceBatch (isNil : V → Bool) (events : List (DeviceEvent V))
    (expectedBlockSize : Nat) : Except String Unit :=
  if expectedBlockSize = 0 then .error "expected KV block size must be nonzero"
  else events.forM (validateDeviceEvent isNil expectedBlockSize)

lemma of_forM_ok {α : Type} {f : α → Except String Unit} {xs : List α} (h : xs.forM f = .ok ())
    {x : α} (hx : x ∈ xs) : f x = .ok () := by
  induction xs with
  | nil => cases hx
  | cons y ys ih =>
    cases hy : f y with
    | error => simp [forM_cons, hy, bind, Except.bind] at h
    | ok =>
      simp only [forM_eq_forM, forM_cons, hy] at h
      rcases mem_cons.1 hx with rfl | hx
      · exact hy
      · exact ih h hx

/-- The `i`-th group of `n` elements. -/
def groupAt {α : Type} (n : Nat) (xs : List α) (i : Nat) : List α := (xs.drop (i * n)).take n

lemma flatMap_groupAt {α : Type} (n m : Nat) (xs : List α) :
    (range m).flatMap (groupAt n xs) = xs.take (m * n) := by
  induction m with
  | zero => simp
  | succ m ih =>
    rw [range_succ, flatMap_append, ih, Nat.succ_mul, take_add]
    simp [groupAt]

/-- **Device batches are applied without loss.** In an accepted batch, each stored
event becomes one `store` of as many pairs as it has hashes. The `i`-th digest is
that of the `i`-th group of tokens, every group is full, and together they are all
tokens. -/
theorem device_batch_stored_whole {isNil : V → Bool} {events : List (DeviceEvent V)}
    {expectedBlockSize : Nat} (h : validateDeviceBatch isNil events expectedBlockSize = .ok ())
    (codec : Codec) (source : SourceId) (dpRank incarnation : Nat) (rank : Option Nat) {k : Nat}
    {s : DeviceStored V} (hs : events[k]? = some (.blockStored s)) :
    ∃ owner tier, (batchCalls codec source dpRank incarnation
        ⟨events.map DeviceEvent.toKVEvent, rank⟩)[k]? = some (.store (s.groupIdx.getD 0) owner tier
          (s.parentBlockHash.map hashStr) ((s.blockHashes.map hashStr).zip
            ((range s.blockHashes.length).map fun i =>
              hex (codec.sha256 ((groupAt s.blockSize s.tokenIds i).flatMap toLeBytes))))) ∧
      (∀ i < s.blockHashes.length, (groupAt s.blockSize s.tokenIds i).length = s.blockSize) ∧
      (range s.blockHashes.length).flatMap (groupAt s.blockSize s.tokenIds) = s.tokenIds := by
  unfold validateDeviceBatch at h
  split at h
  · cases h
  rename_i hpos
  have hevent := of_forM_ok h (mem_of_getElem? hs)
  simp only [validateDeviceEvent] at hevent
  split at hevent
  · cases hevent
  rename_i hshape
  simp only [Bool.or_eq_true, Bool.not_eq_true', not_or, Bool.not_eq_false, normalDenseShape,
    noUnsupportedExtensions, Bool.and_eq_true, decide_eq_true_eq, Option.isNone_iff_eq_none]
    at hshape
  obtain ⟨⟨⟨hsize, -⟩, hprod⟩, hext⟩ := hshape
  have hname := hext.1.1.1.1.2
  rw [← hsize] at hpos hprod
  refine ⟨eventOwner source (rank.getD dpRank) incarnation s.ownership,
    eventTier (eventOwner source (rank.getD dpRank) incarnation s.ownership) s.medium, ?_,
    fun i hi => ?_, ?_⟩
  · have hcount : (s.tokenIds.length + s.blockSize - 1) / s.blockSize = s.blockHashes.length := by
      rw [← hprod, Nat.add_sub_assoc (by omega), Nat.mul_comm, Nat.mul_add_div (by omega),
        Nat.div_eq_of_lt (by omega), Nat.add_zero]
    simp only [batchCalls, map_map, getElem?_map, hs, Option.map_some, Function.comp,
      DeviceEvent.toKVEvent, eventCall, localBlockHashes, if_neg hpos, hname, chunks, hcount]
    rfl
  · -- the group ends before the tokens do
    have hle : (i + 1) * s.blockSize ≤ s.blockHashes.length * s.blockSize :=
      Nat.mul_le_mul_right _ hi
    rw [Nat.succ_mul] at hle
    simp only [groupAt, length_take, length_drop]
    omega
  · rw [flatMap_groupAt, hprod, take_length]

/-- Two blocks of two tokens. -/
def pairEvent : DeviceStored Unit where
  blockHashes := [.bytes (replicate 32 7), .bytes (replicate 32 8)]
  parentBlockHash := none
  tokenIds := [1, 2, 3, 4]
  blockSize := 2
  medium := some "GPU"
  loraName := none
  groupIdx := none
  ownership := none
  extraKeys := some [(), ()]
  loraId := none
  kvCacheSpecKind := none
  kvCacheSpecSlidingWindow := none
  locality := none
  sessionId := none

theorem device_batch_stored_whole_pair : ∃ owner tier,
    (batchCalls ⟨fun _ => none, id⟩ "w" 0 0 ⟨[.blockStored pairEvent.toBlockStored], none⟩)[0]?
      = some (.store 0 owner tier none
        [(hashStr (.bytes (replicate 32 7)), hex [1, 0, 0, 0, 2, 0, 0, 0]),
          (hashStr (.bytes (replicate 32 8)), hex [3, 0, 0, 0, 4, 0, 0, 0])]) := by
  have hvalid : validateDeviceBatch (fun _ => true) [.blockStored pairEvent] 2 = .ok () := by decide
  obtain ⟨owner, tier, hcall, -⟩ := device_batch_stored_whole hvalid ⟨fun _ => none, id⟩ "w" 0 0
    none
    (k := 0) rfl
  exact ⟨owner, tier, hcall⟩

end VllmRouter.KvIndex
