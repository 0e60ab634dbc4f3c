import VllmRouter.KvIndex.Indexer

/-!
# The event subscriber (`kv_index/subscriber.rs`, `kv_index/wire.rs`)

One task per `(worker, rank)` receives event batches on a SUB socket, repairs
gaps through a replay socket, and applies the batches to the shared index. The
task is cut at its await points: `receive` handles what the SUB socket
returned, `replayReceive` handles one poll of the replay socket, and between
the two any other task may use the index.

The message decoder and the digest are third-party code and stay parameters
(`Codec`). Of the events, the fields that ingestion reads are kept.
-/

namespace VllmRouter.KvIndex

/-! ## Wire types -/

/-- Engine-emitted block hash. -/
inductive ExternalBlockHash where
  | bytes (b : List UInt8)
  | int (i : Nat)
deriving DecidableEq, Repr

structure BlockStored where
  blockHashes : List ExternalBlockHash
  parentBlockHash : Option ExternalBlockHash
  tokenIds : List UInt32
  blockSize : Nat
  medium : Option String
  loraName : Option String
  groupIdx : Option Nat
  ownership : Option String
deriving DecidableEq, Repr

structure BlockRemoved where
  blockHashes : List ExternalBlockHash
  medium : Option String
  groupIdx : Option Nat
  ownership : Option String
deriving DecidableEq, Repr

/-- A KV cache event. -/
inductive KVEvent where
  | blockStored (s : BlockStored)
  | blockRemoved (r : BlockRemoved)
  | allBlocksCleared
deriving DecidableEq, Repr

/-- A batch of events with the optional rank of its publisher. -/
structure KVEventBatch where
  events : List KVEvent
  dataParallelRank : Option Nat
deriving DecidableEq, Repr

/-- The third-party code the subscriber calls: MessagePack decoding of a batch
and the SHA-256 digest. -/
structure Codec where
  fromSlice : List UInt8 → Option KVEventBatch
  sha256 : List UInt8 → List UInt8

/-- Raw signals ingestion emits. -/
inductive IngestionSignal where
  | advance (source : SourceId) (lastSeq : Int)
  | gap (source : SourceId) (fromSeq toSeq : Int)
  | replayApplied (source : SourceId) (replaySeq : Int)
  | incarnationReset (source : SourceId) (incarnation : Nat)
deriving DecidableEq, Repr

/-! ## Hashes -/

def hexDigit (n : Nat) : Char := "0123456789abcdef".toList.getD n '0'

/-- Two lower-case digits a byte. -/
def hex (b : List UInt8) : String :=
  String.ofList (b.flatMap fun byte => [hexDigit (byte.toNat / 16), hexDigit (byte.toNat % 16)])

/-- The key of an engine hash; the tag keeps the two kinds apart. -/
def hashStr : ExternalBlockHash → Hash
  | .int i => "i:" ++ toString i
  | .bytes b => "b:" ++ hex b

/-- Consecutive chunks of `n` elements, the last one possibly shorter. -/
def chunks {α : Type} (n : Nat) (xs : List α) : List (List α) :=
  (List.range ((xs.length + n - 1) / n)).map fun i => (xs.drop (i * n)).take n

def toLeBytes (t : UInt32) : List UInt8 :=
  [t.toUInt8, (t >>> 8).toUInt8, (t >>> 16).toUInt8, (t >>> 24).toUInt8]

/-- Digest of each token block, seeded independently with the LoRA identity. -/
def localBlockHashes (sha256 : List UInt8 → List UInt8) (tokenIds : List UInt32)
    (blockSize : Nat) (loraName : Option String) : List (List UInt8) :=
  if blockSize = 0 then []
  else
    let seed := match loraName with
      | some name => name.toUTF8.data.toList
      | none => []
    (chunks blockSize tokenIds).map fun chunk => sha256 (seed ++ chunk.flatMap toLeBytes)

/-! ## Applying a batch -/

def ownerFor (source : SourceId) (dpRank incarnation : Nat) : ResidencyOwner :=
  .worker source dpRank incarnation

/-- The owner an event's blocks belong to: a pool when `ownership` names one. -/
def eventOwner (source : SourceId) (dpRank incarnation : Nat) (ownership : Option String) :
    ResidencyOwner :=
  match ownership with
  | some pool => if pool = "" then .worker source dpRank incarnation
      else .cacheOwner pool source dpRank
  | none => .worker source dpRank incarnation

/-- Tier from the owner domain. -/
def eventTier (owner : ResidencyOwner) (medium : Option String) : StorageTier :=
  match owner with
  | .cacheOwner .. => .external
  | .worker .. => StorageTier.fromMedium medium

/-- Apply one event of a batch whose rank is `rank`. -/
def applyEvent (codec : Codec) (source : SourceId) (rank incarnation : Nat)
    (idx : KvBlockIndexer) : KVEvent → Option KvBlockIndexer
  | .blockStored s =>
    let owner := eventOwner source rank incarnation s.ownership
    let locals := (localBlockHashes codec.sha256 s.tokenIds s.blockSize s.loraName).map hex
    idx.store (s.groupIdx.getD 0) owner (eventTier owner s.medium)
      (s.parentBlockHash.map hashStr) ((s.blockHashes.map hashStr).zip locals)
  | .blockRemoved r =>
    let owner := eventOwner source rank incarnation r.ownership
    idx.remove (r.groupIdx.getD 0) owner (eventTier owner r.medium) (r.blockHashes.map hashStr)
  | .allBlocksCleared => idx.clear (ownerFor source rank incarnation) .worker

def applyBatch (codec : Codec) (idx : KvBlockIndexer) (source : SourceId)
    (dpRank incarnation : Nat) (batch : KVEventBatch) : Option KvBlockIndexer :=
  batch.events.foldlM
    (applyEvent codec source (batch.dataParallelRank.getD dpRank) incarnation) idx

/-! ## The subscriber task -/

/-- A received multipart message. -/
abbrev Frames := List (List UInt8)

/-- The signed sentinel ending a replay stream. -/
def endSeq : Int := -1

/-- Big-endian signed 64-bit; a short input reads as the sentinel. -/
def readSeq (bytes : List UInt8) : Int :=
  if 8 ≤ bytes.length then
    let u : Nat := (bytes.take 8).foldl (fun acc b => acc * 256 + b.toNat) 0
    if u < 2 ^ 63 then (u : Int) else (u : Int) - 2 ^ 64
  else -1

/-- One event source for one `(worker, rank)`. -/
structure EventSource where
  source : SourceId
  dpRank : Nat
  replayEndpoint : Option String
deriving DecidableEq, Repr

/-- Where the task awaits: on the SUB socket, or on the replay socket for the
sequence numbers up to `through` with the live batch kept aside. -/
inductive Phase where
  | polling
  | replaying (high through : Int) (batch : Option KVEventBatch)
deriving DecidableEq, Repr

structure Task where
  lastSeq : Int
  incarnation : Nat
  suspended : Bool
  phase : Phase
deriving DecidableEq, Repr

def Task.init : Task := ⟨-1, 0, false, .polling⟩

/-- What a step of the task did. `invalidated` is a ghost: it records that the
step called `invalidateSource`. -/
structure Outcome where
  task : Task
  index : KvBlockIndexer
  signals : List IngestionSignal
  invalidated : Bool

/-- The result of polling the SUB socket. -/
inductive LiveRecv where
  | frames (fs : Frames)
  | eagain
  | error
deriving DecidableEq, Repr

/-- How far opening the replay socket gets. -/
inductive ReplayOpen where
  | socketError
  | connectError
  | sendError
  | opened
deriving DecidableEq, Repr

/-- The result of one round of the replay loop: the deadline has passed, or a
poll of the replay socket. -/
inductive ReplayRecv where
  | deadline
  | frames (fs : Frames)
  | eagain
  | error
deriving DecidableEq, Repr

/-- Decode a batch and keep it only if its rank is this subscriber's. -/
def decodeRanked (codec : Codec) (dpRank : Nat) (payload : List UInt8) :
    Option KVEventBatch :=
  (codec.fromSlice payload).filter fun batch =>
    match batch.dataParallelRank with
    | none => true
    | some rank => decide (rank = dpRank)

variable (codec : Codec) (src : EventSource) (task : Task) (idx : KvBlockIndexer) (seq : Int)
  (batch : Option KVEventBatch) (signals : List IngestionSignal)

/-- The end of a live iteration: apply the batch, if there is one, and resume
the source when it was suspended. -/
def finishLive (invalidated : Bool) : Option Outcome :=
  match batch with
  | none => some ⟨{ task with phase := .polling }, idx, signals, invalidated⟩
  | some batch => do
    let idx ← applyBatch codec idx src.source src.dpRank task.incarnation batch
    let idx := if task.suspended then idx.resumeSource src.source src.dpRank else idx
    some ⟨{ task with lastSeq := seq, suspended := false, phase := .polling }, idx,
      signals ++ [.advance src.source seq], invalidated⟩

/-- A gap that replay did not repair: discard the source, then go on with the
live batch on the clean source. -/
def replayFailed :
    Option Outcome := do
  let idx ← idx.invalidateSource src.source src.dpRank
  finishLive codec src task idx seq batch signals true

/-- A message without a well-formed sequence frame discards the source. -/
def malformed (src : EventSource) (task : Task) (idx : KvBlockIndexer) : Option Outcome := do
  let idx ← idx.invalidateSource src.source src.dpRank
  some ⟨{ task with suspended := true }, idx, [], true⟩

/-- The sequence number and payload of a live message `[topic, seq, payload]`. -/
def liveFrame (frames : Frames) : Option (Int × List UInt8) :=
  match frames with
  | _topic :: seqFrame :: payload :: _ =>
    if seqFrame.length ≠ 8 then none else some (readSeq seqFrame, payload)
  | _ => none

/-- The sequence number and payload of a replay message
`[empty, topic, seq, payload]`: the last two frames of at least four. -/
def replayFrame (frames : Frames) : Option (Int × List UInt8) :=
  match frames.reverse with
  | payload :: seqFrame :: _ :: _ :: _ =>
    if seqFrame.length ≠ 8 then none else some (readSeq seqFrame, payload)
  | _ => none

/-- A live message after the restart check. -/
def receiveSeq (opening : ReplayOpen) (seq : Int) (payload : List UInt8)
    (signals : List IngestionSignal) (invalidated : Bool) : Option Outcome :=
  if seq ≤ task.lastSeq then some ⟨task, idx, signals, invalidated⟩
  else
    let batch := decodeRanked codec src.dpRank payload
    -- initial attachment to a running publisher is a gap too, and an
    -- undecodable event is a hole of one
    if task.lastSeq + 1 < seq ∨ batch = none then
      let toSeq := if batch = none then seq else seq - 1
      let signals := signals ++ [.gap src.source (task.lastSeq + 1) toSeq]
      let idx := idx.suspendSource src.source src.dpRank
      let task := { task with suspended := true }
      if src.replayEndpoint.isSome ∧ opening = .opened then
        some ⟨{ task with phase := .replaying task.lastSeq seq batch }, idx, signals,
          invalidated⟩
      else replayFailed codec src task idx seq batch signals
    else finishLive codec src task idx seq batch signals invalidated

/-- One iteration of the subscriber loop up to its replay. -/
def receive (opening : ReplayOpen) : LiveRecv → Option Outcome
  | .eagain => some ⟨task, idx, [], false⟩
  | .error => some ⟨task, idx, [], false⟩
  | .frames frames =>
    match liveFrame frames with
    | none => malformed src task idx
    | some (seq, payload) =>
      if seq = endSeq then some ⟨task, idx, [], false⟩
      else if task.lastSeq ≠ -1 ∧ seq < task.lastSeq then do
        let incarnation := task.incarnation + 1
        let idx ← idx.invalidateSource src.source src.dpRank
        let task := { task with
          lastSeq := -1, incarnation := incarnation, suspended := true }
        receiveSeq codec src task idx opening seq payload
          [.incarnationReset src.source incarnation] true
      else receiveSeq codec src task idx opening seq payload [] false

/-- One round of the replay loop. -/
def replayReceive (high through : Int) (batch : Option KVEventBatch) : ReplayRecv → Option Outcome
  | .deadline => replayFailed codec src task idx through batch []
  | .error => replayFailed codec src task idx through batch []
  | .eagain => some ⟨task, idx, [], false⟩
  | .frames frames =>
    match replayFrame frames with
    | none => replayFailed codec src task idx through batch []
    | some (seq, payload) =>
      if seq = endSeq then replayFailed codec src task idx through batch []
      else if seq ≤ high then some ⟨task, idx, [], false⟩
      else if seq ≠ high + 1 then replayFailed codec src task idx through batch []
      else
        match decodeRanked codec src.dpRank payload with
        | none => replayFailed codec src task idx through batch []
        | some replayed => do
          let idx ← applyBatch codec idx src.source src.dpRank task.incarnation replayed
          if through ≤ seq then
            some ⟨{ task with lastSeq := seq, suspended := false, phase := .polling },
              idx.resumeSource src.source src.dpRank,
              [.advance src.source seq, .replayApplied src.source seq], false⟩
          else
            some ⟨{ task with phase := .replaying seq through batch }, idx,
              [.advance src.source seq], false⟩

end VllmRouter.KvIndex
