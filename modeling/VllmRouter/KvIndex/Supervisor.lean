import VllmRouter.KvIndex.Actions

/-!
# The index supervisor (`kv_index/discovery.rs`)

The supervisor keeps one index per cache identity and one subscriber task per
`(worker, rank)`. Adding a worker acquires the index of its identity and spawns
its tasks; removing it signals the tasks, clears the worker's claims rank by
rank and releases the identity. A signalled task stops at the next head of its
loop, so it may still be in the middle of a batch, or of a replay, while the
removal goes on.

The machine interleaves all of this: a task performs its plan one index action
at a time (`act`), a removal clears one rank at a time (`removeClear`), and the
answers of the worker, of the sockets and of the replay are events. Between its
await points an addition is one step, and so are the signals of a removal: no
task reads what the supervisor writes in between.

What discovery answers is part of the event, the HTTP and gRPC clients and the
URL parser are parameters. Logging and the block size warning are left out.
-/

namespace VllmRouter.KvIndex

open Option List

/-! ## What a worker says about itself -/

/-- Engine block-hash mode, fixed by the router's configuration. -/
inductive HashMode where
  | pythonHashSeed
  | sha256
  | xxhashCbor
deriving DecidableEq, Repr

/-- The worker-stable core of a cache identity. -/
structure CacheKey where
  model : String
  hashMode : HashMode
  blockSize : Nat
deriving DecidableEq, Repr

/-- One per-rank entry of `/kv_event_sources`. -/
structure KvEventSourceEntry where
  endpoint : String
  replayEndpoint : Option String
  publisher : Option String
  encoding : Option String
  schemaVersion : Option Nat
  enableKvCacheEvents : Option Bool
deriving DecidableEq, Repr

structure ServerInfo where
  instanceId : Option String
  kvBlockSize : Option Nat
  effectiveAttentionBlockSize : Option Nat
deriving DecidableEq, Repr

/-- The answers of a worker. A failed request is `none`; of the sources, the
list is the order in which the map is walked. -/
structure WorkerDiscovery where
  serverInfo : Option ServerInfo
  sources : Option (List (String × KvEventSourceEntry))
  modelId : Option (Option String)
deriving DecidableEq, Repr

/-- What `on_worker_added` learned and spawned. -/
structure WorkerKvInfo where
  instanceId : String
  blockSize : Option Nat
  ranks : List Nat
  cacheKey : Option CacheKey
deriving DecidableEq, Repr

/-- `char::is_whitespace`. -/
def isWhitespace (c : Char) : Bool :=
  let n := c.toNat
  (9 ≤ n && n ≤ 13) || n == 0x20 || n == 0x85 || n == 0xA0 || n == 0x1680 ||
    (0x2000 ≤ n && n ≤ 0x200A) || n == 0x2028 || n == 0x2029 || n == 0x202F || n == 0x205F ||
    n == 0x3000

/-- `s.trim().is_empty()`. -/
def isBlank (s : String) : Bool := s.toList.all isWhitespace

/-- `str::parse::<u32>`: decimal digits after an optional plus sign. -/
def parseU32 (s : String) : Option Nat :=
  let digits := match s.toList with
    | '+' :: rest => rest
    | cs => cs
  if digits = [] ∨ digits.any (fun c => !c.isDigit) then none
  else
    let n := digits.foldl (fun n c => n * 10 + (c.toNat - '0'.toNat)) 0
    if n < 2 ^ 32 then some n else none

/-- A rank emits events only for the one wire format the subscriber decodes. -/
def eventsEnabled (entry : KvEventSourceEntry) : Bool :=
  if entry.publisher ≠ some "zmq" ∨ entry.encoding ≠ some "msgpack" ∨
      entry.schemaVersion ≠ some 1 then false
  else if entry.enableKvCacheEvents = some false then false
  else entry.endpoint ≠ ""

/-- Rewrite a bind address's host (`*` or `0.0.0.0`) to `workerHost`. -/
def resolveEndpoint (endpoint workerHost : String) : String :=
  let scheme := "tcp://".toList
  if scheme.isPrefixOf endpoint.toList then
    let rest := endpoint.toList.drop scheme.length
    let host := rest.takeWhile (· ≠ ':')
    if host.length < rest.length ∧ (host = "*".toList ∨ host = "0.0.0.0".toList) then
      "tcp://" ++ workerHost ++ ":" ++ String.ofList (rest.drop (host.length + 1))
    else endpoint
  else endpoint

def discoveredBlockSize (info : ServerInfo) : Option Nat :=
  match info.kvBlockSize.filter (0 < ·) with
  | some size => some size
  | none => info.effectiveAttentionBlockSize.filter (0 < ·)

/-- The instance id, or the URL when the worker has none. -/
def instanceIdOf (url : String) (info : ServerInfo) : String :=
  (info.instanceId.filter (· ≠ "")).getD url

/-! ## The supervisor's state -/

/-- An index on the heap: the supervisor and the tasks share it by reference. -/
abbrev IndexRef := Nat

/-- Per-worker subscriber state; a handle is the position of its task. -/
structure WorkerSubs where
  key : CacheKey
  sourceId : SourceId
  ranks : List Nat
  indexer : IndexRef
  handles : List Nat
deriving DecidableEq, Repr

/-- A subscriber task. `pending` are the index actions of the iteration it is
in, `polled` says that it has passed the shutdown check of this iteration. -/
structure Subscriber where
  src : EventSource
  indexer : IndexRef
  task : Task
  pending : List TaskAction
  connected : Bool
  polled : Bool
  signalled : Bool
  stopped : Bool

namespace Subscriber

def spawn (indexer : IndexRef) (src : EventSource) : Subscriber :=
  ⟨src, indexer, Task.init, [], false, false, false, false⟩

/-- Begin an iteration: the variables other than `suspended` are not seen by
anyone else, so they take their final values at once. -/
def begin (t : Subscriber) (plan : Plan) : Subscriber :=
  { t with
    task := { plan.task with suspended := t.task.suspended }
    pending := plan.actions
    polled := false }

/-- After the action `a`, with `rest` still to perform. -/
def performed (t : Subscriber) (a : TaskAction) (rest : List TaskAction) : Subscriber :=
  { t with
    pending := rest
    task := { t.task with suspended := a.flag t.task.suspended } }

def target (t : Subscriber) : RoutableTarget := ⟨t.src.source, t.src.dpRank⟩

end Subscriber

/-- A removal in progress, with the ranks it has still to clear. -/
structure Removal where
  subs : WorkerSubs
  left : List Nat
deriving DecidableEq, Repr

structure KvIndexSupervisor where
  indexes : List KvBlockIndexer
  indexers : Dict CacheKey IndexRef
  identityRefs : Dict CacheKey Nat
  workers : Dict String WorkerSubs
  tasks : List Subscriber
  removals : List Removal

/-- What the machine is given: the router's configuration and third-party code. -/
structure SupervisorEnv where
  codec : Codec
  hashMode : HashMode
  workerHost : String → Option String

namespace KvIndexSupervisor

def new : KvIndexSupervisor := ⟨[], ∅, ∅, ∅, [], []⟩

/-- Count a reference to the identity; the first one creates its index. -/
def acquireIdentity (s : KvIndexSupervisor) (key : CacheKey) :
    KvIndexSupervisor × Option IndexRef :=
  let count := (s.identityRefs.lookup key).getD 0
  let s := if count = 0 then
      { s with
        indexes := s.indexes ++ [KvBlockIndexer.new]
        indexers := s.indexers.insert key s.indexes.length }
    else s
  ({ s with identityRefs := s.identityRefs.insert key (count + 1) }, s.indexers.lookup key)

/-- Drop a reference; the last one drops the index. -/
def releaseIdentity (s : KvIndexSupervisor) (key : CacheKey) : KvIndexSupervisor :=
  match s.identityRefs.lookup key with
  | none => s
  | some count =>
    if count - 1 = 0 then
      { s with identityRefs := s.identityRefs.erase key, indexers := s.indexers.erase key }
    else { s with identityRefs := s.identityRefs.insert key (count - 1) }

/-- Signal the tasks of these handles, explicitly or by dropping the handles. -/
def signal (tasks : List Subscriber) (handles : List Nat) : List Subscriber :=
  tasks.mapIdx fun i t => if i ∈ handles then { t with signalled := true } else t

/-- The first part of `on_worker_removed`: take the entry, signal its tasks. -/
def beginRemoval (s : KvIndexSupervisor) (url : String) : KvIndexSupervisor :=
  match s.workers.lookup url with
  | none => s
  | some subs =>
    { s with
      workers := s.workers.erase url
      tasks := signal s.tasks subs.handles
      removals := s.removals ++ [⟨subs, subs.ranks⟩] }

/-- The event sources of a worker: one per rank that emits events. -/
def eventSources (env : SupervisorEnv) (url : String) (sourceId : SourceId)
    (sources : List (String × KvEventSourceEntry)) : List EventSource :=
  let host := (env.workerHost url).getD url
  sources.filterMap fun (rankStr, entry) =>
    if eventsEnabled entry then
      (parseU32 rankStr).map fun rank =>
        ⟨sourceId, rank, entry.replayEndpoint.map fun e => resolveEndpoint e host⟩
    else none

/-- Spawn the tasks of a worker on `ref` and track it. -/
def track (s : KvIndexSupervisor) (url : String) (key : CacheKey) (sourceId : SourceId)
    (ref : IndexRef) (sources : List EventSource) : KvIndexSupervisor :=
  let first := s.tasks.length
  let ranks := sources.map EventSource.dpRank
  let handles := (range sources.length).map (first + ·)
  -- an entry that is overwritten drops its handles
  let overwritten := ((s.workers.lookup url).map WorkerSubs.handles).getD []
  { s with
    tasks := signal (s.tasks ++ sources.map (Subscriber.spawn ref)) overwritten
    workers := s.workers.insert url ⟨key, sourceId, ranks, ref, handles⟩ }

/-- What discovery settles: the identity and the instance id of the worker, or
the early answer when it cannot be indexed. -/
def settle (env : SupervisorEnv) (url : String) (d : WorkerDiscovery) :
    WorkerKvInfo ⊕ (CacheKey × SourceId × List (String × KvEventSourceEntry)) :=
  let info := d.serverInfo.getD ⟨none, none, none⟩
  let instanceId := instanceIdOf url info
  let blockSize := discoveredBlockSize info
  let modelId := d.modelId.bind fun id => id.filter fun id => !isBlank id
  match d.sources with
  | none => .inl ⟨instanceId, blockSize, [], none⟩
  | some sources =>
    match blockSize with
    | none => .inl ⟨instanceId, none, [], none⟩
    | some size =>
      match modelId with
      | none => .inl ⟨instanceId, some size, [], none⟩
      | some model => .inr (⟨model, env.hashMode, size⟩, instanceId, sources)

/-- `on_worker_added` after discovery has answered. -/
def finishAdd (env : SupervisorEnv) (s : KvIndexSupervisor) (url : String)
    (d : WorkerDiscovery) : KvIndexSupervisor × Option WorkerKvInfo :=
  match settle env url d with
  | .inl info => (s, some info)
  | .inr (key, sourceId, entries) =>
    match s.acquireIdentity key with
    -- the index of a counted identity exists, or the source panics
    | (s, none) => (s, none)
    | (s, some ref) =>
      let sources := eventSources env url sourceId entries
      (s.track url key sourceId ref sources,
        some ⟨sourceId, some key.blockSize, sources.map EventSource.dpRank, some key⟩)

/-- Run an index action on the heap. -/
def onIndex (s : KvIndexSupervisor) (ref : IndexRef)
    (op : KvBlockIndexer → Option KvBlockIndexer) : Option KvIndexSupervisor := do
  let idx ← s.indexes[ref]?
  let idx ← op idx
  some { s with indexes := s.indexes.set ref idx }

end KvIndexSupervisor

/-! ## The machine -/

inductive SupervisorEvent where
  /-- `on_worker_added` is called: a tracked worker is torn down first -/
  | addBegin (url : String)
  /-- discovery has answered -/
  | addFinish (url : String) (d : WorkerDiscovery)
  | removeBegin (url : String)
  /-- the `i`-th removal in progress clears its next rank -/
  | removeClear (i : Nat)
  | removeFinish (i : Nat)
  /-- the sockets of task `i` are created, or not -/
  | connect (i : Nat) (ok : Bool)
  /-- task `i` checks for shutdown -/
  | check (i : Nat)
  | recv (i : Nat) (opening : ReplayOpen) (recv : LiveRecv)
  | replay (i : Nat) (recv : ReplayRecv)
  /-- task `i` performs its next index action -/
  | act (i : Nat)

namespace KvIndexSupervisor

variable (s : KvIndexSupervisor) (i : Nat)

def clearNext : KvIndexSupervisor :=
  match s.removals[i]? with
  | some ⟨subs, rank :: left⟩ =>
    match s.onIndex subs.indexer fun idx =>
      idx.call (.clear (.worker subs.sourceId rank 0) .worker) with
    | some s => { s with removals := s.removals.set i ⟨subs, left⟩ }
    | none => s
  | _ => s

def finishRemoval : KvIndexSupervisor :=
  match s.removals[i]? with
  | some ⟨subs, []⟩ =>
    let s := s.releaseIdentity subs.key
    { s with removals := s.removals.eraseIdx i }
  | _ => s

/-- A task that has stopped takes no step. -/
def onTask (f : Subscriber → KvIndexSupervisor) :
    KvIndexSupervisor :=
  match s.tasks[i]? with
  | some t => if t.stopped then s else f t
  | none => s

def connect (ok : Bool) : KvIndexSupervisor :=
  s.onTask i fun t =>
    if t.connected then s
    else if ok then { s with tasks := s.tasks.set i { t with connected := true } }
    else { s with tasks := s.tasks.set i { t with stopped := true } }

def check : KvIndexSupervisor :=
  s.onTask i fun t =>
    if t.connected && !t.polled && t.pending.isEmpty && decide (t.task.phase = .polling) then
      if t.signalled then { s with tasks := s.tasks.set i { t with stopped := true } }
      else { s with tasks := s.tasks.set i { t with polled := true } }
    else s

variable {s i}

def recv (env : SupervisorEnv) (s : KvIndexSupervisor) (i : Nat) (opening : ReplayOpen)
    (recv : LiveRecv) : KvIndexSupervisor :=
  s.onTask i fun t =>
    if t.polled && t.pending.isEmpty && decide (t.task.phase = .polling) then
      let plan := receivePlan env.codec t.src t.task opening recv
      { s with tasks := s.tasks.set i (t.begin plan) }
    else s

def replay (env : SupervisorEnv) (s : KvIndexSupervisor) (i : Nat) (recv : ReplayRecv) :
    KvIndexSupervisor :=
  s.onTask i fun t =>
    match t.pending, t.task.phase with
    | [], .replaying high through batch =>
      let plan := replayReceivePlan env.codec t.src t.task high through batch recv
      { s with tasks := s.tasks.set i (t.begin plan) }
    | _, _ => s

def act (s : KvIndexSupervisor) (i : Nat) : KvIndexSupervisor :=
  s.onTask i fun t =>
    match t.pending with
    | [] => s
    | a :: rest =>
      match s.onIndex t.indexer (a.perform t.src) with
      | none => s
      | some s => { s with tasks := s.tasks.set i (t.performed a rest) }

def step (env : SupervisorEnv) (s : KvIndexSupervisor) : SupervisorEvent → KvIndexSupervisor
  | .addBegin url => s.beginRemoval url
  | .addFinish url d => (s.finishAdd env url d).1
  | .removeBegin url => s.beginRemoval url
  | .removeClear i => s.clearNext i
  | .removeFinish i => s.finishRemoval i
  | .connect i ok => s.connect i ok
  | .check i => s.check i
  | .recv i opening r => s.recv env i opening r
  | .replay i r => s.replay env i r
  | .act i => s.act i

/-- The supervisor after a history. -/
def run (env : SupervisorEnv) (es : List SupervisorEvent) : KvIndexSupervisor :=
  es.foldl (step env) new

/-- A signalled task makes no index call: it performs no action of a plan, and
begins only iterations that have none. -/
def mutedGuard (env : SupervisorEnv) (s : KvIndexSupervisor) : SupervisorEvent → Bool
  | .recv i opening r =>
    match s.tasks[i]? with
    | some t => !t.signalled || (receivePlan env.codec t.src t.task opening r).actions.isEmpty
    | none => true
  | .replay i r =>
    match s.tasks[i]? with
    | some t =>
      match t.task.phase with
      | .replaying high through batch =>
        !t.signalled ||
          (replayReceivePlan env.codec t.src t.task high through batch r).actions.isEmpty
      | .polling => true
    | none => true
  | .act i =>
    match s.tasks[i]? with
    | some t => !t.signalled
    | none => true
  | _ => true

/-! ## Lists of tasks -/

section Tasks

variable {s s₁ : KvIndexSupervisor} {i j : Nat} {t u : Subscriber}

lemma getElem?_signal {tasks : List Subscriber} (h : (signal tasks handles)[j]? = some u) :
    ∃ t, tasks[j]? = some t ∧ u = if j ∈ handles then { t with signalled := true } else t := by
  unfold signal at h
  rw [getElem?_mapIdx] at h
  obtain ⟨t, ht, rfl⟩ := map_eq_some_iff.1 h
  exact ⟨t, ht, rfl⟩

lemma signal_nil (tasks) : signal tasks [] = tasks :=
  ext_getElem? fun j => by simp [signal, getElem?_mapIdx]

/-- Acquiring an identity may put a fresh index on the heap, and nothing else
that a task or a removal sees. -/
lemma acquireIdentity_spec (h : s.acquireIdentity key = (s₁, ref)) :
    s₁.workers = s.workers ∧ s₁.tasks = s.tasks ∧ s₁.removals = s.removals ∧
      (s₁.indexes = s.indexes ∨ s₁.indexes = s.indexes ++ [KvBlockIndexer.new]) := by
  obtain ⟨rfl, -⟩ := Prod.mk.inj h
  split_ifs with hcount
  · exact ⟨rfl, rfl, rfl, .inr rfl⟩
  · exact ⟨rfl, rfl, rfl, .inl rfl⟩

/-- The references of the identities are on the heap. -/
def Heaped (s : KvIndexSupervisor) : Prop :=
  ∀ key ref, s.indexers.lookup key = some ref → ref < s.indexes.length

lemma acquireIdentity_heaped (hheap : s.Heaped) (h : s.acquireIdentity key = (s₁, ref)) :
    s₁.Heaped ∧ ∀ r, ref = some r → r < s₁.indexes.length := by
  have hnew : s₁.Heaped := by
    obtain ⟨rfl, -⟩ := Prod.mk.inj h
    split_ifs with hcount
    · intro key' r hr
      rw [Dict.lookup_insert_eq] at hr
      rw [length_append]
      split_ifs at hr with hkey
      · obtain rfl := some.inj hr
        exact Nat.lt_succ_self _
      · exact Nat.lt_succ_of_lt (hheap key' r hr)
    · exact hheap
  refine ⟨hnew, fun r hr => hnew key r ?_⟩
  unfold acquireIdentity at h
  obtain ⟨rfl, hlook⟩ := Prod.mk.inj h
  exact hlook.trans hr

lemma releaseIdentity_heaped (hheap : s.Heaped) (key) :
    (s.releaseIdentity key).Heaped := by
  unfold releaseIdentity
  cases s.identityRefs.lookup key with
  | none => exact hheap
  | some =>
    simp only
    split_ifs with hlast
    · intro key' r hr
      rw [Dict.lookup_erase_eq] at hr
      split_ifs at hr with hkey
      exact hheap key' r hr
    · exact hheap

lemma releaseIdentity_spec (s : KvIndexSupervisor) (key) :
    (s.releaseIdentity key).workers = s.workers ∧ (s.releaseIdentity key).tasks = s.tasks ∧
      (s.releaseIdentity key).removals = s.removals ∧
      (s.releaseIdentity key).indexes = s.indexes := by
  unfold releaseIdentity
  cases s.identityRefs.lookup key with
  | none => exact ⟨rfl, rfl, rfl, rfl⟩
  | some =>
    simp only
    split_ifs with hlast
    · exact ⟨rfl, rfl, rfl, rfl⟩
    · exact ⟨rfl, rfl, rfl, rfl⟩

lemma eventSources_source (h : src ∈ eventSources env url sourceId entries) :
    src.source = sourceId := by
  obtain ⟨⟨_, _⟩, -, hsrc⟩ := mem_filterMap.1 h
  simp only at hsrc
  split_ifs at hsrc with hon
  obtain ⟨_, -, rfl⟩ := map_eq_some_iff.1 hsrc
  rfl

end Tasks

/-! ## What a step can do -/

/-- The effect of one event, one constructor per way it can change the state. -/
inductive Supervises (env : SupervisorEnv) (s : KvIndexSupervisor) :
    SupervisorEvent → KvIndexSupervisor → Prop
  | idle (e : SupervisorEvent) : Supervises env s e s
  | retire {e : SupervisorEvent} {url : String} {subs : WorkerSubs}
      (he : e = .addBegin url ∨ e = .removeBegin url)
      (hsubs : s.workers.lookup url = some subs) :
      Supervises env s e
        { s with
          workers := s.workers.erase url
          tasks := signal s.tasks subs.handles
          removals := s.removals ++ [⟨subs, subs.ranks⟩] }
  | acquire {url : String} {d : WorkerDiscovery} {key : CacheKey} {s₁ : KvIndexSupervisor}
      (hacq : s.acquireIdentity key = (s₁, none)) : Supervises env s (.addFinish url d) s₁
  | track {url : String} {d : WorkerDiscovery} {key : CacheKey} {sourceId : SourceId}
      {entries : List (String × KvEventSourceEntry)} {ref : IndexRef} {s₁ : KvIndexSupervisor}
      (hsettle : settle env url d = .inr (key, sourceId, entries))
      (hacq : s.acquireIdentity key = (s₁, some ref)) :
      Supervises env s (.addFinish url d)
        (s₁.track url key sourceId ref (eventSources env url sourceId entries))
  | clear {i : Nat} {subs : WorkerSubs} {rank : Nat} {left : List Nat}
      {idx idx' : KvBlockIndexer} (hrm : s.removals[i]? = some ⟨subs, rank :: left⟩)
      (hidx : s.indexes[subs.indexer]? = some idx)
      (hcall : idx.call (.clear (.worker subs.sourceId rank 0) .worker) = some idx') :
      Supervises env s (.removeClear i)
        { s with
          indexes := s.indexes.set subs.indexer idx'
          removals := s.removals.set i ⟨subs, left⟩ }
  | finish {i : Nat} {subs : WorkerSubs} (hrm : s.removals[i]? = some ⟨subs, []⟩) :
      Supervises env s (.removeFinish i)
        { s.releaseIdentity subs.key with removals := s.removals.eraseIdx i }
  | connect {i : Nat} {ok : Bool} {t : Subscriber} (ht : s.tasks[i]? = some t)
      (hrun : t.stopped = false) (hconn : t.connected = false) :
      Supervises env s (.connect i ok)
        { s with tasks := s.tasks.set i { t with connected := ok, stopped := !ok } }
  | stop {i : Nat} {t : Subscriber} (ht : s.tasks[i]? = some t) (hrun : t.stopped = false)
      (hconn : t.connected = true) (hsig : t.signalled = true) :
      Supervises env s (.check i) { s with tasks := s.tasks.set i { t with stopped := true } }
  | poll {i : Nat} {t : Subscriber} (ht : s.tasks[i]? = some t) (hrun : t.stopped = false)
      (hconn : t.connected = true) (hsig : t.signalled = false) :
      Supervises env s (.check i) { s with tasks := s.tasks.set i { t with polled := true } }
  | recv {i : Nat} {opening : ReplayOpen} {r : LiveRecv} {t : Subscriber}
      (ht : s.tasks[i]? = some t) (hrun : t.stopped = false) (hpolled : t.polled = true)
      (hidle : t.pending = []) (hpoll : t.task.phase = .polling) :
      Supervises env s (.recv i opening r)
        { s with
          tasks := s.tasks.set i (t.begin (receivePlan env.codec t.src t.task opening r)) }
  | replay {i : Nat} {r : ReplayRecv} {t : Subscriber} {high through : Int}
      {batch : Option KVEventBatch} (ht : s.tasks[i]? = some t) (hrun : t.stopped = false)
      (hidle : t.pending = []) (hphase : t.task.phase = .replaying high through batch) :
      Supervises env s (.replay i r)
        { s with
          tasks := s.tasks.set i
            (t.begin (replayReceivePlan env.codec t.src t.task high through batch r)) }
  | act {i : Nat} {t : Subscriber} {a : TaskAction} {rest : List TaskAction}
      {idx idx' : KvBlockIndexer} (ht : s.tasks[i]? = some t) (hrun : t.stopped = false)
      (hpend : t.pending = a :: rest) (hidx : s.indexes[t.indexer]? = some idx)
      (hact : a.perform t.src idx = some idx') :
      Supervises env s (.act i)
        { s with
          indexes := s.indexes.set t.indexer idx'
          tasks := s.tasks.set i (t.performed a rest) }

section Supervises

variable {env : SupervisorEnv} {s : KvIndexSupervisor}

lemma onIndex_eq_some (h : s.onIndex ref op = some s') :
    ∃ idx idx', s.indexes[ref]? = some idx ∧ op idx = some idx' ∧
      s' = { s with indexes := s.indexes.set ref idx' } := by
  unfold onIndex at h
  simp only [bind_eq_bind, bind_eq_some_iff] at h
  obtain ⟨idx, hidx, idx', hop, heq⟩ := h
  exact ⟨idx, idx', hidx, hop, (some.inj heq).symm⟩

lemma beginRemoval_supervises (he : e = .addBegin url ∨ e = .removeBegin url) :
    Supervises env s e (s.beginRemoval url) := by
  unfold beginRemoval
  cases hsubs : s.workers.lookup url with
  | none => exact .idle e
  | some => exact .retire he hsubs

lemma finishAdd_supervises (url d) :
    Supervises env s (.addFinish url d) (s.finishAdd env url d).1 := by
  unfold finishAdd
  cases hsettle : settle env url d with
  | inl => exact .idle _
  | inr found =>
    obtain ⟨key, _, _⟩ := found
    simp only
    rcases hacq : s.acquireIdentity key with ⟨_, _ | _⟩
    · exact .acquire hacq
    · exact .track hsettle hacq

lemma clearNext_supervises (i) : Supervises env s (.removeClear i) (s.clearNext i) := by
  unfold clearNext
  cases hrm : s.removals[i]? with
  | none => exact .idle _
  | some rm =>
    obtain ⟨subs, _ | ⟨rank, _⟩⟩ := rm
    · exact .idle _
    simp only
    cases hon : s.onIndex subs.indexer fun idx =>
        idx.call (.clear (.worker subs.sourceId rank 0) .worker) with
    | none => exact .idle _
    | some =>
      obtain ⟨_, _, hidx, hcall, rfl⟩ := onIndex_eq_some hon
      exact .clear hrm hidx hcall

lemma finishRemoval_supervises (i) :
    Supervises env s (.removeFinish i) (s.finishRemoval i) := by
  unfold finishRemoval
  cases hrm : s.removals[i]? with
  | none => exact .idle _
  | some rm =>
    obtain ⟨subs, _ | ⟨_, _⟩⟩ := rm
    · simp only [(releaseIdentity_spec s subs.key).2.2.1]
      exact .finish hrm
    · exact .idle _

/-- The steps of a task that exists and has not stopped. -/
lemma onTask_supervises
    (hf : ∀ t, s.tasks[i]? = some t → t.stopped = false → Supervises env s e (f t)) :
    Supervises env s e (s.onTask i f) := by
  unfold onTask
  cases ht : s.tasks[i]? with
  | none => exact .idle e
  | some t =>
    simp only
    cases hstop : t.stopped with
    | true => exact .idle e
    | false => exact hf t ht hstop

lemma connect_supervises (i ok) :
    Supervises env s (.connect i ok) (s.connect i ok) := by
  refine onTask_supervises fun t ht hrun => ?_
  cases hconn : t.connected with
  | true => exact .idle _
  | false =>
    have h : Supervises env s (.connect i ok)
        { s with tasks := s.tasks.set i { t with connected := ok, stopped := !ok } } :=
      .connect ht hrun hconn
    cases ok with
    | true => simpa [hrun] using h
    | false => simpa [hconn] using h

lemma check_supervises (i) : Supervises env s (.check i) (s.check i) := by
  refine onTask_supervises fun t ht hrun => ?_
  split_ifs with hready hsig
  · simp only [Bool.and_eq_true] at hready
    exact .stop ht hrun hready.1.1.1 hsig
  · simp only [Bool.and_eq_true] at hready
    exact .poll ht hrun hready.1.1.1 (Bool.eq_false_iff.2 hsig)
  · exact .idle _

lemma recv_supervises (i opening r) :
    Supervises env s (.recv i opening r) (s.recv env i opening r) := by
  refine onTask_supervises fun t ht hrun => ?_
  split_ifs with hready
  · simp only [Bool.and_eq_true, List.isEmpty_iff, decide_eq_true_eq] at hready
    exact .recv ht hrun hready.1.1 hready.1.2 hready.2
  · exact .idle _

lemma replay_supervises (i r) :
    Supervises env s (.replay i r) (s.replay env i r) := by
  refine onTask_supervises fun t ht hrun => ?_
  cases hpend : t.pending with
  | cons => exact .idle _
  | nil =>
    cases hphase : t.task.phase with
    | polling => exact .idle _
    | replaying => exact .replay ht hrun hpend hphase

lemma act_supervises (i) : Supervises env s (.act i) (s.act i) := by
  refine onTask_supervises fun t ht hrun => ?_
  cases hpend : t.pending with
  | nil => exact .idle _
  | cons a =>
    simp only
    cases hon : s.onIndex t.indexer (a.perform t.src) with
    | none => exact .idle _
    | some =>
      obtain ⟨_, _, hidx, hact, rfl⟩ := onIndex_eq_some hon
      exact .act ht hrun hpend hidx hact

/-- **Inversion**: every step is one of these. -/
lemma step_supervises (env s e) :
    Supervises env s e (s.step env e) := by
  cases e with
  | addBegin => exact beginRemoval_supervises (.inl rfl)
  | addFinish url d => exact finishAdd_supervises url d
  | removeBegin => exact beginRemoval_supervises (.inr rfl)
  | removeClear i => exact clearNext_supervises i
  | removeFinish i => exact finishRemoval_supervises i
  | connect i ok => exact connect_supervises i ok
  | check i => exact check_supervises i
  | recv i opening r => exact recv_supervises i opening r
  | replay i r => exact replay_supervises i r
  | act i => exact act_supervises i

end Supervises

end KvIndexSupervisor

end VllmRouter.KvIndex
