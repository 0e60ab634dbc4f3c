import VllmRouter.Core.WorkerRegistry
import VllmRouter.Lib.Digits
import VllmRouter.Lib.Machine
import VllmRouter.Lib.Sums

/-!
# Worker counts of the policy registry (`policies/registry.rs`)

The policy registry counts the workers of each model, to drop the policy of a model
with its last worker. The calls that add and remove workers (`routers/http/router.rs`,
`routers/router_manager.rs`) change the worker registry and the counts in separate
steps, and other calls run in between: a `Call` is a call that stands before its next
map operation. The four indices of the registry that no call reads are updated in one
step. A worker that is stored and not yet counted, or counted and no longer stored, is
on the account of a call in progress, and the counts balance up to these accounts
(`Fleet.Balanced`) as long as every step is `regular`.
-/

namespace VllmRouter.Policies

open VllmRouter.Core WorkerRegistry List Option

/-! ## The counts -/

/-- The count part of `on_worker_added`. -/
def onWorkerAdded (counts : Dict String Nat) (modelId : String) : Dict String Nat :=
  counts.upsert modelId 0 (· + 1)

/-- The count part of `on_worker_removed`; a model without a count is skipped. -/
def onWorkerRemoved (counts : Dict String Nat) (modelId : String) : Dict String Nat :=
  match counts.lookup modelId with
  | some count => if count - 1 = 0 then counts.erase modelId else counts.insert modelId (count - 1)
  | none => counts

/-! ## The calls -/

def connectionModeFromUrl (url : String) : ConnectionMode :=
  if "grpc://".toList.isPrefixOf url.toList then .grpc else .http

/-- `extract_dp_rank`, with the base URL and the rank. -/
def parseWorkerUrl (workerUrl : String) : String × Option Nat :=
  match workerUrl.splitOn "@" with
  | [base, rank] =>
    match parseUnsigned 64 rank with
    | some dpRank => (base, some dpRank)
    | none => (workerUrl, none)
  | _ => (workerUrl, none)

/-- The worker `Router::add_worker` creates. It has no labels, so its model is unknown. -/
def basicWorker (addr : Nat) (url : String) : Worker :=
  ⟨addr, url, "unknown", .regular, connectionModeFromUrl url⟩

/-- The URLs `Router::add_worker` checks, with the workers it creates for them. -/
def workersToAdd (intraNodeDataParallelSize addr : Nat) (workerUrl : String) :
    List (String × Worker) :=
  if intraNodeDataParallelSize > 1 then
    (range intraNodeDataParallelSize).map fun rank =>
      let dpUrl := workerUrl ++ "@" ++ toString rank
      let parsed := parseWorkerUrl dpUrl
      (dpUrl, basicWorker (addr + rank) (parsed.1 ++ "@" ++ toString (parsed.2.getD 0)))
  else [(workerUrl, basicWorker addr workerUrl)]

/-- A call before its next map operation, with what is left to do after it. -/
inductive Call where
  /-- `get_by_url` reads the id of a URL to add -/
  | checkUrl (todo : List (String × Worker))
  /-- `get_by_url` reads the worker of the id -/
  | checkWorker (id : WorkerId) (worker : Worker) (todo : List (String × Worker))
  /-- `register` reads the id of the URL -/
  | register (worker : Worker) (todo : List (String × Worker))
  | insertWorker (id : WorkerId) (worker : Worker) (todo : List (String × Worker))
  | insertUrl (id : WorkerId) (worker : Worker) (todo : List (String × Worker))
  | index (id : WorkerId) (worker : Worker) (todo : List (String × Worker))
  | countAdded (worker : Worker) (todo : List (String × Worker))
  /-- `get_by_url` reads the id of the URL to remove, for the router or its manager -/
  | findUrl (url : String) (manager : Bool)
  | findWorker (id : WorkerId) (url : String) (manager : Bool)
  /-- `get_all` looks for the workers whose URLs start with `start` -/
  | scan (start : String)
  /-- `remove_by_url` of the next URL; `removed` are the models to be counted down -/
  | removeUrl (todo : List (String × Option String)) (removed : List (Option String))
  | removeWorker (id : WorkerId) (modelId : Option String)
      (todo : List (String × Option String)) (removed : List (Option String))
  | eraseUrl (id : WorkerId) (worker : Worker) (todo : List (String × Option String))
      (removed : List (Option String))
  | unindex (id : WorkerId) (worker : Worker) (todo : List (String × Option String))
      (removed : List (Option String))
  | countRemoved (removed : List (Option String))
  | done
deriving DecidableEq

/-- A call that is made. The manager's worker is the one it creates from its
configuration and the server's answer. -/
inductive Entry where
  | routerAdd (intraNodeDataParallelSize addr : Nat) (workerUrl : String)
  | managerAdd (worker : Worker)
  | routerRemove (intraNodeDataParallelSize : Nat) (workerUrl : String)
  | managerRemove (url : String)

/-- Where a call starts: a router adds a worker once it is healthy. -/
def Entry.call : Entry → Call
  | .routerAdd size addr workerUrl => .checkUrl (workersToAdd size addr workerUrl)
  | .managerAdd worker => .register worker []
  | .routerRemove size workerUrl =>
    if size > 1 then .scan (workerUrl ++ "@") else .findUrl workerUrl false
  | .managerRemove url => .findUrl url true

/-- Without a worker the router returns; the manager tries to remove the URL all the same. -/
def Call.notFound (url : String) : Bool → Call
  | true => .removeUrl [(url, none)] []
  | false => .done

/-- The next map operation of a call. -/
def Call.advance (reg : WorkerRegistry) (counts : Dict String Nat) :
    Call → WorkerRegistry × Dict String Nat × Call
  | .checkUrl [] => (reg, counts, .done)
  | .checkUrl ((url, worker) :: todo) =>
    match reg.urlToId.lookup url with
    | some id => (reg, counts, .checkWorker id worker todo)
    | none => (reg, counts, .register worker todo)
  | .checkWorker id worker todo =>
    if (reg.get id).isSome then (reg, counts, .checkUrl todo)
    else (reg, counts, .register worker todo)
  | .register worker todo =>
    match reg.urlToId.lookup worker.url with
    | some id => (reg, counts, .insertWorker id worker todo)
    | none => ({ reg with nextId := reg.nextId + 1 }, counts, .insertWorker reg.nextId worker todo)
  | .insertWorker id worker todo =>
    ({ reg with workers := reg.workers.insert id worker }, counts, .insertUrl id worker todo)
  | .insertUrl id worker todo =>
    ({ reg with urlToId := reg.urlToId.insert worker.url id }, counts, .index id worker todo)
  | .index id worker todo =>
    ({ reg with
       modelWorkers := push reg.modelWorkers worker.modelId id
       modelIndex := push reg.modelIndex worker.modelId worker
       typeWorkers := push reg.typeWorkers worker.workerType id
       connectionWorkers := push reg.connectionWorkers worker.connectionMode id
       revision := reg.revision + 1 }, counts, .countAdded worker todo)
  | .countAdded worker todo => (reg, onWorkerAdded counts worker.modelId, .checkUrl todo)
  | .findUrl url manager =>
    match reg.urlToId.lookup url with
    | some id => (reg, counts, .findWorker id url manager)
    | none => (reg, counts, .notFound url manager)
  | .findWorker id url manager =>
    match reg.get id with
    | some worker => (reg, counts, .removeUrl [(url, some worker.modelId)] [])
    | none => (reg, counts, .notFound url manager)
  | .scan start =>
    let found := reg.getAll.filter fun w => start.toList.isPrefixOf w.url.toList
    (reg, counts, .removeUrl (found.map fun w => (w.url, some w.modelId)) [])
  | .removeUrl [] removed => (reg, counts, .countRemoved removed)
  | .removeUrl ((url, modelId) :: todo) removed =>
    match reg.urlToId.lookup url with
    | some id => ({ reg with urlToId := reg.urlToId.erase url }, counts,
        .removeWorker id modelId todo removed)
    | none => (reg, counts, .removeUrl todo removed)
  | .removeWorker id modelId todo removed =>
    match reg.workers.lookup id with
    | some worker => ({ reg with workers := reg.workers.erase id }, counts,
        .eraseUrl id worker todo (removed ++ [modelId]))
    | none => (reg, counts, .removeUrl todo removed)
  | .eraseUrl id worker todo removed =>
    ({ reg with urlToId := reg.urlToId.erase worker.url }, counts, .unindex id worker todo removed)
  | .unindex id worker todo removed =>
    ({ reg with
       modelWorkers := retain reg.modelWorkers worker.modelId (· ≠ id)
       modelIndex := retain reg.modelIndex worker.modelId (·.url ≠ worker.url)
       typeWorkers := retain reg.typeWorkers worker.workerType (· ≠ id)
       connectionWorkers := retain reg.connectionWorkers worker.connectionMode (· ≠ id)
       revision := reg.revision + 1 }, counts, .removeUrl todo removed)
  | .countRemoved [] => (reg, counts, .done)
  | .countRemoved (none :: removed) => (reg, counts, .countRemoved removed)
  | .countRemoved (some modelId :: removed) =>
    (reg, onWorkerRemoved counts modelId, .countRemoved removed)
  | .done => (reg, counts, .done)

/-- The registries and the calls made so far. -/
structure Fleet where
  registry : WorkerRegistry
  modelWorkerCounts : Dict String Nat
  calls : List Call

inductive FleetEvent where
  | enter (entry : Entry)
  | advance (i : Nat)

namespace Fleet

def new : Fleet := ⟨.new, ∅, []⟩

def step (s : Fleet) : FleetEvent → Fleet
  | .enter entry => { s with calls := s.calls ++ [entry.call] }
  | .advance i =>
    match s.calls[i]? with
    | some call =>
      let after := call.advance s.registry s.modelWorkerCounts
      ⟨after.1, after.2.1, s.calls.set i after.2.2⟩
    | none => s

def run (events : List FleetEvent) : Fleet := events.foldl step new

/-- The policy registry's count of a model. -/
def workerCount (s : Fleet) (m : String) : Nat := (s.modelWorkerCounts.lookup m).getD 0

/-- The number of registered workers of a model. -/
def registered (s : Fleet) (m : String) : Nat :=
  (s.registry.getAll.filter fun w => decide (w.modelId = m)).length

def idle (s : Fleet) : Bool := s.calls.all fun call => decide (call = .done)

/-- The next operation of the call does not replace a stored worker, does not remove a
worker of another model than the call found under its URL, and does not count down a
model without a count. -/
def regularCall (s : Fleet) : Call → Bool
  | .insertWorker id _ _ => (s.registry.workers.lookup id).isNone
  | .removeWorker id modelId _ _ =>
    (s.registry.workers.lookup id).all fun worker => decide (modelId = some worker.modelId)
  | .countRemoved (some modelId :: _) => decide (0 < s.workerCount modelId)
  | _ => true

def regular (s : Fleet) : FleetEvent → Bool
  | .enter _ => true
  | .advance i => s.calls[i]?.all s.regularCall

end Fleet

/-! ## The accounts of the calls -/

/-- The workers of `m` that the call has stored and not counted. -/
def Call.uncounted (m : String) : Call → Nat
  | .insertUrl _ worker _ | .index _ worker _ | .countAdded worker _ =>
    if worker.modelId = m then 1 else 0
  | _ => 0

/-- The workers of `m` that the call has removed and not counted down. -/
def Call.unreleased (m : String) : Call → Nat
  | .removeUrl _ removed | .removeWorker _ _ _ removed | .eraseUrl _ _ _ removed
  | .unindex _ _ _ removed | .countRemoved removed => removed.count (some m)
  | _ => 0

namespace Fleet

/-- The counts agree with the registry up to what calls in progress have on account. -/
def Balanced (s : Fleet) : Prop :=
  ∀ m, s.workerCount m + (s.calls.map (Call.uncounted m)).sum
    = s.registered m + (s.calls.map (Call.unreleased m)).sum

variable {s : Fleet} (m : String)

lemma registered_eq_total : s.registered m
    = s.registry.workers.total fun w => if decide (w.modelId = m) = true then 1 else 0 :=
  length_filter _ _

lemma lookup_onWorkerAdded (counts modelId) :
    ((onWorkerAdded counts modelId).lookup m).getD 0
      = (counts.lookup m).getD 0 + if modelId = m then 1 else 0 := by
  unfold onWorkerAdded
  grind

lemma lookup_onWorkerRemoved (h : 0 < (counts.lookup modelId).getD 0) :
    ((onWorkerRemoved counts modelId).lookup m).getD 0 + (if modelId = m then 1 else 0)
      = (counts.lookup m).getD 0 := by
  unfold onWorkerRemoved
  grind

/-- What a regular operation does to the counts and to the registry, it does to the
accounts of its call. -/
lemma advance_balance (h : s.regularCall call = true) :
    let after := call.advance s.registry s.modelWorkerCounts
    let s' : Fleet := ⟨after.1, after.2.1, []⟩
    s'.workerCount m + after.2.2.uncounted m + (s.registered m + call.unreleased m)
      = s.workerCount m + call.uncounted m + (s'.registered m + after.2.2.unreleased m) := by
  simp only [registered_eq_total, workerCount]
  fun_cases Call.advance s.registry s.modelWorkerCounts call
  -- the four operations on the stored workers and on the counts
  case case8 id worker todo =>
    have hnone : s.registry.workers.lookup id = none := by simpa [regularCall] using h
    have htotal := s.registry.workers.total_insert
      (fun w => if w.modelId = m then 1 else 0) id worker
    rw [hnone, map_none, getD_none] at htotal
    simp only [Call.uncounted, Call.unreleased, decide_eq_true_eq]
    omega
  case case11 worker todo => simp [Call.uncounted, Call.unreleased, lookup_onWorkerAdded]
  case case20 id modelId todo removed worker hid =>
    obtain rfl : modelId = some worker.modelId := by simpa [regularCall, hid] using h
    have htotal := s.registry.workers.total_erase
      (fun w => if w.modelId = m then 1 else 0) id
    rw [hid, map_some, getD_some] at htotal
    simp only [Call.uncounted, Call.unreleased, decide_eq_true_eq, count_append,
      count_singleton, beq_iff_eq, some.injEq]
    omega
  case case26 modelId removed =>
    have hpos : 0 < (s.modelWorkerCounts.lookup modelId).getD 0 := of_decide_eq_true h
    have hcount := lookup_onWorkerRemoved m hpos
    simp only [Call.uncounted, Call.unreleased, count_cons, beq_iff_eq, some.injEq]
    omega
  case case13 url manager _ =>
    cases manager <;> simp [Call.notFound, Call.uncounted, Call.unreleased]
  case case15 id url manager _ =>
    cases manager <;> simp [Call.notFound, Call.uncounted, Call.unreleased]
  all_goals simp [Call.uncounted, Call.unreleased]

lemma Entry.accounts (entry : Entry) (m) :
    entry.call.uncounted m = 0 ∧ entry.call.unreleased m = 0 := by
  cases entry with
  | routerRemove =>
    rw [Entry.call]
    split
    · exact ⟨rfl, rfl⟩
    · exact ⟨rfl, rfl⟩
  | _ => exact ⟨rfl, rfl⟩

lemma Balanced.step (h : s.Balanced) (hregular : s.regular event = true) :
    (s.step event).Balanced := by
  intro m
  have hm := h m
  cases event with
  | enter entry =>
    obtain ⟨huncounted, hunreleased⟩ := Entry.accounts entry m
    simp only [Fleet.step, map_append, sum_append, map_singleton, huncounted, hunreleased]
    exact hm
  | advance i =>
    cases hcall : s.calls[i]? with
    | none =>
      have hstep : s.step (.advance i) = s := by simp only [Fleet.step, hcall]
      rw [hstep]
      exact hm
    | some call =>
      have hcallRegular : s.regularCall call = true := by simpa [regular, hcall] using hregular
      have hadvance := advance_balance m hcallRegular
      have hstep : s.step (.advance i) = ⟨(call.advance s.registry s.modelWorkerCounts).1,
          (call.advance s.registry s.modelWorkerCounts).2.1,
          s.calls.set i (call.advance s.registry s.modelWorkerCounts).2.2⟩ := by
        simp only [Fleet.step, hcall]
      rw [hstep]
      generalize call.advance s.registry s.modelWorkerCounts = after at hadvance ⊢
      have huncounted := sum_map_set (Call.uncounted m) (b := after.2.2) hcall
      have hunreleased := sum_map_set (Call.unreleased m) (b := after.2.2) hcall
      simp only [workerCount, registered] at hm hadvance ⊢
      omega

end Fleet

/-! ## Runs -/

/-- Whenever no call is in progress, the count of every model is the number of its
registered workers, in the runs that replace no worker, remove what was found and count
down only what was counted. -/
theorem workerCount_eq_registered (events : List FleetEvent)
    (hregular : guardedRun Fleet.step Fleet.regular Fleet.new events = true)
    (hidle : (Fleet.run events).idle = true) (m : String) :
    (Fleet.run events).workerCount m = (Fleet.run events).registered m := by
  have hbalanced : (Fleet.run events).Balanced :=
    foldl_guarded (I := Fleet.Balanced) (fun _ _ hstep h => h.step hstep) events _ hregular
      fun _ => rfl
  have hdone : ∀ call ∈ (Fleet.run events).calls, call = .done := by simpa [Fleet.idle] using hidle
  have huncounted : ((Fleet.run events).calls.map (Call.uncounted m)).sum = 0 :=
    sum_eq_zero fun n hn => by
      obtain ⟨call, hcall, rfl⟩ := mem_map.1 hn
      rw [hdone call hcall]
      rfl
  have hunreleased : ((Fleet.run events).calls.map (Call.unreleased m)).sum = 0 :=
    sum_eq_zero fun n hn => by
      obtain ⟨call, hcall, rfl⟩ := mem_map.1 hn
      rw [hdone call hcall]
      rfl
  have := hbalanced m
  omega

/-- A router and its manager add two workers of one model, interleaved, and the router
removes its own. -/
theorem workerCount_after_removal :
    (Fleet.run ([.enter (.routerAdd 1 0 "a"), .advance 0, .enter (.managerAdd (basicWorker 1 "b"))]
      ++ [1, 0, 1, 0, 0, 1, 1, 0, 0, 0, 1, 1].map .advance ++ [.enter (.routerRemove 1 "a")]
      ++ (replicate 9 2).map .advance)).workerCount "unknown" = 1 := by
  rw [workerCount_eq_registered _ (by decide) (by decide)]
  decide

/-- The manager registers a URL a second time: the worker is replaced and counted again. -/
theorem workerCount_of_replacement : let s := Fleet.run ([.enter (.managerAdd (basicWorker 0 "a"))]
      ++ (replicate 6 0).map .advance ++ [.enter (.managerAdd (basicWorker 1 "a"))]
      ++ (replicate 6 1).map .advance)
    s.idle = true ∧ s.registered "unknown" = 1 ∧ s.workerCount "unknown" = 2 := by
  decide

end VllmRouter.Policies
