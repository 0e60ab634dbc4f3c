import VllmRouter.Lib.Dict

/-!
# Workers and their registry (`core/worker.rs`, `core/worker_registry.rs`)

A worker is a shared object (`Arc<dyn Worker>`). Its URL, model, type and
connection mode are fixed when it is created; `addr` tells two objects with the
same data apart.

The registry keeps every worker under an id and five indices over them. Ids are
random UUIDs in the source; here `nextId` issues them, so that no id is issued
twice. A lookup clones the objects out of the registry, so its result is the list
of the objects themselves; the order of `getAll` is that of a hash map and no
statement depends on it.
-/

namespace VllmRouter.Core

/-- Worker type classification. -/
inductive WorkerType where
  | regular
  | prefill (bootstrapPort : Option Nat)
  | decode
deriving DecidableEq, Repr

/-- Connection mode for worker communication. -/
inductive ConnectionMode where
  | http
  | grpc
deriving DecidableEq, Repr

structure Worker where
  addr : Nat
  url : String
  modelId : String
  workerType : WorkerType
  connectionMode : ConnectionMode
deriving DecidableEq, Repr

abbrev WorkerId := Nat

/-- The worker registry with its indices. -/
structure WorkerRegistry where
  /-- all workers by id -/
  workers : Dict WorkerId Worker
  /-- ids by model -/
  modelWorkers : Dict String (List WorkerId)
  /-- the objects by model, for lookups without a detour through the ids -/
  modelIndex : Dict String (List Worker)
  typeWorkers : Dict WorkerType (List WorkerId)
  connectionWorkers : Dict ConnectionMode (List WorkerId)
  urlToId : Dict String WorkerId
  /-- bumped with every change, for read-side caches -/
  revision : Nat
  nextId : WorkerId

namespace WorkerRegistry

def new : WorkerRegistry := ⟨∅, ∅, ∅, ∅, ∅, ∅, 0, 0⟩

variable (self : WorkerRegistry)

/-- The id a registration is stored under: that of the URL, or a new one. -/
def idFor (url : String) : WorkerId :=
  (self.urlToId.lookup url).getD self.nextId

/-- Append to the list under `k`, which is created when it is absent. -/
def push {K V : Type} [DecidableEq K] (index : Dict K (List V)) (k : K) (v : V) :
    Dict K (List V) :=
  index.upsert k [] fun l => l ++ [v]

/-- Keep what satisfies `p` in the list under `k`, if there is one. -/
def retain {K V : Type} [DecidableEq K] (index : Dict K (List V)) (k : K) (p : V → Bool) :
    Dict K (List V) :=
  index.modify k fun l => l.filter p

/-- Register a worker. A worker whose URL is known keeps its id. -/
def register (worker : Worker) : WorkerRegistry × WorkerId :=
  let workerId := self.idFor worker.url
  ({ workers := self.workers.insert workerId worker
     urlToId := self.urlToId.insert worker.url workerId
     modelWorkers := push self.modelWorkers worker.modelId workerId
     modelIndex := push self.modelIndex worker.modelId worker
     typeWorkers := push self.typeWorkers worker.workerType workerId
     connectionWorkers := push self.connectionWorkers worker.connectionMode workerId
     revision := self.revision + 1
     nextId := if (self.urlToId.lookup worker.url).isSome then self.nextId
       else self.nextId + 1 }, workerId)

/-- Remove a worker by id. -/
def remove (workerId : WorkerId) : WorkerRegistry × Option Worker :=
  match self.workers.lookup workerId with
  | none => (self, none)
  | some worker =>
    ({ self with
       workers := self.workers.erase workerId
       urlToId := self.urlToId.erase worker.url
       modelWorkers := retain self.modelWorkers worker.modelId (· ≠ workerId)
       modelIndex := retain self.modelIndex worker.modelId (·.url ≠ worker.url)
       typeWorkers := retain self.typeWorkers worker.workerType (· ≠ workerId)
       connectionWorkers := retain self.connectionWorkers worker.connectionMode (· ≠ workerId)
       revision := self.revision + 1 }, some worker)

/-- Remove a worker by URL. -/
def removeByUrl (url : String) : WorkerRegistry × Option Worker :=
  match self.urlToId.lookup url with
  | none => (self, none)
  | some workerId => ({ self with urlToId := self.urlToId.erase url }).remove workerId

def get (workerId : WorkerId) : Option Worker :=
  self.workers.lookup workerId

def getByUrl (url : String) : Option Worker :=
  (self.urlToId.lookup url).bind self.get

/-- The workers whose ids an index lists under `k`. -/
def listed {K : Type} [DecidableEq K] (index : Dict K (List WorkerId)) (k : K) : List Worker :=
  ((index.lookup k).getD []).filterMap self.get

def getByModel (modelId : String) : List Worker :=
  self.listed self.modelWorkers modelId

def getByModelFast (modelId : String) : List Worker :=
  (self.modelIndex.lookup modelId).getD []

def getByType (workerType : WorkerType) : List Worker :=
  self.listed self.typeWorkers workerType

def getByConnection (mode : ConnectionMode) : List Worker :=
  self.listed self.connectionWorkers mode

def getAll : List Worker := self.workers.values

end WorkerRegistry

/-! ## Histories -/

/-- A call that changes the registry. -/
inductive RegistryOp where
  | register (worker : Worker)
  | remove (workerId : WorkerId)
  | removeByUrl (url : String)
deriving DecidableEq, Repr

namespace WorkerRegistry

def apply (self : WorkerRegistry) : RegistryOp → WorkerRegistry
  | .register worker => (self.register worker).1
  | .remove workerId => (self.remove workerId).1
  | .removeByUrl url => (self.removeByUrl url).1

def run (ops : List RegistryOp) : WorkerRegistry := ops.foldl apply new

end WorkerRegistry

end VllmRouter.Core
