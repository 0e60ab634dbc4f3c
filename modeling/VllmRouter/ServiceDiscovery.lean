import VllmRouter.Lib.Dict
import VllmRouter.Lib.Digits
import VllmRouter.Lib.Machine

/-!
# Kubernetes service discovery (`service_discovery.rs`)

Discovery turns pod events into calls of the router. It remembers the pods it has
added by their whole snapshot, of which the status, the readiness and the bootstrap
port change during the life of a pod. Events are handled one after another.

The state has, beside the tracked snapshots and the URLs registered with the
router, the workers that discovery added and has not removed, each with the pod it
was added for. These correspond one to one to the tracked snapshots in every run
(`Tracks.run`). A deletion, however, removes the worker of its pod only if it
carries the very snapshot the pod was added with (`Tracks.delete_iff`).

Parsing and printing of addresses are parameters, the router is the set of its
URLs: adding one succeeds exactly when it is not registered. Logging and the retry
loop around the watcher are left out.
-/

namespace VllmRouter

open List

structure ServiceDiscoveryConfig where
  selector : List (String × String)
  port : Nat
  pdMode : Bool
  prefillSelector : List (String × String)
  decodeSelector : List (String × String)
  bootstrapPortAnnotation : String
deriving DecidableEq, Repr

inductive PodType where
  | prefill
  | decode
  | regular
deriving DecidableEq, Repr

/-- What is fixed during the life of a pod. -/
structure Pod where
  name : Option String
  podIp : Option String
  labels : Option (List (String × String))
deriving DecidableEq, Repr

/-- What an event says about its pod besides. -/
structure PodObservation where
  /-- the type and the status of each condition -/
  conditions : Option (List (String × String))
  phase : Option String
  annotations : Option (List (String × String))
  deleted : Bool
deriving DecidableEq, Repr

/-- The snapshot of a pod that discovery works with. -/
structure PodInfo (Ip : Type) where
  name : String
  ip : Ip
  status : String
  isReady : Bool
  podType : Option PodType
  bootstrapPort : Option Nat
deriving DecidableEq, Repr

/-- Addresses as the standard library reads and writes them. -/
structure Addresses (Ip : Type) where
  parse : String → Option Ip
  socket : Ip → Nat → String

namespace Pod

def matchesSelector (pod : Pod) (selector : List (String × String)) : Bool :=
  if selector.isEmpty then false
  else match pod.labels with
    | some labels => selector.all fun kv => labels.lookup kv.1 = some kv.2
    | none => false

/-- Whether the events of the pod are handled at all. -/
def shouldInclude (pod : Pod) (config : ServiceDiscoveryConfig) : Bool :=
  if config.pdMode then
    if config.prefillSelector.isEmpty && config.decodeSelector.isEmpty then false
    else pod.matchesSelector config.prefillSelector || pod.matchesSelector config.decodeSelector
  else if config.selector.isEmpty then false
  else pod.matchesSelector config.selector

def podType (pod : Pod) (config : ServiceDiscoveryConfig) : PodType :=
  if config.pdMode then
    if pod.matchesSelector config.prefillSelector then .prefill
    else if pod.matchesSelector config.decodeSelector then .decode
    else .regular
  else .regular

end Pod

namespace PodInfo

variable {Ip : Type}

def fromPod (addr : Addresses Ip) (pod : Pod) (obs : PodObservation)
    (config : Option ServiceDiscoveryConfig) : Option (PodInfo Ip) := do
  let name ← pod.name
  let ip ← pod.podIp.bind addr.parse
  let podType := config.map pod.podType
  let bootstrapPort := match podType, config with
    | some .prefill, some config =>
      (obs.annotations.bind fun a => a.lookup config.bootstrapPortAnnotation).bind
        (parseUnsigned 16)
    | _, _ => none
  some
    { name, ip, podType, bootstrapPort
      status := obs.phase.getD "Unknown"
      isReady := (obs.conditions.getD []).any fun c => c.1 = "Ready" && c.2 = "True" }

def isHealthy (info : PodInfo Ip) : Bool := info.isReady && info.status = "Running"

def workerUrl (addr : Addresses Ip) (info : PodInfo Ip) (port : Nat) : String :=
  "http://" ++ addr.socket info.ip port

end PodInfo

/-! ## The handlers -/

/-- What discovery runs with. `vllmPd` says that the router is a `VllmPDRouter`. -/
structure DiscoveryEnv (Ip : Type) where
  addr : Addresses Ip
  config : ServiceDiscoveryConfig
  vllmPd : Bool

structure Discovery (Ip : Type) where
  tracked : List (PodInfo Ip)
  /-- the URLs registered with the router -/
  router : List String
  /-- the workers added by discovery and not removed, with their pods -/
  added : Dict String Pod

namespace Discovery

variable {Ip : Type} [DecidableEq Ip]

/-- Discovery starts with whatever workers the router has. -/
def init (router : List String) : Discovery Ip := ⟨[], router, ∅⟩

variable (env : DiscoveryEnv Ip)

/-- `add_worker`, `add_prefill_server` or `add_decode_server` of the router. In PD
mode only a `VllmPDRouter` is asked. -/
def addWorker (info : PodInfo Ip) (url : String) (router : List String) :
    Option (List String) :=
  if env.config.pdMode && info.podType.isSome && !env.vllmPd then none
  else if url ∈ router then none
  else some (url :: router)

def handlePodEvent (s : Discovery Ip) (pod : Pod) (info : PodInfo Ip) : Discovery Ip :=
  let url := info.workerUrl env.addr env.config.port
  if info.isHealthy && !s.tracked.contains info then
    match addWorker env info url s.router with
    | some router => ⟨info :: s.tracked, router, s.added.insert url pod⟩
    -- tracked while the router was asked
    | none => { s with tracked := (info :: s.tracked).erase info }
  else s

/-- Whatever the type of the pod, its worker is removed by URL. -/
def handlePodDeletion (s : Discovery Ip) (info : PodInfo Ip) :
    Discovery Ip :=
  let url := info.workerUrl env.addr env.config.port
  if s.tracked.contains info then ⟨s.tracked.erase info, s.router.erase url, s.added.erase url⟩
  else s

/-- One event of the watcher. -/
def handle (s : Discovery Ip) (event : Pod × PodObservation) :
    Discovery Ip :=
  if event.1.shouldInclude env.config then
    match PodInfo.fromPod env.addr event.1 event.2 (some env.config) with
    | some info =>
      if event.2.deleted then s.handlePodDeletion env info
      else s.handlePodEvent env event.1 info
    | none => s
  else s

def run (router : List String) (events : List (Pod × PodObservation)) : Discovery Ip :=
  events.foldl (handle env) (init router)

/-- A worker that discovery added for the pod is registered. -/
def RegisteredFor (s : Discovery Ip) (pod : Pod) : Prop :=
  ∃ url ∈ s.router, s.added.lookup url = some pod

/-! ## The workers of discovery -/

/-- The workers that discovery added correspond to the tracked snapshots, and each
has the URL of its pod. -/
structure Tracks (env : DiscoveryEnv Ip) (s : Discovery Ip) : Prop where
  perm : (s.tracked.map fun info => info.workerUrl env.addr env.config.port).Perm s.added.keys
  registered : ∀ url ∈ s.added.keys, url ∈ s.router
  placed : ∀ url pod, s.added.lookup url = some pod → pod.shouldInclude env.config = true ∧
    ∀ obs info, PodInfo.fromPod env.addr pod obs (some env.config) = some info →
      url = info.workerUrl env.addr env.config.port

omit [DecidableEq Ip] in
/-- The URL of a pod does not depend on the event. -/
lemma workerUrl_of_pod (h : PodInfo.fromPod addr pod obs config = some info)
    (h' : PodInfo.fromPod addr pod obs' config = some info') (port) :
    info.workerUrl addr port = info'.workerUrl addr port := by
  have hip : info.ip = info'.ip := by
    simp only [PodInfo.fromPod, Option.bind_eq_bind, Option.bind_eq_some_iff] at h h'
    obtain ⟨_, -, _, _, h⟩ := h
    obtain ⟨_, -, _, _, h'⟩ := h'
    grind
  simp only [PodInfo.workerUrl, hip]

variable {env : DiscoveryEnv Ip} {s : Discovery Ip}

omit [DecidableEq Ip] in
lemma tracks_init (router) : Tracks env (init router : Discovery Ip) := ⟨.refl _, nofun, nofun⟩

lemma Tracks.handlePodEvent (h : Tracks env s) (hincluded : pod.shouldInclude env.config = true)
    (hinfo : PodInfo.fromPod env.addr pod obs (some env.config) = some info) :
    Tracks env (s.handlePodEvent env pod info) := by
  unfold Discovery.handlePodEvent
  simp only
  split
  · split
    · rename_i router _
      -- the URL was free, so it is not the URL of a worker of discovery
      have hfree : info.workerUrl env.addr env.config.port ∉ s.router ∧
          router = info.workerUrl env.addr env.config.port :: s.router := by
        grind [addWorker]
      have hnew : info.workerUrl env.addr env.config.port ∉ s.added.keys :=
        fun hmem => hfree.1 (h.registered _ hmem)
      constructor
      · rw [AList.keys_insert, erase_of_not_mem hnew]
        exact h.perm.cons _
      · intro url hurl
        rw [AList.keys_insert, erase_of_not_mem hnew, mem_cons] at hurl
        rw [hfree.2]
        exact mem_cons.2 (hurl.imp_right (h.registered url))
      intro url _ _
      have hplaced := h.placed url
      have hsame : ∀ obs' info',
          PodInfo.fromPod env.addr pod obs' (some env.config) = some info' →
          info.workerUrl env.addr env.config.port = info'.workerUrl env.addr env.config.port :=
        fun _ _ hinfo' => workerUrl_of_pod hinfo hinfo' _
      grind
    · rw [erase_cons_head]
      exact h
  · exact h

lemma Tracks.handlePodDeletion (h : Tracks env s) (info) :
    Tracks env (s.handlePodDeletion env info) := by
  unfold Discovery.handlePodDeletion
  simp only
  split
  · rename_i hmem
    have hmem : info ∈ s.tracked := by simpa using hmem
    constructor
    · rw [AList.keys_erase]
      have hperm := ((perm_cons_erase hmem).map _).symm.trans h.perm
      simpa using hperm.erase (info.workerUrl env.addr env.config.port)
    · intro url hurl
      have hnodup := s.added.keys_nodup
      rw [AList.keys_erase, hnodup.mem_erase_iff] at hurl
      exact (mem_erase_of_ne hurl.1).2 (h.registered url hurl.2)
    · have hplaced := h.placed
      grind
  · exact h

lemma Tracks.handle (h : Tracks env s) (event : Pod × PodObservation) :
    Tracks env (s.handle env event) := by
  unfold Discovery.handle
  split
  · rename_i hincluded
    split
    · rename_i info hinfo
      split
      · exact h.handlePodDeletion info
      · exact h.handlePodEvent hincluded hinfo
    · exact h
  · exact h

lemma Tracks.run (env : DiscoveryEnv Ip) (router : List String)
    (events : List (Pod × PodObservation)) : Tracks env (Discovery.run env router events) :=
  foldl_invariant (fun _ event h => h.handle event) events _ (tracks_init router)

/-- After a deletion no worker of the pod is registered exactly if there was none
before it or the snapshot in it is tracked. -/
lemma Tracks.delete_iff (h : Tracks env s) (pod : Pod) (obs : PodObservation)
    (hdeleted : obs.deleted = true) :
    ¬ (s.handle env (pod, obs)).RegisteredFor pod ↔ ¬ s.RegisteredFor pod ∨
      ∃ info ∈ s.tracked, PodInfo.fromPod env.addr pod obs (some env.config) = some info := by
  have hplaced := h.placed
  unfold Discovery.handle
  by_cases hincluded : pod.shouldInclude env.config = true
  · cases hinfo : PodInfo.fromPod env.addr pod obs (some env.config) with
    | none => simp [hincluded]
    | some info =>
      by_cases hmem : info ∈ s.tracked
      · simp only [hincluded, hdeleted, if_true, Discovery.handlePodDeletion,
          contains_eq_mem, hmem, decide_true, RegisteredFor]
        grind
      simp only [hincluded, hdeleted, if_true, Discovery.handlePodDeletion,
        contains_eq_mem, hmem, decide_false]
      grind
  · have hnone : ¬ s.RegisteredFor pod := by
      rintro ⟨url, -, hurl⟩
      exact hincluded (h.placed url pod hurl).1
    simp [hincluded, hnone]

/-- In every run the workers added by discovery and not removed correspond one to
one to the tracked snapshots, and a deletion leaves no worker of its pod exactly if
it carries the snapshot with which the pod is tracked, or the pod has no worker. -/
theorem run_deletion_iff (env : DiscoveryEnv Ip) (router : List String)
    (events : List (Pod × PodObservation)) : let s := run env router events
    ((s.tracked.map fun info => info.workerUrl env.addr env.config.port).Perm s.added.keys ∧
        ∀ url ∈ s.added.keys, url ∈ s.router) ∧ ∀ (pod : Pod) (obs : PodObservation),
        (¬ (s.handle env (pod, { obs with deleted := true })).RegisteredFor pod ↔
          ¬ s.RegisteredFor pod ∨ ∃ info ∈ s.tracked, PodInfo.fromPod env.addr pod
            { obs with deleted := true } (some env.config) = some info) := by
  have h := Tracks.run env router events
  exact ⟨⟨h.perm, h.registered⟩, fun pod obs => h.delete_iff pod _ rfl⟩

/-- A pod is added while it is ready. It is deleted, as pods are, when it is no
longer ready: the worker stays. -/
theorem unready_pod_survives_deletion : let env : DiscoveryEnv String :=
      ⟨⟨some, fun ip port => ip ++ ":" ++ toString port⟩,
        ⟨[("app", "vllm")], 8000, false, [], [], "vllm.ai/bootstrap-port"⟩, false⟩
    let pod : Pod := ⟨some "p", some "10.0.0.1", some [("app", "vllm")]⟩
    let s := run env [] [(pod, ⟨some [("Ready", "True")], some "Running", none, false⟩),
      (pod, ⟨some [("Ready", "False")], some "Running", none, true⟩)]
    s.router = ["http://10.0.0.1:8000"] ∧
      s.added.lookup "http://10.0.0.1:8000" = some pod := by
  decide +kernel

/-! ## The workers of the router -/

/-- The router has the workers `first` it started with and one for every tracked
snapshot. -/
def Exact (env : DiscoveryEnv Ip) (first : List String) (s : Discovery Ip) : Prop :=
  s.router.Perm (s.tracked.map (fun info => info.workerUrl env.addr env.config.port) ++ first)

lemma Exact.handle (h : Exact env first s) (event : Pod × PodObservation) :
    Exact env first (s.handle env event) := by
  unfold Discovery.handle
  split
  · split
    · rename_i info _
      split
      · unfold Discovery.handlePodDeletion
        simp only
        split
        · rename_i hmem
          have hmem : info ∈ s.tracked := by simpa using hmem
          have hperm := h.trans (((perm_cons_erase hmem).map _).append_right first)
          simpa [Exact] using hperm.erase (info.workerUrl env.addr env.config.port)
        · exact h
      · unfold Discovery.handlePodEvent
        simp only
        split
        · split
          · rename_i router _
            have hadd : router = info.workerUrl env.addr env.config.port :: s.router := by
              grind [addWorker]
            rw [hadd]
            exact h.cons _
          · rw [erase_cons_head]
            exact h
        · exact h
    · exact h
  · exact h

/-- Discovery neither loses nor duplicates a worker: in every run the router has
those it started with and one for every tracked snapshot. -/
theorem run_router_exact (env : DiscoveryEnv Ip) (first : List String)
    (events : List (Pod × PodObservation)) : Exact env first (run env first events) :=
  foldl_invariant (fun _ event h => h.handle event) events _ (.refl _)

end Discovery

end VllmRouter
