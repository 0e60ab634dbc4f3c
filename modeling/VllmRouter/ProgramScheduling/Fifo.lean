import VllmRouter.Lib.Machine
import VllmRouter.Lib.QueueHistory
import VllmRouter.ProgramScheduling.Facts

/-!
# Retained requests over the history of the runtime

A `RuntimeOp` is one call of an operation of the runtime, with any arguments:
handles may name other generations, or requests that left their FIFO long ago.
What an operation does to requests is logged (`ProgramRuntime.notes`), and in
every sequence of operations the log explains the FIFOs (`Fifo`): the requests
of a Program generation are dispatched in the order of arrival, cancelled ones
skipped, and none is lost or dispatched twice.
-/

namespace VllmRouter.ProgramScheduling

open QueueEvent List ProgramRuntime

/-! ## Operations -/

/-- One call of an operation of the runtime. -/
inductive RuntimeOp where
  | retainRequest (identity : ProgramIdentity) (estimatedContextTokens : Nat)
      (routingText : Option String) (arrivedAt : Instant)
  | admitFront (handle : ProgramRequestHandle) (targetId : TargetId) (dispatchedAt : Instant)
  | cancelRequest (handle : ProgramRequestHandle)
  | completeRequest (dispatch : ProgramDispatch) (usage : ProgramUsageObservation)
  | pauseIdle (reference : ProgramRef)
  | activate (reference : ProgramRef) (targetId : TargetId)
  | releaseIdle (reference : ProgramRef) (now : Instant)
  | pruneReleasedGenerations (now : Instant) (retention : Duration)
  | invalidatePlacement (reference : ProgramRef) (removedTargets : List TargetId)
  | notifyFront (reference : ProgramRef)

namespace ProgramRuntime

/-- The runtime after an operation; one that does not apply changes nothing. -/
def perform (rt : ProgramRuntime) : RuntimeOp → ProgramRuntime
  | .retainRequest identity estimatedContextTokens routingText arrivedAt =>
    (rt.retainRequest identity estimatedContextTokens routingText arrivedAt).1
  | .admitFront handle targetId dispatchedAt => (rt.admitFront handle targetId dispatchedAt).1
  | .cancelRequest handle => (rt.cancelRequest handle).getD rt
  | .completeRequest dispatch usage => (rt.completeRequest dispatch usage).getD rt
  | .pauseIdle reference => (rt.pauseIdle reference).getD rt
  | .activate reference targetId => (rt.activate reference targetId).getD rt
  | .releaseIdle reference now => (rt.releaseIdle reference now).getD rt
  | .pruneReleasedGenerations now retention => rt.pruneReleasedGenerations now retention
  | .invalidatePlacement reference removedTargets =>
    (rt.invalidatePlacement reference removedTargets).getD rt
  | .notifyFront reference => rt.notifyFront reference

/-- What an operation does to a request: it retains, dispatches or cancels one. -/
def notes (rt : ProgramRuntime) : RuntimeOp → List (QueueEvent ProgramRef Nat)
  | .retainRequest identity estimatedContextTokens routingText arrivedAt =>
    let handle := (rt.retainRequest identity estimatedContextTokens routingText arrivedAt).2
    [.arrived handle.program handle.requestId]
  | .admitFront handle targetId dispatchedAt =>
    ((rt.admitFront handle targetId dispatchedAt).2.map fun _ =>
      taken handle.program handle.requestId).toList
  | .cancelRequest handle =>
    ((rt.cancelRequest handle).map fun _ => cancelled handle.program handle.requestId).toList
  | _ => []

end ProgramRuntime

/-! ## The request pool -/

/-- The pool counts its requests and keeps no empty FIFO. -/
structure RequestPool.Counted (pool : RequestPool) : Prop where
  total : pool.retainedRequestCount = pool.requests.total length
  kept : ∀ r queue, pool.requests.lookup r = some queue → queue ≠ []

/-- The log explains the pool. -/
structure Fifo (pool : RequestPool) (log : List (QueueEvent ProgramRef Nat)) : Prop where
  history : QueueHistory (fun r => (pool.queue r).map PendingProgramRequest.id) log
  numbered : ∀ r, ∀ id ∈ arrivals log r, id ≤ pool.nextRequestId
  counted : pool.Counted

namespace RequestPool

lemma total_setQueue (pool : RequestPool) (p) (queue : List PendingProgramRequest) :
    (pool.setQueue p queue).requests.total length + (pool.queue p).length
      = pool.requests.total length + queue.length := by
  have hold : (pool.queue p).length = ((pool.requests.lookup p).map length).getD 0 := by
    unfold RequestPool.queue
    cases pool.requests.lookup p with
    | none => rfl
    | some => rfl
  unfold setQueue
  split
  · rename_i hnil
    rw [hold, hnil]
    exact pool.requests.total_erase length p
  · rw [hold]
    exact pool.requests.total_insert length p queue

lemma kept_setQueue {pool : RequestPool} (p queue)
    (h : ∀ r q, pool.requests.lookup r = some q → q ≠ []) :
    ∀ r q, (pool.setQueue p queue).requests.lookup r = some q → q ≠ [] := by
  intro r q hq
  unfold setQueue at hq
  split at hq
  · simp only [Dict.lookup_erase_eq] at hq
    split at hq
    · cases hq
    · exact h r q hq
  rename_i hnil
  simp only [Dict.lookup_insert_eq] at hq
  split at hq
  · cases hq
    exact hnil
  · exact h r q hq

/-- A FIFO of the same length. -/
lemma Counted.setQueue {pool : RequestPool} {queue : List PendingProgramRequest}
    (h : pool.Counted) (hlength : queue.length = (pool.queue p).length) :
    (pool.setQueue p queue).Counted where
  total := by
    have htotal := pool.total_setQueue p queue
    have hcount : (pool.setQueue p queue).retainedRequestCount = pool.retainedRequestCount := rfl
    rw [hcount, h.total]
    omega
  kept := kept_setQueue p queue h.kept

end RequestPool

namespace Fifo

variable {pool pool' : RequestPool} {log : List (QueueEvent ProgramRef Nat)}

lemma retain (h : Fifo pool log) (p arrivedAt tokens text hints) :
    Fifo (pool.retain p arrivedAt tokens text hints).1
      (log ++ [.arrived p (pool.nextRequestId + 1)]) where
  history := by
    refine h.history.arrive (fun hold => ?_) fun r => ?_
    · exact Nat.not_succ_le_self _ (h.numbered p _ hold)
    refine (congrArg (map PendingProgramRequest.id)
      (RequestPool.queue_setQueue pool p _ r)).trans ?_
    split
    · rw [map_append]
      rfl
    · rfl
  numbered := by
    intro r id hid
    show id ≤ pool.nextRequestId + 1
    rw [arrivals_arrived] at hid
    split at hid
    · rcases mem_append.1 hid with hold | hnew
      · exact (h.numbered r id hold).trans (Nat.le_succ _)
      · exact (mem_singleton.1 hnew).le
    · exact (h.numbered r id hid).trans (Nat.le_succ _)
  counted := by
    refine ⟨?_, RequestPool.kept_setQueue p _ h.counted.kept⟩
    have htotal := pool.total_setQueue p (pool.queue p ++ [⟨pool.nextRequestId + 1, arrivedAt,
      tokens, text, hints, false⟩])
    rw [length_append, length_singleton, ← h.counted.total] at htotal
    show pool.retainedRequestCount + 1 = Dict.total (pool.setQueue p _).requests length
    omega

lemma takeFront (h : Fifo pool log) (htake : pool.takeFront handle = some (pool', request)) :
    Fifo pool' (log ++ [.taken handle.program handle.requestId]) where
  history := by
    obtain ⟨rest, hfront, hid, hqueue, -⟩ := RequestPool.takeFront_eq_some htake
    refine h.history.take (rest.map PendingProgramRequest.id) ?_ fun r => ?_
    · rw [hfront, map_cons, hid]
    rw [hqueue]
    split
    · rfl
    · rfl
  numbered := by
    obtain ⟨-, -, -, -, hnext⟩ := RequestPool.takeFront_eq_some htake
    intro r id hid
    rw [arrivals_taken] at hid
    rw [hnext]
    exact h.numbered r id hid
  counted := by
    unfold RequestPool.takeFront at htake
    cases hqueue : pool.queue handle.program with
    | nil =>
      rw [hqueue] at htake
      cases htake
    | cons front rest =>
      have htotal := pool.total_setQueue handle.program rest
      rw [hqueue, length_cons, ← h.counted.total] at htotal
      rw [hqueue] at htake
      by_cases hid : front.id = handle.requestId
      · simp only [hid, ne_eq] at htake
        cases htake
        refine ⟨?_, RequestPool.kept_setQueue handle.program rest h.counted.kept⟩
        show pool.retainedRequestCount - 1 = Dict.total (pool.setQueue _ rest).requests length
        omega
      · simp only [ne_eq, hid] at htake
        cases htake

lemma cancel {handle : ProgramRequestHandle} {wasFront : Bool} (h : Fifo pool log)
    (hcancel : pool.cancel handle = some (pool', wasFront)) :
    Fifo pool' (log ++ [.cancelled handle.program handle.requestId]) where
  history := by
    obtain ⟨position, ⟨_, hget, hid⟩, -, hqueue, -⟩ := RequestPool.cancel_eq_some hcancel
    refine h.history.cancel position ?_ fun r => ?_
    · rw [getElem?_map, hget, Option.map_some, hid]
    rw [hqueue, eraseIdx_map]
    split
    · rfl
    · rfl
  numbered := by
    obtain ⟨-, -, -, -, hnext⟩ := RequestPool.cancel_eq_some hcancel
    intro r id hid
    rw [arrivals_cancelled] at hid
    rw [hnext]
    exact h.numbered r id hid
  counted := by
    unfold RequestPool.cancel at hcancel
    cases hposition : (pool.queue handle.program).findIdx? fun request =>
        decide (request.id = handle.requestId) with
    | none =>
      simp only [hposition] at hcancel
      cases hcancel
    | some position =>
      simp only [hposition] at hcancel
      cases hcancel
      obtain ⟨hlt, -⟩ := findIdx?_eq_some_iff_getElem.1 hposition
      have htotal := pool.total_setQueue handle.program
        ((pool.queue handle.program).eraseIdx position)
      rw [length_eraseIdx_of_lt hlt, ← h.counted.total] at htotal
      refine ⟨?_, RequestPool.kept_setQueue handle.program _ h.counted.kept⟩
      show pool.retainedRequestCount - 1 = Dict.total (pool.setQueue _ _).requests length
      omega

/-- A wakeup stores a permit. -/
lemma notifyFront (h : Fifo pool log) (p) : Fifo (pool.notifyFront p) log where
  history := by
    have hsame : (fun r => ((pool.notifyFront p).queue r).map PendingProgramRequest.id)
        = fun r => (pool.queue r).map PendingProgramRequest.id := by
      funext r
      rw [RequestPool.queue_notifyFront]
      split
      · rename_i hr
        rw [map_wakeFront fun _ _ => rfl, hr]
      · rfl
    rw [hsame]
    exact h.history
  numbered := by
    rw [RequestPool.nextRequestId_notifyFront]
    exact h.numbered
  counted := by
    unfold RequestPool.notifyFront
    cases hqueue : pool.queue p with
    | nil => exact h.counted
    | cons =>
      refine h.counted.setQueue ?_
      rw [hqueue]
      rfl

end Fifo

/-! ## The runtime -/

namespace ProgramRuntime

variable {rt : ProgramRuntime} {log : List (QueueEvent ProgramRef Nat)}

lemma fifo_retainRequest (h : Fifo rt.requestPool log) (identity tokens text arrivedAt) :
    Fifo (rt.retainRequest identity tokens text arrivedAt).1.requestPool
      (log ++ [.arrived
        (rt.retainRequest identity tokens text arrivedAt).2.program
        (rt.retainRequest identity tokens text arrivedAt).2.requestId]) := by
  have hpool : ((rt.keepGeneration identity.key).materialize identity
      tokens).1.requestPool = rt.requestPool := by
    unfold materialize
    split
    · rfl
    · rfl
  unfold retainRequest
  generalize (rt.keepGeneration identity.key).materialize identity tokens
    = materialized at hpool ⊢
  obtain ⟨rt1, p⟩ := materialized
  have hpool' : rt1.requestPool = rt.requestPool := hpool
  rw [← hpool'] at h
  exact h.retain p arrivedAt tokens text identity.requestHints

lemma fifo_admitFront (h : Fifo rt.requestPool log) (handle targetId dispatchedAt) :
    Fifo (rt.admitFront handle targetId dispatchedAt).1.requestPool
      (log ++ ((rt.admitFront handle targetId dispatchedAt).2.map fun _ =>
        taken handle.program handle.requestId).toList) := by
  -- a dispatch takes the front request and wakes the next one; else nothing is taken
  have hdispatch : ∀ (rt1 : ProgramRuntime) (P : RuntimeProgram) (starts : Bool),
      rt1.requestPool = rt.requestPool →
      Fifo (rt1.dispatchFront P handle targetId starts dispatchedAt).1.requestPool
        (log ++ ((rt1.dispatchFront P handle targetId starts dispatchedAt).2.map fun _ =>
          taken handle.program handle.requestId).toList) := by
    intro rt1 P _ hpool
    rw [← hpool] at h
    unfold dispatchFront
    cases htake : rt1.requestPool.takeFront handle with
    | none => exact (append_nil log).symm ▸ h
    | some => exact (h.takeFront htake).notifyFront P.reference
  unfold admitFront
  cases rt.program handle.program with
  | none => exact (append_nil log).symm ▸ h
  | some P =>
    by_cases helsewhere : P.state = .active ∧ P.placement ≠ some targetId
    · simp only [if_pos helsewhere]
      exact (append_nil log).symm ▸ h
    · simp only [if_neg helsewhere]
      exact hdispatch _ _ _ rfl

lemma requestPool_settleCancelled (rt : ProgramRuntime) (p) :
    (rt.settleCancelled p).requestPool = rt.requestPool := by
  unfold settleCancelled
  split
  · rfl
  split
  · rfl
  · rfl

lemma fifo_cancelRequest (h : Fifo rt.requestPool log) (handle : ProgramRequestHandle) :
    Fifo ((rt.cancelRequest handle).getD rt).requestPool
      (log ++ ((rt.cancelRequest handle).map fun _ =>
        cancelled handle.program handle.requestId).toList) := by
  unfold cancelRequest
  cases hcancel : rt.requestPool.cancel handle with
  | none => exact (append_nil log).symm ▸ h
  | some cancelled =>
    obtain ⟨_, wasFront⟩ := cancelled
    have hcancelled := h.cancel hcancel
    simp only [Option.getD_some]
    rw [requestPool_settleCancelled]
    cases wasFront with
    | true => exact hcancelled.notifyFront handle.program
    | false => exact hcancelled

/-- What one operation does to the requests is what it logs. -/
lemma fifo_perform (h : Fifo rt.requestPool log) (op) :
    Fifo (rt.perform op).requestPool (log ++ rt.notes op) := by
  have hquiet : ∀ rt' : ProgramRuntime, rt'.requestPool = rt.requestPool →
      Fifo rt'.requestPool (log ++ []) := by
    intro _ hpool
    rw [hpool, append_nil]
    exact h
  cases op with
  | retainRequest identity tokens text arrivedAt =>
    exact fifo_retainRequest h identity tokens text arrivedAt
  | admitFront handle targetId dispatchedAt => exact fifo_admitFront h handle targetId dispatchedAt
  | cancelRequest handle => exact fifo_cancelRequest h handle
  | pruneReleasedGenerations => exact hquiet _ rfl
  | completeRequest
  | pauseIdle
  | activate
  | releaseIdle
  | invalidatePlacement =>
    -- these leave the requests where they are
    refine hquiet _ ?_
    simp only [perform, completeRequest, pauseIdle, activate, releaseIdle, invalidatePlacement]
    split
    · rfl
    split
    · rfl
    · rfl
  | notifyFront reference => exact (append_nil log).symm ▸ h.notifyFront reference

lemma fifo_default : Fifo default.requestPool [] where
  history := QueueHistory.empty
  numbered := fun _ _ h => absurd h not_mem_nil
  counted := ⟨rfl, fun r queue h => by cases h⟩

end ProgramRuntime

/-- The runtime after a sequence of operations. -/
def runtimeAfter (ops : List RuntimeOp) : ProgramRuntime :=
  ops.foldl perform .default

/-- What a sequence of operations did to requests. -/
def requestLog (ops : List RuntimeOp) : List (QueueEvent ProgramRef Nat) :=
  runLog perform notes .default ops

/-- After every sequence of operations:
- the requests of a generation that arrived and were not cancelled are, in the
  order of arrival, those that were dispatched followed by those that wait;
- a request that arrived waits, was dispatched or was cancelled, one of these
  and once; any other request did none of it;
- the pool counts the requests of its FIFOs and keeps no empty one. -/
theorem runtimeAfter_fifo (ops : List RuntimeOp) : (∀ r, (arrivals (requestLog ops) r).filter
          (fun id => decide (id ∉ cancellations (requestLog ops) r)) = takings (requestLog ops) r
          ++ ((runtimeAfter ops).requestPool.queue r).map PendingProgramRequest.id) ∧
    (∀ r id, (((runtimeAfter ops).requestPool.queue r).map PendingProgramRequest.id).count id
          + (takings (requestLog ops) r).count id + (cancellations (requestLog ops) r).count id
        = (arrivals (requestLog ops) r).count id ∧ (arrivals (requestLog ops) r).count id ≤ 1) ∧
    (runtimeAfter ops).requestPool.retainedRequestCount
        = (runtimeAfter ops).requestPool.requests.total length ∧
    ∀ r queue, (runtimeAfter ops).requestPool.requests.lookup r = some queue → queue ≠ [] := by
  have hfifo : Fifo (runtimeAfter ops).requestPool ([] ++ requestLog ops) :=
    foldl_logged (I := fun (rt : ProgramRuntime) log => Fifo rt.requestPool log)
      (fun rt log op h => fifo_perform h op) ops default []
      fifo_default
  rw [nil_append] at hfifo
  exact ⟨fun r => (hfifo.history r).order, fun r => (hfifo.history r).fate, hfifo.counted.total,
    hfifo.counted.kept⟩

end VllmRouter.ProgramScheduling
