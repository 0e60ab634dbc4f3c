import VllmRouter.ProgramScheduling.Domain

/-!
# Retained requests (`program_scheduling/request_pool.rs`)

Per-Program FIFOs of the requests that wait for admission. The pool selects
nothing and decides no transition. A request carries the permit of its
notifier: `notifyFront` stores it, the waiter consumes it. Request ids wrap at
`2 ^ 64` in the source and are unbounded here: the two agree as long as fewer than
`2 ^ 64` requests were retained.
-/

namespace VllmRouter.ProgramScheduling

/-- Stable handle for one retained request attempt. -/
structure ProgramRequestHandle where
  program : ProgramRef
  requestId : Nat
deriving DecidableEq, Repr

/-- Request data retained while admission is blocked. -/
structure PendingProgramRequest where
  id : Nat
  arrivedAt : Instant
  estimatedContextTokens : Nat
  routingText : Option String
  hints : ProgramRequestHints
  permit : Bool
deriving DecidableEq, Repr

/-- Program-scoped FIFO request storage. -/
structure RequestPool where
  requests : Dict ProgramRef (List PendingProgramRequest)
  nextRequestId : Nat
  retainedRequestCount : Nat

namespace RequestPool

def default : RequestPool := ⟨∅, 0, 0⟩

variable (pool : RequestPool)

/-- The FIFO of one Program generation. -/
def queue (program : ProgramRef) : List PendingProgramRequest :=
  (pool.requests.lookup program).getD []

/-- Replace a FIFO; an empty one is not kept. -/
def setQueue (program : ProgramRef) (queue : List PendingProgramRequest) : RequestPool :=
  { pool with
    requests := if queue = [] then pool.requests.erase program
      else pool.requests.insert program queue }

/-- Insert a request at the tail of its exact Program generation. -/
def retain (program : ProgramRef) (arrivedAt : Instant) (estimatedContextTokens : Nat)
    (routingText : Option String) (hints : ProgramRequestHints) :
    RequestPool × ProgramRequestHandle :=
  let requestId := pool.nextRequestId + 1
  let request := ⟨requestId, arrivedAt, estimatedContextTokens, routingText, hints, false⟩
  let pool := pool.setQueue program (pool.queue program ++ [request])
  ({ pool with
      nextRequestId := requestId
      retainedRequestCount := pool.retainedRequestCount + 1 },
    ⟨program, requestId⟩)

/-- Remove and return the front request named by `handle`. -/
def takeFront (handle : ProgramRequestHandle) : Option (RequestPool × PendingProgramRequest) :=
  match pool.queue handle.program with
  | [] => none
  | front :: rest =>
    if front.id ≠ handle.requestId then none
    else
      let pool := pool.setQueue handle.program rest
      some ({ pool with retainedRequestCount := pool.retainedRequestCount - 1 }, front)

/-- Cancel one request regardless of its position in the FIFO. Returns whether
it was the front request. -/
def cancel (handle : ProgramRequestHandle) : Option (RequestPool × Bool) :=
  let queue := pool.queue handle.program
  match queue.findIdx? fun request => decide (request.id = handle.requestId) with
  | none => none
  | some position =>
    let pool := pool.setQueue handle.program (queue.eraseIdx position)
    some ({ pool with retainedRequestCount := pool.retainedRequestCount - 1 },
      decide (position = 0))

/-- Wake the front retained request of one Program generation. -/
def notifyFront (program : ProgramRef) : RequestPool :=
  match pool.queue program with
  | [] => pool
  | front :: rest => pool.setQueue program ({ front with permit := true } :: rest)

/-- Number of retained requests of an exact Program generation. -/
def programLen (program : ProgramRef) : Nat := (pool.queue program).length

/-- Request-scoped hints of the front request. -/
def frontHints (program : ProgramRef) : Option ProgramRequestHints :=
  (pool.queue program).head?.map PendingProgramRequest.hints

end RequestPool

end VllmRouter.ProgramScheduling
