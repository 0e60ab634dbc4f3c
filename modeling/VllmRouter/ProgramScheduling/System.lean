import VllmRouter.ProgramScheduling.Targets

/-!
# The scheduler as a system (`program_scheduling/scheduler_admission.rs`)

The lock sections of `acquire_synced` and its cleanup guard, and the system
they form with completions, ticks, observations and target synchronization.

- One `Action` is one lock section. A run is any sequence of actions, so it
  interleaves any number of `acquire` calls in any way; an action that the
  system cannot take (a call that has returned, a clock that runs backwards)
  leaves it unchanged.
- `acquire` and `acquire_from_snapshot` are a `sync` followed by an `acquire`
  action. A synchronization of several snapshots is a sequence of `sync`s.
- An `AcquireCall` is one call of `acquire_synced` with the point it has
  reached. The cleanup guard exists from the first `claiming` on.
-/

namespace VllmRouter.ProgramScheduling

namespace ProgramScheduler

variable (self : ProgramScheduler)

/-! ## Retention -/

variable (env : Env) (s : ProgramSchedulerState)

/-- Sample the interval since the last completion of an idle Program. -/
def recordContinuity (program : ProgramRef) (arrivedAt : Instant) : ProgramSchedulerState :=
  match s.runtime.view program, s.decisions.lookup program with
  | some runtime, some decision =>
    match decision.lastRequestFinishedAt, decision.lastTarget with
    | some finishedAt, some targetId =>
      if runtime.inFlightRequests = 0 then
        s.modifyFactors targetId fun factors =>
          factors.pushContinuity
            { intervalSeconds := (arrivedAt.saturatingDurationSince finishedAt).asSecsF64
              cacheMissImpactSeconds := decision.lastCacheMissImpactSeconds }
            self.config.progressTtl.statsWindowSize
      else s
    | _, _ => s
  | _, _ => s

/-- The queue in which a Program waits for `targetId`. -/
def waitingQueue (program : ProgramRef) (targetId : TargetId) : List ProgramRef :=
  if self.config.globalQueue then (s.globalQueues.lookup program.modelPool).getD []
  else (s.rankQueues.lookup targetId).getD []

/-- Enter that queue, unless the Program is already there. -/
def enqueueOnce (program : ProgramRef) (targetId : TargetId) : ProgramSchedulerState :=
  if program ∈ self.waitingQueue s program targetId then s
  else if self.config.globalQueue then s.enqueueGlobal program
  else s.enqueueRank program targetId

/-- A Program that waits already keeps the instant it was queued at. -/
def queuedSince (arrivedAt : Instant) (decision : ProgramDecisionState) : ProgramDecisionState :=
  { decision with queuedAt := decision.queuedAt.or (some arrivedAt) }

/-- Queue an arrival that waits for `targetId`, once, with a new deadline. -/
def queueArrival (program : ProgramRef) (targetId : TargetId) (arrivedAt : Instant) :
    ProgramSchedulerState :=
  self.setForceResumeDeadline env
    ((self.enqueueOnce s program targetId).modifyDecision program (queuedSince arrivedAt))
    targetId program arrivedAt

def activateBindingOnly (program : ProgramRef) (now : Instant) : ProgramSchedulerState :=
  if (s.runtime.view program).any fun view => decide (view.state = .active) then
    { s with runtime := s.runtime.notifyFront program }
  else
    match (s.decisions.lookup program).bind ProgramDecisionState.lastTarget with
    | none => s
    | some targetId => (self.commitAdmission s program targetId now).getD s

/-- Account the growth of a Program that an arrival finds on a placement. A
Program that is marked to pause, or that shrinks, is not accounted. -/
def accountGrowth (program : ProgramRef) (placement : TargetId) (previousTokens : Rat) :
    ProgramSchedulerState :=
  let currentTokens := self.tokensOf (s.decisionAt program)
  if !(s.decisionAt program).pauseWhenIdle && decide (previousTokens < currentTokens) then
    s.adjustUsage placement (currentTokens - previousTokens)
  else s

/-- The scheduling decisions that follow an arrival. -/
def runArrival (program : ProgramRef) (arrivedAt now : Instant) : ProgramSchedulerState :=
  if self.config.bindingOnly then self.activateBindingOnly s program now
  else self.runRequestArrivalDecisions env s arrivedAt

/-- Retain the request and refresh the decision of its Program. -/
def arrive (identity : ProgramIdentity) (estimatedContextTokens : Nat) (routingText : Option String)
    (arrivedAt : Instant) : ProgramSchedulerState × ProgramRequestHandle :=
  let (runtime, handle) :=
    s.runtime.retainRequest identity estimatedContextTokens routingText arrivedAt
  let s := self.recordContinuity { s with runtime := runtime } handle.program arrivedAt
  (self.ensureDecisionState env s identity handle.program estimatedContextTokens arrivedAt
    routingText, handle)

/-- Account an arrival on a placement or queue it. A Program without a target
ends the call with an error, and its request stays retained. -/
def placeArrival (program : ProgramRef) (previousTokens : Rat) (arrivedAt : Instant) :
    Except ScheduleError ProgramSchedulerState :=
  match s.runtime.placement program with
  | some placement => .ok (self.accountGrowth s program placement previousTokens)
  | none =>
    match (s.decisionAt program).lastTarget with
    | none => .error .noTargets
    | some targetId => .ok (self.queueArrival env s program targetId arrivedAt)

/-- The first lock section of `acquire_synced`: retain the request, refresh the
decision, account or queue the arrival, and decide. -/
def acquireRetain (identity : ProgramIdentity) (estimatedContextTokens : Nat)
    (routingText : Option String) (arrivedAt now : Instant) :
    ProgramSchedulerState × ProgramRequestHandle × Option ScheduleError :=
  let (arrived, handle) := self.arrive env s identity estimatedContextTokens routingText arrivedAt
  let previousTokens := ((s.decisions.lookup handle.program).map self.tokensOf).getD 0
  match self.placeArrival env arrived handle.program previousTokens arrivedAt with
  | .error error => (arrived, handle, some error)
  | .ok placed => (self.runArrival env placed handle.program arrivedAt now, handle, none)

/-! ## Claim and cancellation -/

/-- Claim the dispatch of a request whose Program has a placement. -/
def claimDispatch (handle : ProgramRequestHandle) (now : Instant) :
    ProgramSchedulerState × Option ProgramDispatch :=
  match s.runtime.placement handle.program with
  | none => (s, none)
  | some target =>
    let (runtime, dispatch) := s.runtime.admitFront handle target now
    ({ s with runtime := runtime }, dispatch)

/-- The decision of an active Program whose last request was cancelled. -/
def cancelledDecision (now : Instant) (decision : ProgramDecisionState) : ProgramDecisionState :=
  { decision with
    pausedAt := some now
    lastPauseReason := some .requestCancelled
    roundsSinceActivation := 0
    pauseWhenIdle := false }.restartSharedPrefixFreshness now

/-- Take back the capacity of a Program that the cancellation paused. -/
def settleCancellation (program : ProgramRef) (before : Option RuntimeProgramView) (now : Instant) :
    ProgramSchedulerState :=
  match before, s.runtime.view program, s.decisions.lookup program with
  | some before, some after, some decision =>
    match decision.lastTarget with
    | none => s
    | some targetId =>
      if before.state = .active ∧ after.state = .paused then
        (s.adjustUsage targetId (-self.tokensOf decision)).modifyDecision program
          (cancelledDecision now)
      else s
  | _, _, _ => s

/-- Leave the queues when nothing waits, and the scheduler when nothing ran. -/
def dropUnstarted (program : ProgramRef) (now : Instant) : ProgramSchedulerState :=
  let view := s.runtime.view program
  let s := if view.any fun view => decide (0 < view.waitingRequests) then s
    else s.dequeue program
  let removeUnstarted := (view.any fun view =>
      decide (view.inFlightRequests = 0 ∧ view.waitingRequests = 0)) &&
    (s.decisions.lookup program).any fun decision => decide (decision.completedRequests = 0)
  if removeUnstarted then self.releaseProgram s program now else s

/-- Cancel a retained request, whatever its position in the FIFO. -/
def cancelRetainedRequest (handle : ProgramRequestHandle) (now : Instant) : ProgramSchedulerState :=
  match s.runtime.cancelRequest handle with
  | none => s
  | some runtime =>
    let before := s.runtime.view handle.program
    let s := { s with runtime := runtime }
    let s := self.settleCancellation s handle.program before now
    let s := self.dropUnstarted s handle.program now
    self.scheduleWaiting env s now

end ProgramScheduler

/-! ## Calls -/

/-- The point a call of `acquire_synced` has reached. -/
inductive CallPhase where
  /-- Before a claim. -/
  | claiming
  /-- After a claim that found nothing. -/
  | checking
  /-- Waiting for the permit of the request until an instant. -/
  | waiting (wakeAt : Instant)
  | returned (result : Except ScheduleError ProgramDispatch)
  | dropped

/-- One call of `acquire_synced`. A call without a handle returned before it
retained a request. -/
structure AcquireCall where
  handle : Option ProgramRequestHandle
  deadline : Instant
  phase : CallPhase

/-- The call has not returned and its future is alive. -/
def AcquireCall.live (call : AcquireCall) : Bool :=
  match call.phase with
  | .claiming | .checking | .waiting _ => true
  | .returned _ | .dropped => false

/-- The call returned an error or its future was dropped. -/
def AcquireCall.failed (call : AcquireCall) : Bool :=
  match call.phase with
  | .returned (.error _) | .dropped => true
  | .returned (.ok _) | .claiming | .checking | .waiting _ => false

/-- The scheduler with its callers. Calls, dispatches and observation epochs
are numbered in the order in which they were created. -/
structure System where
  state : ProgramSchedulerState
  calls : List AcquireCall
  dispatches : List ProgramDispatch
  epochs : List BackendObservationEpoch
  clock : Instant

/-- One lock section. -/
inductive Action where
  | sync (env : Env) (modelPool : ModelPool) (targets : TargetSnapshot)
  | acquire (env : Env) (identity : ProgramIdentity) (estimatedContextTokens : Nat)
      (targets : List ProgramTarget) (routingText : Option String) (arrivedAt : Instant)
  /-- Try to claim the dispatch. -/
  | claim (call : Nat)
  /-- Return `QueueTimeout` after the deadline, else arm the next wait. -/
  | check (env : Env) (call : Nat)
  /-- The wait ends with the permit of the request. -/
  | notified (call : Nat)
  /-- The wait ends by its timer. -/
  | elapsed (env : Env) (call : Nat)
  /-- The future of the call is dropped. -/
  | drop (env : Env) (call : Nat)
  | complete (env : Env) (dispatch : Nat) (success terminate : Bool)
      (usage : ProgramUsageObservation) (decodeSeconds : Option Rat)
  | tick (env : Env)
  | beginObservation (env : Env) (targets : List ProgramTarget)
  | applyObservations (epoch : Nat) (observations : List BackendObservation)

namespace System

def empty (config : ProgramSchedulerConfig) : System :=
  ⟨ProgramSchedulerState.new config, [], [], [], 0⟩

def setPhase (sys : System) (call : Nat) (phase : CallPhase) : System :=
  { sys with calls := sys.calls.modify call fun c => { c with phase := phase } }

variable (self : ProgramScheduler)

/-- A call that passed its own target list; an empty one is refused before
anything is retained. -/
def acquire (sys : System) (env : Env) (identity : ProgramIdentity)
    (estimatedContextTokens : Nat) (targets : List ProgramTarget) (routingText : Option String)
    (arrivedAt now : Instant) : System :=
  let deadline := arrivedAt + self.config.queueTimeout
  if targets = [] then
    { sys with calls := sys.calls ++ [⟨none, deadline, .returned (.error .noTargets)⟩] }
  else
    let (state, handle, error) := self.acquireRetain env sys.state identity
      estimatedContextTokens routingText arrivedAt now
    let phase := match error with
      | some error => .returned (.error error)
      | none => .claiming
    { sys with state := state, calls := sys.calls ++ [⟨some handle, deadline, phase⟩] }

/-- A request without its permit, if it is the one named. -/
def dropPermit (requestId : Nat) (request : PendingProgramRequest) : PendingProgramRequest :=
  if request.id = requestId then { request with permit := false } else request

/-- The permit of a request that is still retained is taken. -/
def takePermit (s : ProgramSchedulerState) (handle : ProgramRequestHandle) :
    Option ProgramSchedulerState :=
  if (s.runtime.requestPool.queue handle.program).any fun request =>
      decide (request.id = handle.requestId) && request.permit then
    let pool := s.runtime.requestPool.setQueue handle.program
      ((s.runtime.requestPool.queue handle.program).map (dropPermit handle.requestId))
    some { s with runtime := { s.runtime with requestPool := pool } }
  else none

variable (sys : System)

/-- A section of a live call that holds a request. -/
def callStep (call : Nat)
    (body : AcquireCall → ProgramRequestHandle → System) : System :=
  match sys.calls[call]? with
  | none => sys
  | some c =>
    match c.handle with
    | none => sys
    | some handle => if c.live then body c handle else sys

def claim (call : Nat) (now : Instant) : System :=
  sys.callStep call fun c handle =>
    match c.phase with
    | .claiming =>
      match ProgramScheduler.claimDispatch sys.state handle now with
      | (state, some dispatch) =>
        { (sys.setPhase call (.returned (.ok dispatch))) with
          state := state, dispatches := sys.dispatches ++ [dispatch] }
      | (state, none) => { (sys.setPhase call .checking) with state := state }
    | _ => sys

/-- Run the cleanup guard of a call and end it. -/
def failCall (env : Env) (call : Nat) (handle : ProgramRequestHandle)
    (phase : CallPhase) (now : Instant) : System :=
  { (sys.setPhase call phase) with
    state := self.cancelRetainedRequest env sys.state handle now }

def check (env : Env) (call : Nat) (now : Instant) : System :=
  sys.callStep call fun c handle =>
    match c.phase with
    | .checking =>
      if c.deadline ≤ now then
        sys.failCall self env call handle (.returned (.error .queueTimeout)) now
      else
        let forceDeadline := (sys.state.decisions.lookup handle.program).bind
          ProgramDecisionState.forceResumeDeadline
        sys.setPhase call (.waiting (match forceDeadline with
          | some force => min force c.deadline
          | none => c.deadline))
    | _ => sys

def notified (call : Nat) : System :=
  sys.callStep call fun c handle =>
    match c.phase with
    | .waiting _ =>
      match takePermit sys.state handle with
      | some state => { (sys.setPhase call .claiming) with state := state }
      | none => sys
    | _ => sys

def elapsed (env : Env) (call : Nat) (now : Instant) : System :=
  sys.callStep call fun c _ =>
    match c.phase with
    | .waiting wakeAt =>
      if wakeAt ≤ now then
        { (sys.setPhase call .claiming) with
          state := self.runRequestArrivalDecisions env sys.state now }
      else sys
    | _ => sys

def drop (env : Env) (call : Nat) (now : Instant) : System :=
  sys.callStep call fun _ handle => sys.failCall self env call handle .dropped now

def complete (env : Env) (dispatch : Nat) (success terminate : Bool)
    (usage : ProgramUsageObservation) (decodeSeconds : Option Rat) (now : Instant) : System :=
  match sys.dispatches[dispatch]? with
  | none => sys
  | some dispatch =>
    { sys with
      state := self.complete env sys.state dispatch success terminate usage decodeSeconds now }

def applyObservations (epoch : Nat) (observations : List BackendObservation) : System :=
  match sys.epochs[epoch]? with
  | none => sys
  | some epoch => { sys with state := self.applyObservations sys.state epoch observations }

/-- The section of an action, at a clock reading. -/
def perform (now : Instant) : Action → System
  | .sync env modelPool targets =>
    { sys with state := self.syncTargetSnapshotLocked env sys.state modelPool targets now }
  | .acquire env identity estimatedContextTokens targets routingText arrivedAt =>
    if arrivedAt ≤ now then
      sys.acquire self env identity estimatedContextTokens targets routingText arrivedAt now
    else sys
  | .claim call => sys.claim call now
  | .check env call => sys.check self env call now
  | .notified call => sys.notified call
  | .elapsed env call => sys.elapsed self env call now
  | .drop env call => sys.drop self env call now
  | .complete env dispatch success terminate usage decodeSeconds =>
    sys.complete self env dispatch success terminate usage decodeSeconds now
  | .tick env => { sys with state := self.tick env sys.state now }
  | .beginObservation env targets =>
    { sys with epochs := sys.epochs ++ [self.beginObservation env sys.state targets] }
  | .applyObservations epoch observations => sys.applyObservations self epoch observations

/-- One action at a clock reading; the clock does not run backwards. -/
def step (event : Instant × Action) : System :=
  if sys.clock ≤ event.1 then { (sys.perform self event.1 event.2) with clock := event.1 } else sys

/-- A run: the actions with the clock readings at which they happened. -/
def run (events : List (Instant × Action)) : System :=
  events.foldl (step self) sys

end System

end VllmRouter.ProgramScheduling
