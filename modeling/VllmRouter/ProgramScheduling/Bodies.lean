import VllmRouter.ProgramScheduling.Admissions

/-!
# A lock section and the decisions that follow it

Every lock section first does what it is for and then, in the same section, runs
one of the decision sequences of the source. `System.body` separates the two: the
state in which the sequence starts, and which one it is. `perform_state` says that
running the `FollowUp` from there is the section.

What a section reads or admits in the middle is stated over this decomposition:
`FollowUp.start` is the state in which the scheduling loops begin.
-/

namespace VllmRouter.ProgramScheduling

open ProgramScheduler

/-- The decision sequence at the end of a lock section. -/
inductive FollowUp where
  | nothing
  /-- `schedule_waiting` after a cancellation. -/
  | waiting (env : Env) (now : Instant)
  /-- `run_request_arrival_decisions`. -/
  | arrival (env : Env) (now : Instant)
  /-- `run_periodic_decisions` after a completion. -/
  | periodic (env : Env) (now : Instant)
  | tick (env : Env) (now : Instant)
  /-- The activation of an arrival with binding only. -/
  | activation (program : ProgramRef) (now : Instant)

/-- A run of the scheduling loops: the state in which it starts. -/
structure Scheduling where
  env : Env
  start : ProgramSchedulerState
  now : Instant

variable {followUp : FollowUp} {s : ProgramSchedulerState}

variable {handle : ProgramRequestHandle}

namespace ProgramScheduler

variable (self : ProgramScheduler)

/-- Run the decision sequence. -/
def follow (s : ProgramSchedulerState) : FollowUp → ProgramSchedulerState
  | .nothing => s
  | .waiting env now => self.scheduleWaiting env s now
  | .arrival env now => self.runRequestArrivalDecisions env s now
  | .periodic env now => self.runPeriodicDecisions env s now
  | .tick env now => self.tick env s now
  | .activation program now => self.activateBindingOnly s program now

/-- The state in which the periodic sequence starts to admit. -/
def periodicSettled (env : Env) (s : ProgramSchedulerState) (now : Instant) :
    ProgramSchedulerState :=
  self.repairCapacity env (self.deadlinesSettled env s now) now

/-- Where the scheduling loops of a sequence start, when it has them. -/
def scheduling (s : ProgramSchedulerState) : FollowUp → Option Scheduling
  | .nothing => none
  | .waiting env now => some ⟨env, s, now⟩
  | .arrival env now => some ⟨env, self.arrivalSettled env s now, now⟩
  | .periodic env now | .tick env now =>
    if self.config.bindingOnly then none else some ⟨env, self.periodicSettled env s now, now⟩
  | .activation _ _ => none

variable {scheduling : Scheduling}

lemma periodicSettled_settles (env s now) :
    self.Settles s (self.periodicSettled env s now) :=
  (self.deadlinesSettled_settles env s now).trans (self.repairCapacity_settles env _ now)

/-- Before its scheduling loops a sequence admits nothing. -/
lemma scheduling_settles (h : self.scheduling s followUp = some scheduling) :
    self.Settles s scheduling.start := by
  cases followUp with
  | nothing
  | activation => cases h
  | waiting =>
    cases h
    exact .refl s
  | arrival env now =>
    cases h
    exact self.arrivalSettled_settles env s now
  | periodic env now
  | tick env now =>
    simp only [ProgramScheduler.scheduling] at h
    split at h
    · cases h
    · cases h
      exact self.periodicSettled_settles env s now

/-- A sequence with scheduling loops ends with them; a tick then reports. -/
lemma follow_scheduling (h : self.scheduling s followUp = some scheduling) :
    self.Settles (self.scheduleWaiting scheduling.env scheduling.start scheduling.now)
      (self.follow s followUp) := by
  cases followUp with
  | nothing => cases h
  | waiting =>
    cases h
    exact .refl _
  | arrival =>
    cases h
    exact .refl _
  | periodic env now =>
    simp only [ProgramScheduler.scheduling] at h
    split at h
    · cases h
    rename_i hbinding
    cases h
    show self.Settles _ (self.runPeriodicDecisions env s now)
    rw [runPeriodicDecisions_eq, if_neg hbinding]
    exact .refl _
  | tick env now =>
    simp only [ProgramScheduler.scheduling] at h
    split at h
    · cases h
    rename_i hbinding
    cases h
    show self.Settles _ (self.reportCapacityAccountingTransitions
      (self.runPeriodicDecisions env s now) now)
    rw [runPeriodicDecisions_eq, if_neg hbinding]
    exact self.reportCapacityAccountingTransitions_settles _ now
  | activation => cases h

/-- A sequence without scheduling loops admits nothing, but for an activation. -/
lemma follow_settles (h : self.scheduling s followUp = none)
    (hactivation : ∀ p now, followUp ≠ .activation p now) :
    self.Settles s (self.follow s followUp) := by
  cases followUp with
  | nothing => exact .refl s
  | waiting => cases h
  | arrival => cases h
  | periodic env now =>
    simp only [scheduling] at h
    split at h
    · rename_i hbinding
      show self.Settles _ (self.runPeriodicDecisions env s now)
      rw [runPeriodicDecisions_eq, if_pos hbinding]
      exact self.deadlinesSettled_settles env s now
    · cases h
  | tick env now =>
    simp only [scheduling] at h
    split at h
    · rename_i hbinding
      show self.Settles _ (self.reportCapacityAccountingTransitions
        (self.runPeriodicDecisions env s now) now)
      rw [runPeriodicDecisions_eq, if_pos hbinding]
      exact (self.deadlinesSettled_settles env s now).trans
        (self.reportCapacityAccountingTransitions_settles _ now)
    · cases h
  | activation p now => exact absurd rfl (hactivation p now)

/-- The admissions of a decision sequence. -/
def followAdmissions (s : ProgramSchedulerState) (followUp : FollowUp) : List Admission :=
  match followUp with
  | .activation program now => self.activationAdmissions s program now
  | followUp =>
    match self.scheduling s followUp with
    | none => []
    | some scheduling => self.waitingAdmissions scheduling.env scheduling.start scheduling.now

/-- A decision sequence admits what it lists. -/
lemma follow_admits (s followUp)
    (hactivation : ∀ p now, followUp = .activation p now → self.config.bindingOnly = true) :
    self.Admits s (self.followAdmissions s followUp) (self.follow s followUp) := by
  by_cases hloops : ∃ p now, followUp = .activation p now
  · obtain ⟨p, now, rfl⟩ := hloops
    exact self.activateBindingOnly_admits s p now (hactivation p now rfl)
  have hne : ∀ p now, followUp ≠ .activation p now := fun p now h => hloops ⟨p, now, h⟩
  have hadmissions : self.followAdmissions s followUp = match self.scheduling s followUp with
        | none => []
        | some scheduling =>
          self.waitingAdmissions scheduling.env scheduling.start scheduling.now := by
    cases followUp with
    | activation p now => exact absurd rfl (hne p now)
    | _ => rfl
  rw [hadmissions]
  cases hscheduling : self.scheduling s followUp with
  | none => exact Admits.settles (self.follow_settles hscheduling hne)
  | some scheduling =>
    have hbefore := Admits.settles (self.scheduling_settles hscheduling)
    have hloop := self.scheduleWaiting_admits scheduling.env scheduling.start scheduling.now
    have hafter := Admits.settles (self.follow_scheduling hscheduling)
    simpa using (hbefore.trans hloop).trans hafter

/-! ## The sections of the source -/

/-- A cancellation up to the scheduling that follows it; `none` when the request
is not retained. -/
def cancelBody (s : ProgramSchedulerState) (handle : ProgramRequestHandle) (now : Instant) :
    Option ProgramSchedulerState :=
  (s.runtime.cancelRequest handle).map fun runtime =>
    self.dropUnstarted (self.settleCancellation { s with runtime := runtime } handle.program
      (s.runtime.view handle.program) now) handle.program now

lemma cancelRetainedRequest_none (env) {now : Instant} (h : self.cancelBody s handle now = none) :
    self.cancelRetainedRequest env s handle now = s := by
  unfold cancelRetainedRequest
  rw [Option.map_eq_none_iff.1 h]

lemma cancelRetainedRequest_some {s' : ProgramSchedulerState} (env) {now : Instant}
    (h : self.cancelBody s handle now = some s') :
    self.cancelRetainedRequest env s handle now = self.scheduleWaiting env s' now := by
  obtain ⟨rt, hrt, rfl⟩ := Option.map_eq_some_iff.1 h
  unfold cancelRetainedRequest
  rw [hrt]

variable (env : Env) (s : ProgramSchedulerState) (dispatch : ProgramDispatch)
  (success terminate : Bool) (usage : ProgramUsageObservation) (decodeSeconds : Option Rat)
  (now : Instant)

/-- A completion up to the periodic decisions; `none` when it is refused. -/
def completeBody : Option ProgramSchedulerState :=
  match s.runtime.view dispatch.program, s.decisions.lookup dispatch.program with
  | some runtimeBefore, some decisionBefore =>
    if runtimeBefore.placement ≠ some dispatch.targetId then none
    else
      (s.runtime.completeRequest dispatch usage).map fun runtime =>
        let s' := self.settleCompletion { s with runtime := runtime }
          (self.completionFacts env s dispatch decisionBefore success usage decodeSeconds now)
          (self.tokensOf decisionBefore) terminate
        if self.config.bindingOnly then s'
        else self.yieldCompletedSegment env s' dispatch.program now
  | _, _ => none

lemma complete_eq : self.complete env s dispatch success terminate usage decodeSeconds now
      = ((self.completeBody env s dispatch success terminate usage decodeSeconds now).map
          fun s' => self.runPeriodicDecisions env s' now).getD s := by
  unfold complete completeBody
  cases s.runtime.view dispatch.program with
  | none => rfl
  | some =>
    cases s.decisions.lookup dispatch.program with
    | none => rfl
    | some =>
      simp only
      split
      · rfl
      cases s.runtime.completeRequest dispatch usage with
      | none => rfl
      | some => rfl

/-- A retention up to the decisions of the arrival. -/
def acquireBody (env : Env) (s : ProgramSchedulerState) (identity : ProgramIdentity)
    (estimatedContextTokens : Nat) (routingText : Option String) (arrivedAt : Instant) :
    ProgramSchedulerState × ProgramRequestHandle × Option ScheduleError :=
  let (arrived, handle) := self.arrive env s identity estimatedContextTokens routingText arrivedAt
  let previousTokens := ((s.decisions.lookup handle.program).map self.tokensOf).getD 0
  match self.placeArrival env arrived handle.program previousTokens arrivedAt with
  | .error error => (arrived, handle, some error)
  | .ok placed => (placed, handle, none)

/-- What follows a retention: the decisions of an arrival, or nothing when the
call ends with an error. -/
def arrivalFollowUp (env : Env) (program : ProgramRef) (arrivedAt now : Instant) :
    Option ScheduleError → FollowUp
  | some _ => .nothing
  | none => if self.config.bindingOnly then .activation program now else .arrival env arrivedAt

/-- Only with binding only is an arrival activated at once. -/
lemma arrivalFollowUp_activation {env : Env} {p q : ProgramRef} {arrivedAt now : Instant}
    {error : Option ScheduleError}
    (h : self.arrivalFollowUp env p arrivedAt now error = .activation q now') :
    self.config.bindingOnly = true := by
  unfold arrivalFollowUp at h
  split at h
  · cases h
  split at h
  · assumption
  · cases h

lemma acquireRetain_eq (env s identity tokens text arrivedAt now) :
    self.acquireRetain env s identity tokens text arrivedAt now
      = let body := self.acquireBody env s identity tokens text arrivedAt
        (self.follow body.1 (self.arrivalFollowUp env body.2.1.program arrivedAt now body.2.2),
          body.2) := by
  unfold acquireRetain acquireBody
  simp only
  generalize self.arrive env s identity tokens text arrivedAt = arrived
  cases hplace : self.placeArrival env arrived.1 arrived.2.program
      (((s.decisions.lookup arrived.2.program).map self.tokensOf).getD 0) arrivedAt with
  | error => rfl
  | ok placed =>
    show (self.runArrival env placed arrived.2.program arrivedAt now, arrived.2, none)
      = (self.follow placed (if self.config.bindingOnly then _ else _), arrived.2, none)
    unfold runArrival
    split
    · rfl
    · rfl

end ProgramScheduler

/-! ## The sections of the system -/

namespace System

variable (self : ProgramScheduler)

variable (sys : System)

/-- A section of a live call that holds a request. -/
def callBody (call : Nat)
    (body : AcquireCall → ProgramRequestHandle → ProgramSchedulerState × FollowUp) :
    ProgramSchedulerState × FollowUp :=
  match sys.calls[call]? with
  | none => (sys.state, .nothing)
  | some c =>
    match c.handle with
    | none => (sys.state, .nothing)
    | some handle => if c.live then body c handle else (sys.state, .nothing)

/-- The cleanup guard of a call. -/
def failBody (env : Env) (handle : ProgramRequestHandle) (now : Instant) :
    ProgramSchedulerState × FollowUp :=
  match self.cancelBody sys.state handle now with
  | none => (sys.state, .nothing)
  | some s => (s, .waiting env now)

/-- The completion of a dispatch. -/
def finishBody (env : Env) (dispatch : Nat) (success terminate : Bool)
    (usage : ProgramUsageObservation) (decodeSeconds : Option Rat) (now : Instant) :
    ProgramSchedulerState × FollowUp :=
  match (sys.dispatches[dispatch]?).bind fun dispatch =>
    self.completeBody env sys.state dispatch success terminate usage decodeSeconds now with
  | none => (sys.state, .nothing)
  | some s => (s, .periodic env now)

/-- The state in which the decision sequence of an action starts, and which
sequence it is. -/
def body (now : Instant) : Action → ProgramSchedulerState × FollowUp
  | .sync env modelPool targets =>
    (self.syncTargetSnapshotLocked env sys.state modelPool targets now, .nothing)
  | .acquire env identity estimatedContextTokens targets routingText arrivedAt =>
    if arrivedAt ≤ now ∧ targets ≠ [] then
      let (s, handle, error) := self.acquireBody env sys.state identity estimatedContextTokens
        routingText arrivedAt
      (s, self.arrivalFollowUp env handle.program arrivedAt now error)
    else (sys.state, .nothing)
  | .claim call => sys.callBody call fun c handle =>
    match c.phase with
    | .claiming => ((claimDispatch sys.state handle now).1, .nothing)
    | _ => (sys.state, .nothing)
  | .check env call => sys.callBody call fun c handle =>
    match c.phase with
    | .checking =>
      if c.deadline ≤ now then sys.failBody self env handle now else (sys.state, .nothing)
    | _ => (sys.state, .nothing)
  | .notified call => sys.callBody call fun c handle =>
    match c.phase with
    | .waiting _ => ((takePermit sys.state handle).getD sys.state, .nothing)
    | _ => (sys.state, .nothing)
  | .elapsed env call => sys.callBody call fun c _ =>
    match c.phase with
    | .waiting wakeAt => (sys.state, if wakeAt ≤ now then .arrival env now else .nothing)
    | _ => (sys.state, .nothing)
  | .drop env call => sys.callBody call fun _ handle => sys.failBody self env handle now
  | .complete env dispatch success terminate usage decodeSeconds =>
    sys.finishBody self env dispatch success terminate usage decodeSeconds now
  | .tick env => (sys.state, .tick env now)
  | .beginObservation _ _ => (sys.state, .nothing)
  | .applyObservations epoch observations =>
    ((sys.applyObservations self epoch observations).state, .nothing)

lemma callStep_state (call) {step : AcquireCall → ProgramRequestHandle → System}
    {body : AcquireCall → ProgramRequestHandle → ProgramSchedulerState × FollowUp}
    (h : ∀ c handle, (step c handle).state = self.follow (body c handle).1 (body c handle).2) :
    (sys.callStep call step).state
      = self.follow (sys.callBody call body).1 (sys.callBody call body).2 := by
  unfold callStep callBody
  cases sys.calls[call]? with
  | none => rfl
  | some c =>
    cases hh : c.handle with
    | none =>
      simp only [hh]
      rfl
    | some handle =>
      simp only [hh]
      cases c.live with
      | true => exact h c handle
      | false => rfl

lemma failCall_state (env call handle phase now) :
    (sys.failCall self env call handle phase now).state
      = self.follow (sys.failBody self env handle now).1 (sys.failBody self env handle now).2 := by
  show self.cancelRetainedRequest env sys.state handle now = _
  unfold failBody
  cases hbody : self.cancelBody sys.state handle now with
  | none => exact self.cancelRetainedRequest_none env hbody
  | some => exact self.cancelRetainedRequest_some env hbody

/-- A section is its body followed by its decision sequence. -/
lemma perform_state (now action) : (sys.perform self now action).state
      = self.follow (sys.body self now action).1 (sys.body self now action).2 := by
  cases action with
  | sync => rfl
  | acquire _ _ _ targets _ arrivedAt =>
    show (if _ then _ else _ : System).state = _
    unfold body
    split
    · rename_i htime
      unfold acquire
      by_cases htargets : targets = []
      · simp only [htargets, ne_eq, not_true, and_false]
        rfl
      · simp only [if_neg htargets, acquireRetain_eq, if_pos (And.intro htime htargets)]
    · rename_i htime
      simp only [if_neg fun h : arrivedAt ≤ now ∧ targets ≠ [] => htime h.1]
      rfl
  | claim call =>
    refine callStep_state self sys call fun c handle => ?_
    cases c.phase with
    | claiming =>
      generalize claimDispatch sys.state handle now = claimed
      obtain ⟨s, dispatch⟩ := claimed
      cases dispatch with
      | none => rfl
      | some => rfl
    | checking => rfl
    | waiting => rfl
    | returned => rfl
    | dropped => rfl
  | check env call =>
    refine callStep_state self sys call fun c handle => ?_
    cases c.phase with
    | checking =>
      simp only
      split
      · exact failCall_state self sys env call handle _ now
      · rfl
    | claiming => rfl
    | waiting => rfl
    | returned => rfl
    | dropped => rfl
  | notified call =>
    refine callStep_state self sys call fun c handle => ?_
    cases c.phase with
    | waiting =>
      simp only
      cases takePermit sys.state handle with
      | none => rfl
      | some => rfl
    | claiming => rfl
    | checking => rfl
    | returned => rfl
    | dropped => rfl
  | elapsed _ call =>
    refine callStep_state self sys call fun c _ => ?_
    cases c.phase with
    | waiting =>
      simp only
      split
      · rfl
      · rfl
    | claiming => rfl
    | checking => rfl
    | returned => rfl
    | dropped => rfl
  | drop env call =>
    exact callStep_state self sys call fun c handle => failCall_state self sys env call handle _ now
  | complete env dispatch success terminate usage decodeSeconds =>
    show (sys.complete self env dispatch success terminate usage decodeSeconds now).state
      = self.follow (sys.finishBody self env dispatch _ _ _ _ now).1
        (sys.finishBody self env dispatch _ _ _ _ now).2
    unfold complete finishBody
    cases sys.dispatches[dispatch]? with
    | none => rfl
    | some dispatch =>
      simp only [complete_eq, Option.bind_some]
      cases self.completeBody env sys.state dispatch success terminate usage decodeSeconds now with
      | none => rfl
      | some => rfl
  | tick => rfl
  | beginObservation => rfl
  | applyObservations => rfl

end System

/-! ## What a section admits -/

/-- What a step admits. -/
def System.admissions (sched : ProgramScheduler) (sys : System) (event : Instant × Action) :
    List Admission :=
  if sys.clock ≤ event.1 then
    sched.followAdmissions (sys.body sched event.1 event.2).1 (sys.body sched event.1 event.2).2
  else []

variable {sched : ProgramScheduler} {sys : System} {now : Instant} {env : Env}

lemma callBody_ne_activation (h : ∀ c handle, (body c handle).2 ≠ .activation p now) :
    (sys.callBody i body).2 ≠ .activation p now := by
  unfold System.callBody
  split
  · exact nofun
  split
  · exact nofun
  split
  · exact h _ _
  · exact nofun

lemma failBody_ne_activation : (sys.failBody sched env handle now).2 ≠ .activation p now' := by
  unfold System.failBody
  split
  · exact nofun
  · exact nofun

lemma bindingOnly_of_activation (h : (sys.body sched now action).2 = .activation p now') :
    sched.config.bindingOnly = true := by
  cases action with
  | sync env pool targets
  | tick env
  | beginObservation env targets
  | applyObservations => cases h
  | acquire env identity tokens targets text arrivedAt =>
    unfold System.body at h
    simp only at h
    split at h
    · exact sched.arrivalFollowUp_activation h
    · cases h
  | claim i
  | notified =>
    refine absurd h (callBody_ne_activation fun _ _ => ?_)
    split
    · exact nofun
    · exact nofun
  | check =>
    refine absurd h (callBody_ne_activation fun _ _ => ?_)
    split
    · split
      · exact failBody_ne_activation
      · exact nofun
    · exact nofun
  | elapsed =>
    refine absurd h (callBody_ne_activation fun _ _ => ?_)
    split
    · split
      · exact nofun
      · exact nofun
    · exact nofun
  | drop => exact absurd h (callBody_ne_activation fun _ _ => failBody_ne_activation)
  | complete =>
    unfold System.body System.finishBody at h
    simp only at h
    split at h
    · cases h
    · cases h

end VllmRouter.ProgramScheduling
