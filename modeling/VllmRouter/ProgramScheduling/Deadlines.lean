import VllmRouter.ProgramScheduling.Queues

/-!
# Force-resume deadlines

While a Program stays queued its deadline does not move, provided no further
request of it arrives: an arrival computes the deadline anew from the time of
the arrival, so it can postpone it. `Kept` compares the facts of a Program
before a step with those after it, and `run_deadlines_tighten` follows one stay
in a queue.
-/

namespace VllmRouter.ProgramScheduling

open ProgramScheduling.System Facts PendingProgramRequest ProgramDecisionState Option
open ProgramScheduler (withDeadline queuedSince)

variable {sched : ProgramScheduler} {f f' f₀ : Facts} {r : ProgramRef}

/-! ## Being queued -/

/-- The Program is in some admission queue. -/
def ProgramSchedulerState.isQueued (s : ProgramSchedulerState) (r : ProgramRef) : Bool :=
  s.rankQueues.values.any (fun queue => queue.contains r) ||
    s.globalQueues.values.any fun queue => queue.contains r

lemma any_values_contains {K : Type} [DecidableEq K] (queues : Dict K (List ProgramRef)) :
    queues.values.any (fun queue => queue.contains r) = true ↔
      ∃ k, ((queues.lookup k).getD []).count r ≠ 0 := by
  rw [List.any_eq_true]
  constructor
  · rintro ⟨_, hqueue, hmem⟩
    obtain ⟨k, hk⟩ := (Dict.mem_values_iff _ _).1 hqueue
    refine ⟨k, ?_⟩
    rw [hk, ne_eq, List.count_eq_zero, not_not]
    exact List.contains_iff_mem.1 hmem
  rintro ⟨k, hk⟩
  rw [ne_eq, List.count_eq_zero, not_not] at hk
  cases hlookup : queues.lookup k with
  | none =>
    rw [hlookup] at hk
    cases hk
  | some queue =>
    rw [hlookup] at hk
    exact ⟨queue, (Dict.mem_values_iff _ _).2 ⟨k, hlookup⟩, List.contains_iff_mem.2 hk⟩

lemma isQueued_iff (s : ProgramSchedulerState) (r) :
    s.isQueued r = true ↔ (s.facts r).Queued := by
  unfold ProgramSchedulerState.isQueued
  rw [Bool.or_eq_true, any_values_contains, any_values_contains]
  exact Iff.rfl

/-! ## Deadlines and hints -/

namespace Facts

def deadline (f : Facts) : Option Instant :=
  f.decision.bind forceResumeDeadline

def frontHints (f : Facts) : Option ProgramRequestHints :=
  f.pending.head?.map hints

/-- The longest that a queued Program has to wait for a forced resume. -/
def resumeBound (sched : ProgramScheduler) (f : Facts) : Duration :=
  min sched.config.queueTimeout
    ((f.frontHints.bind ProgramRequestHints.deadline).getD sched.config.queueTimeout)

lemma resumeBound_congr (h : f'.frontHints = f.frontHints) :
    f'.resumeBound sched = f.resumeBound sched := by
  unfold resumeBound
  rw [h]

end Facts

/-- The time that a deadline is set to lies within the bound. -/
lemma resumeTimeout_le (pending estimate) (hpending : f.pending = pending) :
    resumeTimeout sched pending estimate ≤ f.resumeBound sched := by
  unfold resumeTimeout resumeBound frontHints
  rw [hpending]
  refine le_min (min_le_right _ _) ?_
  cases (pending.head?.map hints).bind ProgramRequestHints.deadline with
  | none => exact min_le_right _ _
  | some => exact min_le_left _ _

/-! ## What a step does to a queued Program -/

/-- Only one request waits for a deadline, and not longer than it has to. -/
def Timely (sched : ProgramScheduler) (clock : Instant) (f : Facts) : Prop :=
  ∀ P deadline, f.program = some P → P.state = .paused → f.pending ≠ [] →
    f.deadline = some deadline →
    f.pending.length = 1 ∧ deadline ≤ clock + f.resumeBound sched

/-- What a step at `now` keeps. A Program that stays queued keeps its deadline, and the
front request that the deadline came from; one that enters a queue is bounded from
`entered` on. -/
structure Kept (sched : ProgramScheduler) (entered now : Instant) (f₀ f : Facts) : Prop where
  stays : f₀.Queued → f.Queued →
    f.deadline = f₀.deadline ∧ (f₀.deadline.isSome = true → f.frontHints = f₀.frontHints)
  enters : ¬ f₀.Queued → f.Queued →
    ∀ deadline, f.deadline = some deadline → deadline ≤ entered + f.resumeBound sched
  timely : Timely sched now f

variable {entered clock arrivedAt now : Instant} {env : Env}
  {estimatedContextTokens requestId : Nat} {identity : ProgramIdentity}
  {routingText : Option String} {sys : System} {targets : List ProgramTarget}
  {request : PendingProgramRequest} {pool : ModelPool} {P : RuntimeProgram}

lemma Kept.refl (h : Timely sched now f) : Kept sched entered now f f where
  stays := fun _ _ => ⟨rfl, fun _ => rfl⟩
  enters := fun hout hin => absurd hin hout
  timely := h

/-- A Program that is not queued, and has nothing waiting when it is paused. -/
lemma Kept.out (hout : ¬ f.Queued)
    (hfree : ∀ P, f.program = some P → P.state = .paused → f.pending = []) :
    Kept sched entered now f₀ f where
  stays := fun _ hin => absurd hin hout
  enters := fun _ hin => absurd hin hout
  timely := fun P _ hP hpaused hne => absurd (hfree P hP hpaused) hne

lemma Kept.active (hsound : Sound sched f) (hP : f.program = some P)
    (hactive : P.state = .active) : Kept sched entered now f₀ f := by
  obtain ⟨d, -, hlive⟩ := hsound.of_program hP
  refine .out (hlive.not_queued hactive) fun Q hQ hpaused => ?_
  cases hP.symm.trans hQ
  cases hactive.symm.trans hpaused

/-- A change that puts nobody into a queue and touches no deadline. -/
lemma Kept.congr (h : Kept sched entered now f₀ f) (hqueued : f'.Queued → f.Queued)
    (hprogram : f'.program = f.program) (hpending : f'.pending.map hints = f.pending.map hints)
    (hdeadline : f'.deadline = f.deadline) : Kept sched entered now f₀ f' := by
  have hhints : f'.frontHints = f.frontHints := by
    unfold frontHints
    rw [← List.head?_map, hpending, List.head?_map]
  have hlen : f'.pending.length = f.pending.length := by simpa using congrArg List.length hpending
  refine ⟨fun h0 h' => ?_, fun h0 h' deadline hd => ?_, fun P deadline hP hpaused hne hd => ?_⟩
  · obtain ⟨hsame, hfront⟩ := h.stays h0 (hqueued h')
    exact ⟨hdeadline.trans hsame, fun hd => hhints.trans (hfront hd)⟩
  · rw [resumeBound_congr hhints]
    exact h.enters h0 (hqueued h') deadline (hdeadline.symm.trans hd)
  have hne' : f.pending ≠ [] := by
    rw [← List.length_pos_iff, ← hlen, List.length_pos_iff]
    exact hne
  obtain ⟨hone, hbound⟩ := h.timely P deadline (hprogram ▸ hP) hpaused hne'
    (hdeadline.symm.trans hd)
  rw [resumeBound_congr hhints]
  exact ⟨hlen.trans hone, hbound⟩

/-- Decisions take Programs out of queues only. -/
lemma Kept.tail (htail : Tail sched f f') (hsound : Sound sched f)
    (h : Kept sched entered now f₀ f) : Kept sched entered now f₀ f' := by
  cases htail with
  | retouch _ _ _ hd =>
    refine h.congr id rfl rfl ?_
    unfold deadline
    rw [hd]
    rfl
  | wake => exact h.congr id rfl (map_wakeFront (fun _ _ => rfl) f.pending) rfl
  | pause _ _ hP _ hactive hacting =>
    obtain ⟨e, -, hlive⟩ := hsound.of_program hP
    exact .out (fun hqueued => hlive.not_queued hactive hqueued)
      fun _ _ _ => (hlive.acting hacting).2
  | admission =>
    refine .out (not_queued_unqueued f) fun Q hQ hpaused' => ?_
    cases hQ
    cases hpaused'
  | release => exact .out (not_queued_unqueued f) fun Q hQ => by cases hQ
  | leave hP =>
    refine .out (not_queued_unqueued f) fun Q hQ => ?_
    cases hP.symm.trans hQ

variable {pending : List PendingProgramRequest}

/-! ## Sections -/

/-- An arrival for a known Program without a placement finds no other request of
it, and a target to bind it to. -/
def arrivesAlone (sched : ProgramScheduler) (sys : System) (event : Instant × Action) : Bool :=
  match event.2 with
  | .acquire _ identity _ _ _ _ =>
    (sys.state.runtime.programs.lookup identity.key).all fun P =>
      P.placement.isSome ||
        decide (sys.state.runtime.requestPool.queue P.reference = [] ∧ sched.CanBind ∧
          (sys.state.modelTargets.lookup identity.modelPool).getD [] ≠ [])
  | _ => true

lemma alone_of_guard (hguard : arrivesAlone sched sys
      (now, .acquire env identity estimatedContextTokens targets routingText arrivedAt) = true)
    (hkey : r.key = identity.key) (hP : (sys.state.facts r).program = some P)
    (hplace : P.placement = none) :
    (sys.state.facts r).pending = [] ∧ sched.CanBind ∧ (sys.state.facts r).home ≠ [] := by
  obtain ⟨hlookup, href⟩ := ProgramRuntime.program_eq_some.1 hP
  unfold arrivesAlone at hguard
  simp only at hguard
  have hpool : identity.modelPool = r.modelPool := (congrArg RuntimeKey.modelPool hkey).symm
  rw [← hkey, hlookup, all_some, hplace, href, hpool, isSome_none,
    Bool.false_or, decide_eq_true_iff] at hguard
  exact hguard

/-- Before an arrival that is queued, the Program was not. -/
lemma Arrives.alone (hguard : arrivesAlone sched sys
      (now, .acquire env identity estimatedContextTokens targets routingText arrivedAt) = true)
    (hkey : r.key = identity.key) (hsound : Sound sched (sys.state.facts r))
    (h : Arrives sched r identity request (sys.state.facts r) f') (hP : f'.program = some P)
    (hplace : P.placement = none) : ¬ (sys.state.facts r).Queued ∧ f'.pending = [request] ∧
      ∀ d, f'.decision = some d → d.lastTarget = none → d.forceResumeDeadline = none := by
  generalize hf : sys.state.facts r = f at h hsound
  cases h with
  | @known P0 d0 hP0 hd0 =>
    cases hP
    obtain ⟨hnil, hcan, hhome⟩ := alone_of_guard (P := P0) hguard hkey (hf.symm ▸ hP0) hplace
    rw [hf] at hnil hhome
    have hlive := hsound.live_of hP0 hd0
    refine ⟨fun hq => (hlive.queued hq).2 hnil, ?_, fun d hd hlast => ?_⟩
    · show f.pending ++ [request] = [request]
      rw [hnil]
      rfl
    -- a Program that can be bound has a target
    cases hd
    rw [(refreshed_same identity request.estimatedContextTokens d0).1.last] at hlast
    have hsome := hlive.bound hcan hhome
    rw [hlast] at hsome
    cases hsome
  | fresh hP0 =>
    cases hsound with
    | dead _ _ hnil hout =>
      refine ⟨hout, ?_, fun d hd _ => ?_⟩
      · show f.pending ++ [request] = [request]
        rw [hnil]
        rfl
      · cases hd
        rfl
    | live hP' =>
      rw [hP0] at hP'
      cases hP'

/-- Nothing remains when the only request is cancelled. -/
lemma Removes.eq_nil_of_single (h : Removes requestId pending rest) (hone : pending.length = 1) :
    rest = [] := by
  obtain ⟨position, _, hget, -, rfl⟩ := h
  obtain ⟨_, rfl⟩ := List.length_eq_one_iff.1 hone
  have hzero : position = 0 := by
    have hlt := (List.getElem?_eq_some_iff.1 hget).1
    exact Nat.lt_one_iff.1 hlt
  rw [hzero]
  rfl

variable {error : Option ScheduleError} {event : Instant × Action}
  {events : List (Instant × Action)}

lemma Kept.retain (hguard : arrivesAlone sched sys
      (now, .acquire env identity estimatedContextTokens targets routingText arrivedAt) = true)
    (hkey : r.key = identity.key) (hsound : Sound sched (sys.state.facts r))
    (h : Retains sched r identity request (sys.state.facts r) f' error)
    (htime : request.arrivedAt ≤ now) :
    Kept sched request.arrivedAt now (sys.state.facts r) f' := by
  cases h with
  | @placed _ P h hP hplace =>
    obtain ⟨d, hd, hlive⟩ := (h.sound hsound).of_program hP
    exact .active (h.sound hsound) hP (hlive.placed.2 hplace)
  | @unbound _ P d h hP hplace hd hlast =>
    obtain ⟨hout, -, hclear⟩ := Arrives.alone hguard hkey hsound h hP hplace
    have hnone : f'.deadline = none := by
      unfold deadline
      rw [hd, bind_some, hclear d hd hlast]
    refine ⟨fun hin => absurd hin hout, fun _ _ deadline hdeadline => ?_,
      fun _ _ _ _ _ hdeadline => ?_⟩
    · cases hnone.symm.trans hdeadline
    · cases hnone.symm.trans hdeadline
  | @queued f1 _ _ t estimate h hP hplace =>
    obtain ⟨hout, hone, -⟩ := Arrives.alone hguard hkey hsound h hP hplace
    obtain ⟨-, hpending, -⟩ := f1.enqueuedOnce_fields sched r.modelPool t
    refine ⟨fun hin => absurd hin hout, fun _ _ deadline hdeadline => ?_,
      fun _ _ _ _ _ hdeadline => ?_⟩
    · cases hdeadline
      exact Nat.add_le_add_left (resumeTimeout_le f1.pending estimate hpending) _
    cases hdeadline
    refine ⟨?_, Nat.add_le_add htime (resumeTimeout_le f1.pending estimate hpending)⟩
    show (f1.enqueuedOnce sched r.modelPool t).pending.length = 1
    rw [hpending, hone]
    rfl

/-- A cancellation that leaves a request does not happen while one waits for a
deadline. -/
lemma Kept.cancel (h : Cancels requestId f f') (hsound : Sound sched f)
    (hf : Timely sched now f) : Kept sched entered now f f' := by
  cases h with
  | @waiting _ hrest hne =>
    have hnone : ∀ P deadline, f.program = some P → P.state = .paused →
        f.deadline ≠ some deadline := by
      intro P deadline hP hpaused hdeadline
      obtain ⟨hone, -⟩ := hf P deadline hP hpaused hrest.ne_nil hdeadline
      exact hne (hrest.eq_nil_of_single hone)
    refine ⟨fun hin _ => ⟨rfl, fun hsome => ?_⟩, fun hout hin => absurd hin hout,
      fun P deadline hP hpaused _ hdeadline => absurd hdeadline (hnone P deadline hP hpaused)⟩
    obtain ⟨P, d, hP, hd, hlive⟩ := hsound.of_pending hrest.ne_nil
    obtain ⟨deadline, hdeadline⟩ := isSome_iff_exists.1 hsome
    exact absurd hdeadline (hnone P deadline hP (hlive.queued hin).1)
  | running hP hrest hbusy
  | paused hP hrest hidle hpaused
  | active => exact .out (not_queued_unqueued f) fun _ _ _ => rfl

/-- Failover keeps deadlines and requests; an active Program has no deadline. -/
lemma Rebound.waiting {Q : RuntimeProgram} {d d' : ProgramDecisionState} {ids : List TargetId}
    (h : Rebound sched pool (f.retargeted removed ids) f' P Q d d') (hsound : Sound sched f) :
    f'.deadline = f.deadline ∧ f'.frontHints = f.frontHints ∧
      (f.deadline.isSome = true → P.state = .paused) := by
  have hd : f.decision = some d := h.decisionBefore
  have hdeadline : f.deadline = d.forceResumeDeadline := by
    unfold Facts.deadline
    rw [hd]
    rfl
  refine ⟨?_, ?_, fun hsome => ?_⟩
  · rw [hdeadline, ← h.deadline]
    unfold Facts.deadline
    rw [h.decision]
    rfl
  · unfold Facts.frontHints
    rw [h.pending]
    rfl
  have hlive := hsound.live_of (show f.program = some P from h.before) hd
  cases hstate : P.state with
  | paused => rfl
  | active =>
    rw [hdeadline, (hlive.clear hstate).2] at hsome
    cases hsome

lemma Kept.sync {ids : List TargetId} (h : Syncs sched r pool removed ids f f')
    (hsound : Sound sched f) (hf : Timely sched now f) : Kept sched now now f f' := by
  have hsound' : Sound sched f' := h.sound hsound
  cases h with
  | other hpool
  | kept => exact (Kept.refl hf).congr queued_of_retargeted rfl rfl rfl
  | rebound _ h =>
    obtain ⟨P, Q, d, d', hrebound⟩ := h.rebound
    obtain ⟨hdeadline, hhints, hpaused⟩ := hrebound.waiting hsound
    have htimely : Timely sched now f' := by
      intro _ deadline _ _ hne hd
      have hwas : f.deadline = some deadline := hdeadline.symm.trans hd
      rw [resumeBound_congr hhints, hrebound.pending]
      exact hf P deadline hrebound.before (hpaused (by rw [hwas]; rfl))
        (fun hnil => hne (hrebound.pending.trans hnil)) hwas
    refine ⟨fun _ _ => ⟨hdeadline, fun _ => hhints⟩, fun _ hin deadline hd => ?_, htimely⟩
    obtain ⟨e, -, hlive⟩ := hsound'.of_program hrebound.program
    exact (htimely Q deadline hrebound.program hrebound.paused (hlive.queued hin).2 hd).2

/-- When a Program that an action queues is taken to be queued: an arrival from
its own time on. -/
def Action.queuesAt (now : Instant) : Action → Instant
  | .acquire _ _ _ _ _ arrivedAt => arrivedAt
  | _ => now

lemma deadlineRule (h : Consistent sched sys.state)
    (hguard : arrivesAlone sched sys event = true) :
    SectionRule sched sys event.1 event.2 fun r f =>
      Kept sched (event.2.queuesAt event.1) event.1 (sys.state.facts r) f where
  permit := fun _ _ _ _ _ _ hf => hf.congr id rfl (map_dropPermit (fun _ _ => rfl) _ _) rfl
  claim := by
    intro _ _ handle _ dispatch _ _ _ hclaims hf
    have hsound := hclaims.sound (h.sound handle.program)
    generalize sys.state.facts handle.program = f at hclaims hf
    cases hclaims with
    | @front P request rest dispatch hP hactive hpending
    | @behind _ _ hactive => exact .active hsound rfl hactive
    | unplaced => exact hf
  cancel := fun _ _ handle _ _ _ hcancels hf => .cancel hcancels (h.sound handle.program) hf.timely
  complete := by
    intro dispatch _ _ hcompletes hf
    have hsound := hcompletes.sound (h.sound dispatch.program)
    have hbefore := h.sound dispatch.program
    generalize sys.state.facts dispatch.program = f at hcompletes hf hbefore
    cases hcompletes with
    | runs _ _ _ hactive => exact .active hsound rfl hactive
    | pauses _ hP _ hactive _ hpending =>
      obtain ⟨e, -, hlive⟩ := hbefore.of_program hP
      exact .out (hlive.not_queued hactive) fun _ _ _ => hpending
  retain := by
    intro _ _ _ _ _ _ r _ _ haction htime
      hkey hretains hf
    obtain ⟨_, _⟩ := event
    cases haction
    exact .retain hguard hkey (h.sound r) hretains htime
  sync := by
    intro _ _ _ r _ haction _ hsyncs hf
    obtain ⟨_, _⟩ := event
    cases haction
    exact .sync hsyncs (h.sound r) hf.timely

lemma step_kept (h : Consistent sched sys.state) (hguard : arrivesAlone sched sys event = true)
    (htimely : ∀ r, Timely sched sys.clock (sys.state.facts r)) (r) :
    Kept sched (event.2.queuesAt event.1) (sys.step sched event).clock (sys.state.facts r)
      ((sys.step sched event).state.facts r) := by
  by_cases hclock : sys.clock ≤ event.1
  · have hlater : ∀ r, Timely sched event.1 (sys.state.facts r) := by
      intro r P deadline hP hpaused hne hd
      obtain ⟨hone, hbound⟩ := htimely r P deadline hP hpaused hne hd
      exact ⟨hone, hbound.trans (Nat.add_le_add_right hclock _)⟩
    have hstep := step_facts h (deadlineRule h hguard)
      (fun r f f' htail hsound hf => hf.tail htail hsound) (fun r => .refl (hlater r)) r
    have htime : (sys.step sched event).clock = event.1 := by
      unfold step
      rw [if_pos hclock]
    rw [htime]
    exact hstep
  · have hstill : sys.step sched event = sys := by
      unfold step
      rw [if_neg hclock]
    rw [hstill]
    exact .refl (htimely r)

/-! ## A stay in a queue -/

/-- The Program is queued in every state of the run. -/
def queuedThroughout (sched : ProgramScheduler) (r : ProgramRef) :
    System → List (Instant × Action) → Bool
  | sys, [] => sys.state.isQueued r
  | sys, event :: events =>
    sys.state.isQueued r && queuedThroughout sched r (sys.step sched event) events

lemma isQueued_of_throughout (h : queuedThroughout sched r sys events = true) :
    (sys.state.facts r).Queued := by
  cases events with
  | nil => exact (isQueued_iff _ r).1 h
  | cons =>
    rw [queuedThroughout, Bool.and_eq_true] at h
    exact (isQueued_iff _ r).1 h.1

/-- The deadline does not move during a stay. -/
lemma run_stays (events) : ∀ sys,
    Consistent sched sys.state → (∀ r, Timely sched sys.clock (sys.state.facts r)) →
    guardedRun (step sched) (arrivesAlone sched) sys events = true →
    queuedThroughout sched r sys events = true →
    ((sys.run sched events).state.facts r).deadline = (sys.state.facts r).deadline ∧
      ((sys.state.facts r).deadline.isSome = true →
        ((sys.run sched events).state.facts r).frontHints = (sys.state.facts r).frontHints) := by
  induction events with
  | nil => exact fun sys _ _ _ _ => ⟨rfl, fun _ => rfl⟩
  | cons event _ ih =>
    intro sys h htimely hguard hqueued
    rw [guardedRun, Bool.and_eq_true] at hguard
    rw [queuedThroughout, Bool.and_eq_true] at hqueued
    have hstep := step_kept h hguard.1 htimely
    obtain ⟨hdeadline, hhints⟩ := (hstep r).stays ((isQueued_iff _ r).1 hqueued.1)
      (isQueued_of_throughout hqueued.2)
    obtain ⟨hdeadline', hhints'⟩ := ih (sys.step sched event) (step_consistent h event)
      (fun r => (hstep r).timely) hguard.2 hqueued.2
    refine ⟨hdeadline'.trans hdeadline, fun hsome => ?_⟩
    exact (hhints' (hdeadline.symm ▸ hsome)).trans (hhints hsome)

lemma run_timely (hguard : guardedRun (step sched) (arrivesAlone sched) (empty sched.config)
      events = true) (r) : Timely sched ((empty sched.config).run sched events).clock
      (((empty sched.config).run sched events).state.facts r) := by
  refine run_guarded (J := fun sys => ∀ r, Timely sched sys.clock (sys.state.facts r))
    (fun r _ _ hP => ?_)
    (fun _ _ h hg htimely r => (step_kept h hg htimely r).timely) hguard r
  cases hP

/-- While requests arrive for waiting Programs neither twice nor without a
target: a Program that stays queued keeps its deadline, and the deadline lies
within the queue timeout, and the deadline hint of the front request, from the
time at which the Program was queued. -/
theorem run_deadlines_tighten (sched : ProgramScheduler) (before stay : List (Instant × Action))
    (event : Instant × Action) (r : ProgramRef)
    (hguard : guardedRun (step sched) (arrivesAlone sched) (empty sched.config)
      (before ++ event :: stay) = true) (hqueued : queuedThroughout sched r
      (((empty sched.config).run sched before).step sched event) stay = true) :
    (((empty sched.config).run sched (before ++ event :: stay)).state.facts r).deadline
        = ((((empty sched.config).run sched before).step sched event).state.facts r).deadline ∧
      (((empty sched.config).run sched before).state.isQueued r = false → ∀ deadline,
          (((empty sched.config).run sched (before ++ event :: stay)).state.facts
            r).deadline = some deadline → deadline ≤ event.2.queuesAt event.1
            + (((empty sched.config).run sched (before ++ event :: stay)).state.facts
              r).resumeBound sched) := by
  rw [guardedRun_append, guardedRun, Bool.and_eq_true] at hguard
  obtain ⟨hbefore, hevent, hstay⟩ := hguard
  have hrun : (empty sched.config).run sched (before ++ event :: stay)
      = (((empty sched.config).run sched before).step sched event).run sched stay := by
    unfold run
    rw [List.foldl_append, List.foldl_cons]
  rw [hrun]
  have hconsistent := run_consistent sched before
  have hstep := step_kept hconsistent hevent (run_timely hbefore)
  obtain ⟨hdeadline, hhints⟩ := run_stays stay _ (step_consistent hconsistent event)
    (fun r => (hstep r).timely) hstay hqueued
  refine ⟨hdeadline, fun hout deadline hd => ?_⟩
  have hentered := hdeadline.symm.trans hd
  rw [resumeBound_congr (hhints (by rw [hentered]; rfl))]
  refine (hstep r).enters (fun hin => ?_) (isQueued_of_throughout hqueued) deadline hentered
  rw [(isQueued_iff _ r).2 hin] at hout
  cases hout

/-- A Program waits behind another one through a claim and a tick. -/
theorem run_deadlines_tighten_waiter : ∃ deadline,
    ((smallRun [(1, syncOf "m" 0 ["a"]), (2, arrivalOf "m" "p" ["a"] 2),
      (3, arrivalOf "m" "q" ["a"] 3), (4, .claim 0), (5, .tick .plain)]).state.facts
        ⟨"m", "q", 0⟩).deadline = some deadline ∧
      deadline ≤ 3 + smallScheduler.config.queueTimeout := by
  have hdeadline : ((smallRun [(1, syncOf "m" 0 ["a"]), (2, arrivalOf "m" "p" ["a"] 2),
      (3, arrivalOf "m" "q" ["a"] 3), (4, .claim 0), (5, .tick .plain)]).state.facts
        ⟨"m", "q", 0⟩).deadline = some 300000000003 := by
    decide +kernel
  have htight := run_deadlines_tighten smallScheduler
    [(1, syncOf "m" 0 ["a"]), (2, arrivalOf "m" "p" ["a"] 2)] [(4, .claim 0), (5, .tick .plain)]
    (3, arrivalOf "m" "q" ["a"] 3) ⟨"m", "q", 0⟩ (by decide +kernel) (by decide +kernel)
  exact ⟨_, hdeadline, (htight.2 (by decide +kernel) _ hdeadline).trans
    (Nat.add_le_add_left (min_le_left _ _) _)⟩

/-- A second request of a waiting Program arrives ten seconds after the first. -/
def postponedRun : List (Instant × Action) :=
  [(1, syncOf "m" 0 ["a"]), (2, arrivalOf "m" "p" ["a"] 2), (3, arrivalOf "m" "q" ["a"] 3)]

/-- The Program stays queued, and its deadline moves ten seconds. -/
theorem postponedRun_postpones :
    queuedThroughout smallScheduler ⟨"m", "q", 0⟩ (smallRun postponedRun)
        [(10000000003, arrivalOf "m" "q" ["a"] 10000000003)] = true ∧
      ((smallRun postponedRun).state.facts ⟨"m", "q", 0⟩).deadline = some 300000000003 ∧
      (((smallRun postponedRun).run smallScheduler
        [(10000000003, arrivalOf "m" "q" ["a"] 10000000003)]).state.facts ⟨"m", "q", 0⟩).deadline
          = some 310000000003 := by
  decide +kernel

end VllmRouter.ProgramScheduling
