import VllmRouter.ProgramScheduling.Soundness

/-!
# What a step of the system does

`Outcome` lists what one action can do: a change by its section, with the calls
and dispatches that come of it, after which the section runs decisions. An
action that the system cannot take, and one that only looks, is `idle`.

Every invariant below is proved from `step_happens`: the tables stay consistent
in every run (`run_consistent`), and `run_facts` is the rule for invariants of
the facts of single Programs.
-/

namespace VllmRouter.ProgramScheduling

open ProgramScheduling.System ProgramSchedulerState List RequestPool
open ProgramScheduler (sortedKeys)

/-! ## Consistent states -/

/-- The tables of the scheduler fit together. -/
structure Consistent (sched : ProgramScheduler) (s : ProgramSchedulerState) : Prop where
  sound : ∀ r, Sound sched (s.facts r)
  policy : PolicyOk sched s.bindings.policy

variable {s : ProgramSchedulerState} {sched : ProgramScheduler} {action : Action}
  {I : ProgramRef → Facts → Prop} {events : List (Instant × Action)}
  {guard : System → Instant × Action → Bool}

variable {s' : ProgramSchedulerState} {handle : ProgramRequestHandle} {targets : TargetSnapshot}

/-- Settling binds nothing and creates no request. -/
lemma ProgramScheduler.Settle.static (h : sched.Settle s s') :
    s'.bindings.policy = s.bindings.policy ∧
      s'.runtime.requestPool.nextRequestId = s.runtime.requestPool.nextRequestId := by
  cases h with
  | prune now retention
  | sample t f
  | report t source
  | retouch => exact ⟨rfl, rfl⟩
  | wake p => exact ⟨rfl, nextRequestId_notifyFront _ p⟩
  | pause _ _ _ _ h =>
    obtain ⟨P, d, t, -, -, -, -, -, rfl⟩ := ProgramScheduler.pauseIdle_eq_some h
    exact ⟨rfl, rfl⟩
  | @release p now =>
    cases hrt : s.runtime.releaseIdle p now with
    | none =>
      rw [ProgramScheduler.releaseProgram_refused hrt]
      exact ⟨rfl, rfl⟩
    | some =>
      obtain ⟨-, -, -, hpool, -⟩ := ProgramRuntime.releaseIdle_eq_some hrt
      rw [ProgramScheduler.releaseProgram_live hrt]
      exact ⟨rfl, congrArg nextRequestId hpool⟩

/-- Decisions bind nothing and create no request. -/
lemma ProgramScheduler.Decide.static (h : sched.Decide s s') :
    s'.bindings.policy = s.bindings.policy ∧
      s'.runtime.requestPool.nextRequestId = s.runtime.requestPool.nextRequestId := by
  cases h with
  | settle h => exact h.static
  | admission _ _ h =>
    obtain ⟨P, d, rt, -, -, -, -, hrt, rfl⟩ := ProgramScheduler.commitAdmission_eq_some h
    subst hrt
    exact ⟨rfl, nextRequestId_notifyFront _ _⟩

lemma ProgramScheduler.Decides.static (h : sched.Decides s s') :
    s'.bindings.policy = s.bindings.policy ∧
      s'.runtime.requestPool.nextRequestId = s.runtime.requestPool.nextRequestId := by
  induction h with
  | refl => exact ⟨rfl, rfl⟩
  | tail _ hlast ih =>
    obtain ⟨hpolicy, hrequest⟩ := hlast.static
    exact ⟨hpolicy.trans ih.1, hrequest.trans ih.2⟩

lemma Consistent.decides (h : Consistent sched s) (hdecides : sched.Decides s s') :
    Consistent sched s' where
  sound := fun r => (hdecides.tails r).sound (h.sound r)
  policy := hdecides.static.1 ▸ h.policy

/-- What every decision keeps in a consistent state is kept by a sequence of
them. -/
lemma ProgramScheduler.Decides.keeps {J : ProgramSchedulerState → Prop}
    (hJ : ∀ s s', sched.Decide s s' → Consistent sched s → J s → J s') (h : sched.Decides s s')
    (hs : Consistent sched s) (hinit : J s) : J s' := by
  have hboth : Consistent sched s' ∧ J s' := by
    induction h with
    | refl => exact ⟨hs, hinit⟩
    | tail _ hlast ih =>
      exact ⟨ih.1.decides (Relation.ReflTransGen.single hlast), hJ _ _ hlast ih.1 ih.2⟩
  exact hboth.2

/-- What a settling transition and an admission keep, in a consistent state, of
the state and of the admissions so far. -/
lemma ProgramScheduler.Admits.keeps {J : ProgramSchedulerState → List Admission → Prop}
    (hsettle : ∀ s s' log, sched.Settle s s' → Consistent sched s → J s log → J s' log)
    (hadmission : ∀ a s' log, sched.Chosen a →
      sched.commitAdmission a.before a.program a.target a.now = some s' →
      Consistent sched a.before → J a.before log → J s' (log ++ [a]))
    (h : sched.Admits s log s') (hs : Consistent sched s) (hinit : J s past) :
    J s' (past ++ log) := by
  have hboth : Consistent sched s' ∧ J s' (past ++ log) := by
    induction h with
    | refl =>
      rw [append_nil]
      exact ⟨hs, hinit⟩
    | settle _ hlast ih =>
      exact ⟨ih.1.decides (Relation.ReflTransGen.single (.settle hlast)),
        hsettle _ _ _ hlast ih.1 ih.2⟩
    | @admission _ a _ _ hchosen hcommit ih =>
      rw [← append_assoc]
      refine ⟨ih.1.decides (Relation.ReflTransGen.single ?_),
        hadmission a _ _ hchosen hcommit ih.1 ih.2⟩
      exact .admission a.now hchosen.admissible hcommit
  exact hboth.2

/-! ## Outcomes -/

/-- Nothing that the tables say changed. -/
structure Same (s s' : ProgramSchedulerState) : Prop where
  facts : ∀ r, s'.facts r = s.facts r
  policy : s'.bindings.policy = s.bindings.policy
  epoch : s'.runtime.nextPlacementEpoch = s.runtime.nextPlacementEpoch
  request : s'.runtime.requestPool.nextRequestId = s.runtime.requestPool.nextRequestId

/-- A call that goes on without touching its Program: it starts to wait, or its
timer ends the wait. -/
inductive Turns : CallPhase → CallPhase → Prop
  | arms (wakeAt : Instant) : Turns .checking (.waiting wakeAt)
  | elapses (wakeAt : Instant) : Turns (.waiting wakeAt) .claiming

/-- Where a retention leaves its call. -/
def CallPhase.retained : Option ScheduleError → CallPhase
  | some error => .returned (.error error)
  | none => .claiming

/-- Where a claim leaves its call. -/
def CallPhase.claimed : Option ProgramDispatch → CallPhase
  | some dispatch => .returned (.ok dispatch)
  | none => .checking

/-- A call that ended without a dispatch. -/
def CallPhase.isFailure : CallPhase → Bool
  | .returned (.error _) | .dropped => true
  | .returned (.ok _) | .claiming | .checking | .waiting _ => false

/-- The dispatch that an action completes. -/
def System.finishing (sys : System) : Action → Option ProgramDispatch
  | .complete _ i _ _ _ _ => sys.dispatches[i]?
  | _ => none

/-- The synchronization changes the targets of its pool. -/
def ProgramSchedulerState.installs (s : ProgramSchedulerState) (pool : ModelPool)
    (targets : TargetSnapshot) : Bool :=
  !((s.modelTargetSnapshots.lookup pool).any fun current =>
    decide (current.addr = targets.addr)) && !s.unchanged pool (incomingTargets targets.items)

/-- The target ids of a snapshot. -/
def TargetSnapshot.ids (targets : TargetSnapshot) : List TargetId :=
  sortedKeys (incomingTargets targets.items)

/-- What an action does to the state before its decisions, to the calls and to
the dispatches. -/
inductive Outcome (sched : ProgramScheduler) (sys : System) (now : Instant) :
    Action → ProgramSchedulerState → List AcquireCall → List ProgramDispatch → Prop
  | idle {action : Action} {s₁ : ProgramSchedulerState} (hsame : Same sys.state s₁)
      (hledger : ∀ t, s₁.ledger t = sys.state.ledger t) (hfinish : sys.finishing action = none) :
      Outcome sched sys now action s₁ sys.calls sys.dispatches
  | observe {s₁ : ProgramSchedulerState} (epoch : Nat) {observations : List BackendObservation}
      (hsame : Same sys.state s₁)
      (hledger : ∀ t, t ∉ observations.map BackendObservation.targetId →
        s₁.ledger t = sys.state.ledger t) :
      Outcome sched sys now (.applyObservations epoch observations) s₁ sys.calls sys.dispatches
  | turn {action : Action} {i : Nat} {c : AcquireCall} {phase : CallPhase}
      (hc : sys.calls[i]? = some c) (hturn : Turns c.phase phase)
      (hfinish : sys.finishing action = none) :
      Outcome sched sys now action sys.state (sys.setPhase i phase).calls sys.dispatches
  | reject {action : Action} (call : AcquireCall) (hhandle : call.handle = none)
      (hfinish : sys.finishing action = none) :
      Outcome sched sys now action sys.state (sys.calls ++ [call]) sys.dispatches
  | permit {s₁ : ProgramSchedulerState} {i : Nat} {c : AcquireCall}
      {handle : ProgramRequestHandle} (hc : sys.calls[i]? = some c)
      (hhandle : c.handle = some handle)
      (hpermit : takePermit sys.state handle = some s₁) :
      Outcome sched sys now (.notified i) s₁ (sys.setPhase i .claiming).calls sys.dispatches
  | claim {s₁ : ProgramSchedulerState} {i : Nat} {c : AcquireCall}
      {handle : ProgramRequestHandle} {dispatch : Option ProgramDispatch}
      (hc : sys.calls[i]? = some c) (hhandle : c.handle = some handle)
      (h : Claims handle (sys.state.facts handle.program) (s₁.facts handle.program) dispatch)
      (hframe : Frame sched handle.program sys.state s₁) (hphase : c.phase = .claiming) :
      Outcome sched sys now (.claim i) s₁ (sys.setPhase i (.claimed dispatch)).calls
        (sys.dispatches ++ dispatch.toList)
  | absent {action : Action} {i : Nat} {c : AcquireCall} {handle : ProgramRequestHandle}
      {phase : CallPhase} (hc : sys.calls[i]? = some c) (hhandle : c.handle = some handle)
      (habsent : ∀ request ∈ (sys.state.facts handle.program).pending,
        request.id ≠ handle.requestId)
      (hphase : phase.isFailure = true) (hfinish : sys.finishing action = none) :
      Outcome sched sys now action sys.state (sys.setPhase i phase).calls sys.dispatches
  | cancel {action : Action} {s₁ : ProgramSchedulerState} {i : Nat} {c : AcquireCall}
      {handle : ProgramRequestHandle} {phase : CallPhase} (hc : sys.calls[i]? = some c)
      (hhandle : c.handle = some handle)
      (h : Cancels handle.requestId (sys.state.facts handle.program) (s₁.facts handle.program))
      (hframe : Frame sched handle.program sys.state s₁)
      (hphase : phase.isFailure = true) (hfinish : sys.finishing action = none) :
      Outcome sched sys now action s₁ (sys.setPhase i phase).calls sys.dispatches
  | refuse {action : Action} {dispatch : ProgramDispatch}
      (hfinish : sys.finishing action = some dispatch)
      (hrefuses : Refuses dispatch (sys.state.facts dispatch.program)) :
      Outcome sched sys now action sys.state sys.calls sys.dispatches
  | complete {action : Action} {s₁ : ProgramSchedulerState} {dispatch : ProgramDispatch}
      {P : RuntimeProgram} (hfinish : sys.finishing action = some dispatch)
      (hP : (sys.state.facts dispatch.program).program = some P)
      (hepoch : P.placementEpoch = dispatch.placementEpoch)
      (h : Completes (sys.state.facts dispatch.program) (s₁.facts dispatch.program))
      (hframe : Frame sched dispatch.program sys.state s₁) :
      Outcome sched sys now action s₁ sys.calls sys.dispatches
  | retain {s₁ : ProgramSchedulerState} (env : Env) {identity : ProgramIdentity}
      {estimatedContextTokens : Nat} {targets : List ProgramTarget}
      {routingText : Option String} {arrivedAt : Instant} {p : ProgramRef}
      {error : Option ScheduleError} {call : AcquireCall} (htime : arrivedAt ≤ now)
      (htargets : targets ≠ []) (hkey : p.key = identity.key)
      (h : Retains sched p identity (retainedRequest sys.state.runtime identity
        estimatedContextTokens routingText arrivedAt) (sys.state.facts p) (s₁.facts p) error)
      (hframe : ArrivalFrame sched p sys.state s₁)
      (hledger : ∀ t, s₁.ledger t
        = sys.state.ledger t + growth sched (sys.state.facts p) (s₁.facts p) t)
      (hcall : call.handle
        = some ⟨p, sys.state.runtime.requestPool.nextRequestId + 1⟩)
      (hphase : call.phase = .retained error) :
      Outcome sched sys now
        (.acquire env identity estimatedContextTokens targets routingText arrivedAt) s₁
        (sys.calls ++ [call]) sys.dispatches
  | sync {s₁ : ProgramSchedulerState} (env : Env) {pool : ModelPool} {targets : TargetSnapshot}
      (hinstalls : sys.state.installs pool targets = true)
      (h : SyncStep sched pool targets.ids sys.state s₁) :
      Outcome sched sys now (.sync env pool targets) s₁ sys.calls sys.dispatches

lemma Same.refl (s) : Same s s := ⟨fun _ => rfl, rfl, rfl, rfl⟩

lemma getElem?_setPhase (sys : System) (i phase j) :
    (sys.setPhase i phase).calls[j]? = if j = i
      then (sys.calls[i]?).map fun c => { c with phase := phase } else sys.calls[j]? := by
  unfold setPhase
  rw [getElem?_modify]
  by_cases hj : j = i
  · subst hj
    simp
  · simp [hj, Ne.symm hj]

variable (sched : ProgramScheduler) (sys : System) (now : Instant) (action : Action) (sys' : System)

/-- An outcome with the decisions that follow it. -/
def Happens : Prop :=
  ∃ s₁, Outcome sched sys now action s₁ sys'.calls sys'.dispatches ∧
    sched.Decides s₁ sys'.state

/-- An outcome from which the section settles into `s₂`, admitting nothing. -/
def Leads (s₂ : ProgramSchedulerState) : Prop :=
  ∃ s₁, Outcome sched sys now action s₁ sys'.calls sys'.dispatches ∧ sched.Settles s₁ s₂

variable {sched sys now action sys'}

/-- The action does nothing before its decisions. -/
lemma leads_idle (hfinish : sys.finishing action = none) :
    Leads sched sys now action sys sys.state :=
  ⟨sys.state, .idle (.refl _) (fun _ => rfl) hfinish, .refl _⟩

/-- A section of a call, for the calls that hold a request. -/
lemma leads_callStep {step : AcquireCall → ProgramRequestHandle → System}
    {body : AcquireCall → ProgramRequestHandle → ProgramSchedulerState × FollowUp}
    (hfinish : sys.finishing action = none)
    (hbody : ∀ c handle, sys.calls[i]? = some c → c.handle = some handle →
      Leads sched sys now action (step c handle) (body c handle).1) :
    Leads sched sys now action (sys.callStep i step) (sys.callBody i body).1 := by
  unfold callStep callBody
  cases hc : sys.calls[i]? with
  | none => exact leads_idle hfinish
  | some c =>
    cases hh : c.handle with
    | none =>
      simp only [hh]
      exact leads_idle hfinish
    | some handle =>
      simp only [hh]
      cases c.live with
      | true => exact hbody c handle hc hh
      | false => exact leads_idle hfinish

/-! ## One lemma per action -/

section

variable (h : Consistent sched sys.state)
include h

lemma claim_leads (i) :
    Leads sched sys now (.claim i) (sys.claim i now) (sys.body sched now (.claim i)).1 := by
  refine leads_callStep rfl fun c handle hc hhandle => ?_
  obtain ⟨hclaims, hframe⟩ := claimDispatch_claims now (h.sound handle.program)
  cases hphase : c.phase with
  | claiming =>
    simp only
    generalize ProgramScheduler.claimDispatch sys.state handle now = claimed at hclaims hframe ⊢
    obtain ⟨s₁, dispatch⟩ := claimed
    cases dispatch with
    | some => exact ⟨s₁, .claim hc hhandle hclaims hframe hphase, .refl _⟩
    | none =>
      have hnone : Outcome sched sys now (.claim i) s₁ (sys.setPhase i .checking).calls
          (sys.dispatches ++ []) := .claim hc hhandle hclaims hframe hphase
      rw [append_nil] at hnone
      exact ⟨s₁, hnone, .refl _⟩
  | checking
  | waiting wakeAt
  | returned result
  | dropped => exact leads_idle rfl

/-- A call that ends without a dispatch cancels its request. -/
lemma failCall_leads (env) (hc : sys.calls[i]? = some c) (hhandle : c.handle = some handle)
    (hphase : phase.isFailure = true) (hfinish : sys.finishing action = none) :
    Leads sched sys now action (sys.failCall sched env i handle phase now)
      (sys.failBody sched env handle now).1 := by
  unfold failBody
  rcases cancelBody_cancels now (h.sound handle.program) with
    ⟨hnone, habsent⟩ | ⟨s₁, s₂, hsome, hcancels, hframe, hsettles⟩
  · rw [hnone]
    exact ⟨sys.state, .absent hc hhandle habsent hphase hfinish, .refl _⟩
  · rw [hsome]
    exact ⟨s₁, .cancel hc hhandle hcancels hframe hphase hfinish, hsettles⟩

lemma check_leads (env i) :
    Leads sched sys now (.check env i) (sys.check sched env i now)
      (sys.body sched now (.check env i)).1 := by
  refine leads_callStep rfl fun c _ hc hhandle => ?_
  cases hphase : c.phase with
  | checking =>
    simp only
    split
    · exact failCall_leads h env hc hhandle rfl rfl
    · exact ⟨sys.state, .turn hc (hphase ▸ .arms _) rfl, .refl _⟩
  | claiming
  | waiting wakeAt
  | returned result
  | dropped => exact leads_idle rfl

end

lemma notified_leads (i) : Leads sched sys now (.notified i) (sys.notified i)
    (sys.body sched now (.notified i)).1 := by
  refine leads_callStep rfl fun c handle hc hhandle => ?_
  cases c.phase with
  | waiting =>
    simp only
    cases hpermit : takePermit sys.state handle with
    | none => exact leads_idle rfl
    | some s₁ => exact ⟨s₁, .permit hc hhandle hpermit, .refl _⟩
  | claiming
  | checking
  | returned result
  | dropped => exact leads_idle rfl

lemma elapsed_leads (env i) :
    Leads sched sys now (.elapsed env i) (sys.elapsed sched env i now)
      (sys.body sched now (.elapsed env i)).1 := by
  refine leads_callStep rfl fun c _ hc _ => ?_
  cases hphase : c.phase with
  | waiting wakeAt =>
    simp only
    split
    · exact ⟨sys.state, .turn hc (hphase ▸ .elapses wakeAt) rfl, .refl _⟩
    · exact leads_idle rfl
  | claiming
  | checking
  | returned result
  | dropped => exact leads_idle rfl

lemma drop_leads (h : Consistent sched sys.state) (env i) :
    Leads sched sys now (.drop env i) (sys.drop sched env i now)
      (sys.body sched now (.drop env i)).1 :=
  leads_callStep rfl fun _ _ hc hhandle => failCall_leads h env hc hhandle rfl rfl

lemma acquire_leads (h : Consistent sched sys.state) (env identity tokens targets text arrivedAt)
    : Leads sched sys now
      (.acquire env identity tokens targets text arrivedAt)
      (sys.perform sched now
        (.acquire env identity tokens targets text arrivedAt))
      (sys.body sched now
        (.acquire env identity tokens targets text arrivedAt)).1 := by
  unfold perform body
  by_cases htime : arrivedAt ≤ now
  · simp only [htime, if_true, true_and]
    unfold acquire
    by_cases htargets : targets = []
    · -- a call that never retained a request
      simp only [htargets, if_true, ne_eq, not_true, if_false]
      exact ⟨sys.state, .reject _ rfl rfl, .refl _⟩
    obtain ⟨s₁, p, error, hbody, hkey, hretains, hframe, hledger⟩ :=
      acquireBody_retains env identity tokens text arrivedAt h.sound h.policy
    simp only [ne_eq, htargets, not_false_iff, if_true, ProgramScheduler.acquireRetain_eq, hbody]
    refine ⟨s₁, .retain env htime htargets hkey hretains hframe hledger rfl ?_, .refl _⟩
    cases error with
    | none => rfl
    | some => rfl
  · simp only [htime, if_false, false_and]
    exact leads_idle rfl

lemma sync_of_installs (sched : ProgramScheduler) (env now) (h : s.installs pool targets = true) :
    sched.syncTargetSnapshotLocked env s pool targets now
      = sched.changeTargets env s pool targets now := by
  unfold installs at h
  rw [Bool.and_eq_true, Bool.not_eq_true', Bool.not_eq_true'] at h
  unfold ProgramScheduler.syncTargetSnapshotLocked
  rw [h.1, h.2]
  rfl

lemma sync_of_not_installs (sched : ProgramScheduler) (env now)
    (h : ¬ s.installs pool targets = true) :
    ∃ snapshots, sched.syncTargetSnapshotLocked env s pool targets now
      = { s with modelTargetSnapshots := snapshots } := by
  unfold installs at h
  unfold ProgramScheduler.syncTargetSnapshotLocked
  split
  · exact ⟨_, rfl⟩
  rename_i hcurrent
  split
  · exact ⟨_, rfl⟩
  rename_i hunchanged
  refine absurd ?_ h
  rw [Bool.and_eq_true, Bool.not_eq_true', Bool.not_eq_true']
  exact ⟨Bool.not_eq_true _ ▸ hcurrent, Bool.not_eq_true _ ▸ hunchanged⟩

lemma sync_leads (h : Consistent sched sys.state) (env pool targets) :
    Leads sched sys now (.sync env pool targets)
      { sys with state := sched.syncTargetSnapshotLocked env sys.state pool targets now }
      (sched.syncTargetSnapshotLocked env sys.state pool targets now) := by
  by_cases hinstalls : sys.state.installs pool targets = true
  · refine ⟨_, .sync env hinstalls (changeTargets_syncs env pool targets now h.sound h.policy), ?_⟩
    rw [← sync_of_installs sched env now hinstalls]
    exact .refl _
  obtain ⟨snapshots, hsync⟩ := sync_of_not_installs sched env now hinstalls
  rw [hsync]
  exact ⟨{ sys.state with modelTargetSnapshots := snapshots },
    .idle ⟨fun _ => rfl, rfl, rfl, rfl⟩ (fun _ => rfl) rfl, .refl _⟩

lemma applyObservation_same (sched : ProgramScheduler) (s : ProgramSchedulerState) (checkpoint)
    (raw : BackendObservation) :
    Same s (sched.applyObservation s checkpoint raw) ∧
      ∀ t, t ≠ raw.targetId → (sched.applyObservation s checkpoint raw).ledger t = s.ledger t := by
  refine ⟨⟨fun r => rfl, rfl, rfl, rfl⟩, fun t ht => ?_⟩
  unfold ledger ProgramScheduler.applyObservation modifyObservation
  simp only [Dict.lookup_upsert, if_neg ht]

lemma Same.trans (h1 : Same s₁ s₂) (h2 : Same s₂ s3) : Same s₁ s3 where
  facts := fun r => (h2.facts r).trans (h1.facts r)
  policy := h2.policy.trans h1.policy
  epoch := h2.epoch.trans h1.epoch
  request := h2.request.trans h1.request

/-- Observations move the ledger of the ranks that they name only. -/
lemma applyObservations_same (sched : ProgramScheduler) (s : ProgramSchedulerState) (epoch)
    (observations : List BackendObservation) :
    Same s (sched.applyObservations s epoch observations) ∧
      ∀ t, t ∉ observations.map BackendObservation.targetId →
        (sched.applyObservations s epoch observations).ledger t = s.ledger t := by
  unfold ProgramScheduler.applyObservations
  split
  · exact ⟨.refl s, fun _ _ => rfl⟩
  refine foldlRecOn (motive := fun s' : ProgramSchedulerState => Same s s' ∧
    ∀ t, t ∉ observations.map _ → s'.ledger t = s.ledger t) observations _
    ⟨.refl s, fun _ _ => rfl⟩ ?_
  rintro s' ⟨hsame, hledger⟩ raw hraw
  split
  · exact ⟨hsame, hledger⟩
  rename_i checkpoint _
  split
  · exact ⟨hsame, hledger⟩
  obtain ⟨hone, hledgerOne⟩ := applyObservation_same sched s' checkpoint raw
  refine ⟨hsame.trans hone, fun t ht => (hledgerOne t ?_).trans (hledger t ht)⟩
  rintro rfl
  exact ht (mem_map_of_mem hraw)

lemma complete_leads (h : Consistent sched sys.state) (env i success terminate usage
    decodeSeconds) :
    Leads sched sys now (.complete env i success terminate usage decodeSeconds)
      (sys.complete sched env i success terminate usage decodeSeconds now)
      (sys.finishBody sched env i success terminate usage decodeSeconds now).1 := by
  unfold complete finishBody
  cases hdispatch : sys.dispatches[i]? with
  | none => exact leads_idle hdispatch
  | some dispatch =>
    simp only [Option.bind_some]
    rcases completeBody_completes env success terminate usage decodeSeconds now
      (h.sound dispatch.program) with
      ⟨hnone, hrefuses⟩ | ⟨s₁, s₂, P, hsome, hP, hepoch, hcompletes, hframe, hsettles⟩
    · rw [hnone]
      exact ⟨sys.state, .refuse hdispatch hrefuses, .refl _⟩
    · rw [hsome]
      exact ⟨s₁, .complete hdispatch hP hepoch hcompletes hframe, hsettles⟩

lemma observe_leads (i observations) :
    Leads sched sys now (.applyObservations i observations)
      (sys.applyObservations sched i observations)
      (sys.applyObservations sched i observations).state := by
  unfold applyObservations
  cases hepoch : sys.epochs[i]? with
  | none => exact leads_idle rfl
  | some epoch =>
    obtain ⟨hsame, hledger⟩ := applyObservations_same sched sys.state epoch observations
    exact ⟨sched.applyObservations sys.state epoch observations, .observe i hsame hledger, .refl _⟩

section

variable (h : Consistent sched sys.state)
include h

/-- What the section of an action does before its decision sequence. -/
lemma perform_leads (now action) :
    Leads sched sys now action (sys.perform sched now action) (sys.body sched now action).1 := by
  cases action with
  | sync env pool targets => exact sync_leads h env pool targets
  | acquire env identity tokens targets text arrivedAt =>
    exact acquire_leads h env identity tokens targets text arrivedAt
  | claim i => exact claim_leads h i
  | check env i => exact check_leads h env i
  | notified i => exact notified_leads i
  | elapsed env i => exact elapsed_leads env i
  | drop env i => exact drop_leads h env i
  | complete env i success terminate usage decodeSeconds =>
    exact complete_leads h env i success terminate usage decodeSeconds
  | tick env
  | beginObservation => exact leads_idle rfl
  | applyObservations i observations => exact observe_leads i observations

/-- A step is an outcome of its action followed by the admissions it lists. -/
lemma step_admits (event) :
    (event.1 < sys.clock ∧ sys.step sched event = sys ∧ sys.admissions sched event = []) ∨
      (sys.clock ≤ event.1 ∧ ∃ s₁, Outcome sched sys event.1 event.2 s₁
          (sys.step sched event).calls (sys.step sched event).dispatches ∧
        sched.Admits s₁ (sys.admissions sched event) (sys.step sched event).state) := by
  unfold step admissions
  split
  · rename_i hclock
    obtain ⟨s₁, houtcome, hsettles⟩ := perform_leads h event.1 event.2
    refine .inr ⟨hclock, s₁, houtcome, ?_⟩
    show sched.Admits s₁ _ (sys.perform sched event.1 event.2).state
    rw [perform_state]
    exact (ProgramScheduler.Admits.settles hsettles).trans
      (sched.follow_admits _ _ fun _ _ => bindingOnly_of_activation)
  · rename_i hclock
    exact .inl ⟨Nat.lt_of_not_le hclock, rfl, rfl⟩

/-- A step with an old clock reading does nothing; any other one performs its
action. -/
lemma step_happens (event) :
    (event.1 < sys.clock ∧ sys.step sched event = sys) ∨
      (sys.clock ≤ event.1 ∧ Happens sched sys event.1 event.2 (sys.step sched event)) := by
  rcases step_admits h event with ⟨hclock, hstep, -⟩ | ⟨hclock, s₁, houtcome, hadmits⟩
  · exact .inl ⟨hclock, hstep⟩
  · exact .inr ⟨hclock, s₁, houtcome, hadmits.decides⟩

end

/-! ## Invariants of the facts of a Program -/

/-- What has to be shown of `I` for the section of an action. -/
structure SectionRule (sched : ProgramScheduler) (sys : System) (now : Instant)
    (action : Action) (I : ProgramRef → Facts → Prop) : Prop where
  permit : ∀ i (c : AcquireCall) (handle : ProgramRequestHandle), action = .notified i →
    sys.calls[i]? = some c →
    c.handle = some handle → I handle.program (sys.state.facts handle.program) →
    I handle.program { sys.state.facts handle.program with
      pending := (sys.state.facts handle.program).pending.map
        (dropPermit handle.requestId) }
  claim : ∀ i c handle f' dispatch, action = .claim i → sys.calls[i]? = some c →
    c.handle = some handle → Claims handle (sys.state.facts handle.program) f' dispatch →
    I handle.program (sys.state.facts handle.program) → I handle.program f'
  cancel : ∀ (i : Nat) (c : AcquireCall) (handle : ProgramRequestHandle) f',
    sys.calls[i]? = some c → c.handle = some handle →
    Cancels handle.requestId (sys.state.facts handle.program) f' →
    I handle.program (sys.state.facts handle.program) → I handle.program f'
  complete : ∀ (dispatch : ProgramDispatch) f', sys.finishing action = some dispatch →
    Completes (sys.state.facts dispatch.program) f' →
    I dispatch.program (sys.state.facts dispatch.program) → I dispatch.program f'
  retain : ∀ env identity estimatedContextTokens targets routingText arrivedAt r f' error,
    action = .acquire env identity estimatedContextTokens targets routingText arrivedAt →
    arrivedAt ≤ now → r.key = identity.key →
    Retains sched r identity (retainedRequest sys.state.runtime identity estimatedContextTokens
      routingText arrivedAt) (sys.state.facts r) f' error →
    I r (sys.state.facts r) → I r f'
  sync : ∀ env pool targets r f', action = .sync env pool targets →
    sys.state.installs pool targets = true →
    Syncs sched r pool (sys.state.removedTargets pool targets.ids) targets.ids
      (sys.state.facts r) f' →
    I r (sys.state.facts r) → I r f'

variable {action : Action} {s₁ : ProgramSchedulerState} {calls : List AcquireCall}
  {dispatches : List ProgramDispatch}

/-- A section keeps what its rule says, of every Program. -/
lemma Outcome.keeps (houtcome : Outcome sched sys now action s₁ calls dispatches)
    (rule : SectionRule sched sys now action I) (hI : ∀ r, I r (sys.state.facts r)) (r) :
    I r (s₁.facts r) := by
  cases houtcome with
  | idle hsame
  | observe _ hsame =>
    rw [hsame.facts]
    exact hI r
  | turn hc hturn
  | reject call hhandle
  | absent hc hhandle habsent
  | refuse => exact hI r
  | @permit _ i c handle hc hhandle hpermit =>
    rw [facts_takePermit hpermit]
    split
    · rename_i hr
      rw [hr]
      exact rule.permit i c handle rfl hc hhandle (hI _)
    · exact hI r
  | @claim _ i c handle dispatch hc hhandle h hframe =>
    by_cases hr : r = handle.program
    · rw [hr]
      exact rule.claim i c handle _ dispatch rfl hc hhandle h (hI _)
    · rw [hframe.others r hr]
      exact hI r
  | @cancel _ _ i c handle _ hc hhandle h hframe =>
    by_cases hr : r = handle.program
    · rw [hr]
      exact rule.cancel i c handle _ hc hhandle h (hI _)
    · rw [hframe.others r hr]
      exact hI r
  | @complete _ _ dispatch _ hfinish _ _ h hframe =>
    by_cases hr : r = dispatch.program
    · rw [hr]
      exact rule.complete dispatch _ hfinish h (hI _)
    · rw [hframe.others r hr]
      exact hI r
  | @retain _ env identity tokens targets text arrivedAt p error call htime
      htargets hkey h hframe =>
    by_cases hr : r = p
    · rw [hr]
      exact rule.retain env identity _ targets _ arrivedAt p _ error rfl htime hkey h (hI _)
    · rw [hframe.others r hr]
      exact hI r
  | @sync _ env pool targets hinstalls h =>
    exact rule.sync env pool targets r _ rfl hinstalls (h.syncs r) (hI r)

lemma soundRule (action) :
    SectionRule sched sys now action fun _ f => Sound sched f where
  permit := fun _ _ _ _ _ _ hf => hf.permit _
  claim := fun _ _ _ _ _ _ _ _ hclaims hf => hclaims.sound hf
  cancel := fun _ _ _ _ _ _ hcancels hf => hcancels.sound hf
  complete := fun _ _ _ hcompletes hf => hcompletes.sound hf
  retain := fun _ _ _ _ _ _ _ _ _ _ _ _ hretains hf => hretains.sound hf
  sync := fun _ _ _ _ _ _ _ hsyncs hf => hsyncs.sound hf

lemma takePermit_eq (h : takePermit s handle = some s') :
    s'.bindings = s.bindings ∧ s'.observations = s.observations ∧
      s'.runtime.nextPlacementEpoch = s.runtime.nextPlacementEpoch ∧
      s'.runtime.requestPool.nextRequestId = s.runtime.requestPool.nextRequestId := by
  unfold takePermit at h
  split at h
  · cases h
    exact ⟨rfl, rfl, rfl, rfl⟩
  · cases h

section

variable (houtcome : Outcome sched sys now action s₁ calls dispatches)
include houtcome

lemma Outcome.policy (h : Consistent sched sys.state) : PolicyOk sched s₁.bindings.policy := by
  cases houtcome with
  | idle hsame
  | observe _ hsame =>
    rw [hsame.policy]
    exact h.policy
  | turn hc hturn
  | reject call hhandle
  | absent
  | refuse => exact h.policy
  | permit _ _ hpermit =>
    rw [(takePermit_eq hpermit).1]
    exact h.policy
  | claim hc hhandle hclaims hframe
  | cancel hc hhandle hcancels hframe
  | complete _ _ _ _ hframe =>
    rw [hframe.policy]
    exact h.policy
  | retain _ _ _ _ _ hframe => exact hframe.policy
  | sync _ _ hsync => exact hsync.policy

lemma Outcome.consistent (h : Consistent sched sys.state) : Consistent sched s₁ where
  sound := houtcome.keeps (soundRule action) h.sound
  policy := houtcome.policy h

end

/-! ## Runs -/

lemma step_consistent (h : Consistent sched sys.state) (event) :
    Consistent sched (sys.step sched event).state := by
  rcases step_happens h event with ⟨-, hstill⟩ | ⟨-, _, houtcome, hdecides⟩
  · rw [hstill]
    exact h
  · exact (houtcome.consistent h).decides hdecides

lemma empty_facts (config r) :
    (empty config).state.facts r
      = ⟨none, [], none, fun _ => 0, fun _ => 0, []⟩ := rfl

lemma empty_consistent (sched) :
    Consistent sched (empty sched.config).state where
  sound := by
    intro r
    rw [empty_facts]
    refine .dead rfl rfl rfl ?_
    rintro (⟨_, ht⟩ | ⟨_, hpool⟩)
    · exact ht rfl
    · exact hpool rfl
  policy := by
    show PolicyOk sched (ProgramBindingPolicy.new sched.config.bindingStrategy
      sched.config.hashVirtualNodes)
    cases hstrategy : sched.config.bindingStrategy with
    | consistentHash =>
      refine ⟨fun _ _ _ h => ?_, fun hcan => hcan hstrategy⟩
      rw [AList.lookup_empty] at h
      cases h
    | programRoundRobin
    | leastProgramCount
    | reasoningTokenBalance
    | cacheAware => exact ⟨trivial, fun _ => trivial⟩

/-- The tables fit together in every reachable state. -/
lemma run_consistent (sched events) :
    Consistent sched ((empty sched.config).run sched events).state :=
  foldl_invariant (I := fun sys : System => Consistent sched sys.state)
    (fun _ event h => step_consistent h event) events _ (empty_consistent sched)

/-- A request is in flight only for a Program that is active, reasoning and placed on a
target of its pool. -/
theorem run_inFlight_placed (sched : ProgramScheduler) (events : List (Instant × Action))
    (r : ProgramRef) : let s := ((empty sched.config).run sched events).state
    s.runtime.program r = none ∨ ∃ P, s.runtime.program r = some P ∧ (P.inFlightRequests = 0 ∨
      P.state = .active ∧ P.status = .reasoning ∧
        ∃ t ∈ (s.modelTargets.lookup r.modelPool).getD [], P.placement = some t) := by
  rcases (run_consistent sched events).sound r with hP | @⟨P, d, hP, -, h⟩
  · exact .inl hP
  refine .inr ⟨P, hP, or_iff_not_imp_left.2 fun hflight => ?_⟩
  have hactive : P.state = .active := by
    cases hs : P.state with
    | active => rfl
    | paused => exact absurd (h.paused hs) hflight
  have hstatus : P.status = .reasoning := by
    cases hs : P.status with
    | reasoning => rfl
    | acting => exact absurd (h.acting hs).1 hflight
  obtain ⟨t, ht⟩ := Option.isSome_iff_exists.1 (h.placed.1 hactive)
  exact ⟨hactive, hstatus, t, h.home t ((h.last hactive).trans ht), ht⟩

/-- What the section rule and the decisions keep is kept by a step. -/
lemma step_facts (h : Consistent sched sys.state) (rule : SectionRule sched sys event.1 event.2 I)
    (htail : ∀ r f f', Tail sched f f' → Sound sched f → I r f → I r f')
    (hI : ∀ r, I r (sys.state.facts r)) (r) :
    I r ((sys.step sched event).state.facts r) := by
  rcases step_happens h event with ⟨-, hstill⟩ | ⟨-, _, houtcome, hdecides⟩
  · rw [hstill]
    exact hI r
  have hkept : Sound sched ((sys.step sched event).state.facts r) ∧
      I r ((sys.step sched event).state.facts r) := by
    refine (hdecides.tails r).keeps (I := fun f => Sound sched f ∧ I r f)
      (fun f f' ht hf => ⟨ht.sound hf.1, htail r f f' ht hf.1 hf.2⟩) ⟨?_, ?_⟩
    · exact (houtcome.consistent h).sound r
    · exact houtcome.keeps rule hI r
  exact hkept.2

section Logged

variable {β : Type} {out : System → Instant × Action → List β} {J : System → List β → Prop}
  (hinit : J (empty sched.config) [])
include hinit

/-- What a guarded step keeps of the system and of what was logged so far, in a
consistent system, is kept by a guarded run. -/
lemma run_guarded_logged
    (hstep : ∀ sys log event, Consistent sched sys.state → guard sys event = true → J sys log →
      J (sys.step sched event) (log ++ out sys event))
    (hguard : guardedRun (step sched) guard (empty sched.config) events = true) :
    J ((empty sched.config).run sched events)
      (runLog (step sched) out (empty sched.config) events) := by
  have hrun := foldl_guarded_logged
    (I := fun sys log => Consistent sched sys.state ∧ J sys log)
    (fun sys log event hg h => ⟨step_consistent h.1 event, hstep sys log event h.1 hg h.2⟩) events
    (empty sched.config) [] hguard ⟨empty_consistent sched, hinit⟩
  exact hrun.2

/-- The same for all steps. -/
lemma run_logged (hstep : ∀ sys log event, Consistent sched sys.state → J sys log →
      J (sys.step sched event) (log ++ out sys event))
    (events) : J ((empty sched.config).run sched events)
      (runLog (step sched) out (empty sched.config) events) :=
  run_guarded_logged hinit (fun sys log event h _ hJ => hstep sys log event h hJ)
    (guardedRun_true events _)

end Logged

/-- What a guarded step keeps, in a consistent system, is kept by a guarded run. -/
lemma run_guarded {J : System → Prop} (hinit : J (empty sched.config))
    (hstep : ∀ sys event, Consistent sched sys.state → guard sys event = true → J sys →
      J (sys.step sched event))
    (hguard : guardedRun (step sched) guard (empty sched.config) events = true) :
    J ((empty sched.config).run sched events) := by
  have hrun := foldl_guarded (I := fun sys => Consistent sched sys.state ∧ J sys)
    (fun sys event hg h => ⟨step_consistent h.1 event, hstep sys event h.1 hg h.2⟩) events _
    hguard ⟨empty_consistent sched, hinit⟩
  exact hrun.2

/-- What a step keeps, in a consistent system, is kept by a run. -/
lemma run_invariant {J : System → Prop} (hinit : J (empty sched.config))
    (hstep : ∀ sys event, Consistent sched sys.state → J sys → J (sys.step sched event)) (events) :
    J ((empty sched.config).run sched events) :=
  run_guarded hinit (fun sys event h _ hJ => hstep sys event h hJ) (guardedRun_true events _)

/-- An invariant of the facts of single Programs, along the runs whose steps
all meet a guard. -/
lemma run_facts (hinit : ∀ r, I r ((empty sched.config).state.facts r))
    (hrule : ∀ sys event, Consistent sched sys.state → guard sys event = true →
      SectionRule sched sys event.1 event.2 I)
    (htail : ∀ r f f', Tail sched f f' → Sound sched f → I r f → I r f')
    (hguard : guardedRun (step sched) guard (empty sched.config) events = true)
    (r) : I r (((empty sched.config).run sched events).state.facts r) :=
  run_guarded (J := fun sys => ∀ r, I r (sys.state.facts r)) hinit
    (fun sys event h hg hI => step_facts h (hrule sys event h hg) htail hI) hguard r

/-! ## A small system

Runs of this scheduler show what the invariants of the next modules do not
promise. It binds to the target with the fewest Programs and admits one Program
per target. -/

def smallScheduler : ProgramScheduler where
  config := { ProgramSchedulerConfig.default with
    bindingStrategy := .leastProgramCount
    maxActiveProgramsPerTarget := 1 }
  libm := ⟨id, id, id⟩
  fbiHash := String.length

/-- A snapshot of the targets with these ids. -/
def snapshot (addr : Nat) (ids : List TargetId) : TargetSnapshot :=
  ⟨addr, ids.map fun id => ⟨id, id, none⟩⟩

/-- The synchronization of a pool with these targets. -/
def syncOf (pool : ModelPool) (addr : Nat) (ids : List TargetId) : Action :=
  .sync .plain pool (snapshot addr ids)

/-- A request of ten tokens for a Program. -/
def arrivalOf (pool : ModelPool) (name : String) (ids : List TargetId) (arrivedAt : Instant) :
    Action :=
  .acquire .plain ⟨pool, name, name, name, true, .default⟩ 10 (snapshot 0 ids).items none arrivedAt

/-- A request of ten tokens that expects an output of this length. -/
def hintedArrival (pool : ModelPool) (name : String) (expected : Nat) (ids : List TargetId)
    (arrivedAt : Instant) : Action :=
  .acquire .plain ⟨pool, name, name, name, true,
    { ProgramRequestHints.default with expectedOutputTokens := some expected }⟩ 10
    (snapshot 0 ids).items none arrivedAt

/-- The system after a run of this scheduler. -/
def smallRun (events : List (Instant × Action)) : System :=
  (empty smallScheduler.config).run smallScheduler events

/-- The small scheduler with room for 200 tokens on every target. -/
def narrowScheduler : ProgramScheduler :=
  { smallScheduler with config := { smallScheduler.config with
      progressTtl := { smallScheduler.config.progressTtl with tokenCapacity := some 200 } } }

end VllmRouter.ProgramScheduling
