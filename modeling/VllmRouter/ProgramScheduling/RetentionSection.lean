import VllmRouter.ProgramScheduling.CompletionSection

/-!
# Retentions, Program by Program

The first section of `acquire_synced` retains a request of a known Program, or
of a new one that it binds (`Arrives`). Then the arrival is accounted on its
placement, queued with a deadline, or refused because the Program has no target
(`Retains`). This is the only section whose accounting does not always follow
the tokens of the Program: `growth` is what it accounts.
-/

namespace VllmRouter.ProgramScheduling

open ProgramScheduler ProgramSchedulerState ProgramRuntime

/-! ## Arrivals -/

/-- What the arrival of a request does to the facts of its Program `p`. -/
inductive Arrives (sched : ProgramScheduler) (p : ProgramRef) (identity : ProgramIdentity)
    (request : PendingProgramRequest) : Facts → Facts → Prop
  | known {f : Facts} {P : RuntimeProgram} {d : ProgramDecisionState}
      (hP : f.program = some P) (hd : f.decision = some d) :
      Arrives sched p identity request f { f with
        program := some (P.retained identity.expectedResume request.estimatedContextTokens)
        pending := f.pending ++ [request]
        decision := some (refreshed identity request.estimatedContextTokens d) }
  | fresh {f : Facts} {target : Option TargetId} (hP : f.program = none)
      (hd : f.decision = none) (hhome : ∀ t, target = some t → t ∈ f.home)
      (hbound : sched.CanBind → f.home ≠ [] → target.isSome = true) :
      Arrives sched p identity request f { f with
        program := some (.fresh p identity.expectedResume request.estimatedContextTokens)
        pending := f.pending ++ [request]
        decision := some (freshDecision identity target request.estimatedContextTokens
          request.arrivedAt) }

lemma refreshed_same (identity tokens d) :
    SameWait d (refreshed identity tokens d) ∧
      (refreshed identity tokens d).pausedAt = d.pausedAt ∧
      (refreshed identity tokens d).pauseWhenIdle = d.pauseWhenIdle := by
  unfold refreshed
  split
  · exact ⟨⟨rfl, rfl, rfl⟩, rfl, rfl⟩
  · exact ⟨⟨rfl, rfl, rfl⟩, rfl, rfl⟩

/-- The request that `retain_request` creates. -/
def retainedRequest (rt : ProgramRuntime) (identity : ProgramIdentity)
    (estimatedContextTokens : Nat) (routingText : Option String) (arrivedAt : Instant) :
    PendingProgramRequest :=
  ⟨rt.requestPool.nextRequestId + 1, arrivedAt, estimatedContextTokens, routingText,
    identity.requestHints, false⟩

variable (rt : ProgramRuntime) (identity : ProgramIdentity) (tokens : Nat)

/-- The Program of an arriving request is the stored one, or a new generation
that nothing is stored for. -/
lemma materialize_cases : (rt.materialize identity tokens).2.key = identity.key ∧
      (rt.materialize identity tokens).1.requestPool = rt.requestPool ∧
      (rt.materialize identity tokens).1.nextPlacementEpoch
        = rt.nextPlacementEpoch ∧
      ∃ Q, (∀ r, (rt.materialize identity tokens).1.program r
          = if r = (rt.materialize identity tokens).2 then some Q
            else rt.program r) ∧
        ((∃ P, rt.program (rt.materialize identity tokens).2 = some P ∧
            Q = P.retained identity.expectedResume tokens) ∨
          rt.program (rt.materialize identity tokens).2 = none ∧
            Q = .fresh (rt.materialize identity tokens).2
              identity.expectedResume tokens) := by
  unfold materialize
  cases hlookup : rt.programs.lookup identity.key with
  | some P =>
    have hkey : P.reference.key = identity.key := rt.keyed _ _ hlookup
    have hP : rt.program P.reference = some P := program_of_lookup hlookup
    exact ⟨hkey, rfl, rfl, _, program_update hP rfl, .inl ⟨P, hP, rfl⟩⟩
  | none =>
    have hnone : ∀ generation, rt.program
        ⟨identity.modelPool, identity.programId, generation⟩ = none := by
      intro generation
      unfold program
      rw [show (ProgramRef.key ⟨identity.modelPool, identity.programId, generation⟩)
        = identity.key from rfl, hlookup]
      rfl
    refine ⟨rfl, rfl, rfl, _, fun r => ?_, .inr ⟨hnone _, rfl⟩⟩
    refine program_setProgram (fun q hq => ?_) r
    have hstored : rt.programs.lookup identity.key = some q := hq
    rw [hlookup] at hstored
    cases hstored

/-- Retaining a request: one more request behind those of its Program. -/
lemma retainRequest_spec (routingText arrivedAt) :
    ∃ rt' p Q, rt.retainRequest identity tokens routingText arrivedAt
        = (rt', ⟨p, rt.requestPool.nextRequestId + 1⟩) ∧ p.key = identity.key ∧
      (∀ r, rt'.program r = if r = p then some Q else rt.program r) ∧
      (∀ r, rt'.requestPool.queue r = if r = p then rt.requestPool.queue p ++
          [retainedRequest rt identity tokens routingText arrivedAt]
        else rt.requestPool.queue r) ∧ rt'.nextPlacementEpoch = rt.nextPlacementEpoch ∧
      rt'.requestPool.nextRequestId = rt.requestPool.nextRequestId + 1 ∧
      ((∃ P, rt.program p = some P ∧
          Q = P.retained identity.expectedResume tokens) ∨
        rt.program p = none ∧ Q = .fresh p identity.expectedResume tokens) := by
  obtain ⟨hkey, hpool, hepoch, Q, hprogram, hQ⟩ :=
    materialize_cases (rt.keepGeneration identity.key) identity tokens
  unfold retainRequest
  generalize (rt.keepGeneration identity.key).materialize identity tokens
    = materialized at hkey hpool hepoch hprogram hQ ⊢
  obtain ⟨rt1, p⟩ := materialized
  have hpool' : rt1.requestPool = rt.requestPool := hpool
  have hrequest : retainedRequest rt identity tokens routingText arrivedAt
      = ⟨rt1.requestPool.nextRequestId + 1, arrivedAt, tokens, routingText,
        identity.requestHints, false⟩ := by
    rw [hpool']
    rfl
  refine ⟨{ rt1 with requestPool := (rt1.requestPool.retain p arrivedAt tokens
    routingText identity.requestHints).1 }, p, Q, by rw [← hpool']; rfl, hkey, hprogram,
      fun r => ?_, hepoch, ?_, hQ⟩
  · rw [hrequest, ← hpool']
    exact RequestPool.queue_setQueue _ _ _ r
  · rw [← hpool']
    rfl

/-- Continuity samples go to the factors of a rank only. -/
lemma recordContinuity_eq (sched : ProgramScheduler) (s p arrivedAt) :
    ∃ factors, sched.recordContinuity s p arrivedAt = { s with rankFactors := factors } := by
  unfold recordContinuity
  split
  · split
    · split
      · exact ⟨_, rfl⟩
      · exact ⟨_, rfl⟩
    · exact ⟨_, rfl⟩
  · exact ⟨_, rfl⟩

/-- The binding policy is in order: its rings are built for their targets, and
it finds a target when it should. -/
structure PolicyOk (sched : ProgramScheduler) (policy : ProgramBindingPolicy) : Prop where
  built : policy.Built sched.fbiHash
  can : sched.CanBind → policy.CanSelect

/-- The candidates of a binding are the targets of its pool. -/
lemma map_bindingCandidates (sched : ProgramScheduler) (env) (s : ProgramSchedulerState)
    (identity : ProgramIdentity) (now) :
    (sched.bindingCandidates env s identity now).map ProgramBindingCandidate.targetId
      = (s.modelTargets.lookup identity.modelPool).getD [] := by
  unfold bindingCandidates
  cases s.modelTargets.lookup identity.modelPool with
  | none => rfl
  | some targets =>
    simp only [List.map_map]
    exact List.map_id targets

variable {s : ProgramSchedulerState} {sched : ProgramScheduler} {p : ProgramRef}
  {identity : ProgramIdentity} {request : PendingProgramRequest}

variable (env : Env) (identity : ProgramIdentity)

/-- Binding a Program of the pool. -/
lemma bind_spec (routingText now) (hpolicy : PolicyOk sched s.bindings.policy) :
    ∃ bindings target, sched.bind env s identity routingText now
        = ({ s with bindings := bindings }, target) ∧ PolicyOk sched bindings.policy ∧
      (∀ t, target = some t → t ∈ (s.modelTargets.lookup identity.modelPool).getD []) ∧
      (sched.CanBind → (s.modelTargets.lookup identity.modelPool).getD [] ≠ [] →
        target.isSome = true) := by
  have hbinds := ProgramBindings.bind_binds ⟨sched.fbiHash, env.matchedChars⟩ identity
    (sched.bindingCandidates env s identity now) routingText hpolicy.built
  rw [map_bindingCandidates] at hbinds
  exact ⟨_, _, rfl, ⟨hbinds.built, fun hcan => hbinds.can (hpolicy.can hcan)⟩, hbinds.mem,
    fun hcan => hbinds.some (hpolicy.can hcan)⟩

/-- What an arrival leaves as it was. -/
structure ArrivalFrame (sched : ProgramScheduler) (p : ProgramRef)
    (s s' : ProgramSchedulerState) : Prop where
  others : ∀ r, r ≠ p → s'.facts r = s.facts r
  policy : PolicyOk sched s'.bindings.policy
  epoch : s'.runtime.nextPlacementEpoch = s.runtime.nextPlacementEpoch
  request : s'.runtime.requestPool.nextRequestId = s.runtime.requestPool.nextRequestId + 1

lemma ensureDecisionState_spec (tokens now routingText)
    (hkey : p.key = identity.key) (hpolicy : PolicyOk sched s.bindings.policy) :
    ∃ bindings decisions d, sched.ensureDecisionState env s identity p tokens now
        routingText = { s with bindings := bindings, decisions := decisions } ∧
      PolicyOk sched bindings.policy ∧
      (∀ r, decisions.lookup r = if r = p then some d else s.decisions.lookup r) ∧
      ((∃ d0, s.decisions.lookup p = some d0 ∧ d = refreshed identity tokens d0) ∨
        (s.decisions.lookup p = none ∧ ∃ target,
          d = freshDecision identity target tokens now ∧
          (∀ t, target = some t → t ∈ (s.facts p).home) ∧
          (sched.CanBind → (s.facts p).home ≠ [] → target.isSome = true))) := by
  have hpool : identity.modelPool = p.modelPool := congrArg RuntimeKey.modelPool hkey.symm
  unfold ensureDecisionState
  cases hd : s.decisions.lookup p with
  | some d =>
    exact ⟨s.bindings, _, _, rfl, hpolicy, fun r => Dict.lookup_insert_eq _ _ _ _,
      .inl ⟨d, rfl, rfl⟩⟩
  | none =>
    obtain ⟨bindings, target, hbind, hok, hmem, hsome⟩ :=
      bind_spec env identity routingText now hpolicy
    rw [hpool] at hmem hsome
    rw [hbind]
    exact ⟨bindings, _, _, rfl, hok, fun r => Dict.lookup_insert_eq _ _ _ _,
      .inr ⟨rfl, target, rfl, hmem, hsome⟩⟩

lemma arrive_arrives (tokens routingText arrivedAt)
    (hsound : ∀ r, Sound sched (s.facts r)) (hpolicy : PolicyOk sched s.bindings.policy) :
    ∃ s1 p, sched.arrive env s identity tokens routingText arrivedAt
        = (s1, ⟨p, s.runtime.requestPool.nextRequestId + 1⟩) ∧ p.key = identity.key ∧
      Arrives sched p identity (retainedRequest s.runtime identity tokens
        routingText arrivedAt) (s.facts p) (s1.facts p) ∧
      ArrivalFrame sched p s s1 ∧ s1.observations = s.observations := by
  obtain ⟨rt, p, Q, hretain, hkey, hprogram, hqueue, hepoch, hrequest, hQ⟩ :=
    retainRequest_spec s.runtime identity tokens routingText arrivedAt
  obtain ⟨factors, hsample⟩ := recordContinuity_eq sched { s with runtime := rt } p arrivedAt
  obtain ⟨bindings, decisions, d, hensure, hok, hdecisions, hd⟩ :=
    ensureDecisionState_spec (s := { s with runtime := rt, rankFactors := factors }) env identity
      tokens arrivedAt routingText hkey hpolicy
  refine ⟨{ s with
    runtime := rt, rankFactors := factors, bindings := bindings, decisions := decisions }, p,
    ?_, hkey, ?_, ⟨fun r hr => ?_, hok, hepoch, hrequest⟩, rfl⟩
  · unfold arrive
    rw [hretain]
    simp [hsample, hensure]
  · have hafter : ({ s with
        runtime := rt, rankFactors := factors, bindings := bindings,
        decisions := decisions } : ProgramSchedulerState).facts p
        = { s.facts p with
          program := some Q
          pending := (s.facts p).pending ++ [retainedRequest s.runtime identity
            tokens routingText arrivedAt]
          decision := some d } := by
      unfold facts
      simp [hprogram, hqueue, hdecisions]
    rw [hafter]
    -- the Program is known to the runtime exactly when it has a decision
    rcases hsound p with ⟨hP, hdec, -, -⟩ | ⟨hP, hdec, -⟩
    · rcases hQ with ⟨P', hP', -⟩ | ⟨-, rfl⟩
      · rw [show s.runtime.program p = none from hP] at hP'
        cases hP'
      rcases hd with ⟨_, hd0, -⟩ | ⟨-, _, rfl, hhome, hbound⟩
      · rw [show s.decisions.lookup p = none from hdec] at hd0
        cases hd0
      · exact .fresh hP hdec hhome hbound
    rcases hQ with ⟨P', hP', rfl⟩ | ⟨hP', -⟩
    · rcases hd with ⟨d0, hd0, rfl⟩ | ⟨hd0, -⟩
      · exact .known hP' hd0
      · rw [show s.decisions.lookup p = some _ from hdec] at hd0
        cases hd0
    · rw [show s.runtime.program p = _ from hP] at hP'
      cases hP'
  · unfold facts
    simp [hprogram, hqueue, hdecisions, if_neg hr]

variable {env identity}

/-! ## Queueing -/

/-- Counts in which `k` occurs at least once. -/
def atLeastOnce {K : Type} [DecidableEq K] (k : K) (counts : K → Nat) : K → Nat :=
  fun k' => if k' = k ∧ counts k' = 0 then 1 else counts k'

lemma atLeastOnce_of_ne {K : Type} [DecidableEq K] {k : K} {counts : K → Nat} (h : counts k ≠ 0) :
    atLeastOnce k counts = counts := by
  funext k'
  unfold atLeastOnce
  rw [if_neg]
  rintro ⟨rfl, hzero⟩
  exact h hzero

lemma atLeastOnce_of_zero {K : Type} [DecidableEq K] {k : K} {counts : K → Nat}
    (h : counts k = 0) : atLeastOnce k counts = fun k' => counts k' + if k' = k then 1 else 0 := by
  funext k'
  unfold atLeastOnce
  by_cases hk : k' = k
  · subst hk
    simp [h]
  · simp [hk]

/-- A Program in the queue of `target`, or of `pool` in the global mode, once. -/
def Facts.enqueuedOnce (sched : ProgramScheduler) (pool : ModelPool) (target : TargetId)
    (f : Facts) : Facts :=
  if sched.config.globalQueue then { f with inPool := atLeastOnce pool f.inPool }
  else { f with inRank := atLeastOnce target f.inRank }

lemma facts_enqueueOnce (sched : ProgramScheduler) (s : ProgramSchedulerState) (p : ProgramRef)
    (t r) : (sched.enqueueOnce s p t).facts r
      = if r = p then (s.facts r).enqueuedOnce sched p.modelPool t else s.facts r := by
  have hmem : ∀ queue : List ProgramRef, p ∈ queue ↔ queue.count p ≠ 0 := by
    intro _
    rw [ne_eq, List.count_eq_zero, not_not]
  unfold enqueueOnce waitingQueue Facts.enqueuedOnce
  cases sched.config.globalQueue with
  | true =>
    simp only [if_true]
    split
    · rename_i hqueued
      have hcount : (s.facts p).inPool p.modelPool ≠ 0 := (hmem _).1 hqueued
      split
      · rename_i hr
        rw [hr, atLeastOnce_of_ne hcount]
      · rfl
    rename_i hqueued
    have hcount : (s.facts p).inPool p.modelPool = 0 := not_not.1 fun h => hqueued ((hmem _).2 h)
    rw [facts_enqueueGlobal]
    split
    · rename_i hr
      rw [hr, atLeastOnce_of_zero hcount]
    · rfl
  | false =>
    simp only [Bool.false_eq_true, if_false]
    split
    · rename_i hqueued
      have hcount : (s.facts p).inRank t ≠ 0 := (hmem _).1 hqueued
      by_cases hr : r = p
      · rw [if_pos hr, hr, atLeastOnce_of_ne hcount]
      · rw [if_neg hr]
    rename_i hqueued
    have hcount : (s.facts p).inRank t = 0 := not_not.1 fun h => hqueued ((hmem _).2 h)
    rw [facts_enqueueRank]
    by_cases hr : r = p
    · rw [if_pos hr, if_pos hr, hr, atLeastOnce_of_zero hcount]
    · rw [if_neg hr, if_neg hr]

/-- The time until a forced resume, from the deadline hint of the front request
or else from an estimate. -/
def resumeTimeout (sched : ProgramScheduler) (pending : List PendingProgramRequest)
    (estimate : ForceResumeEstimate) : Duration :=
  min (((pending.head?.map PendingProgramRequest.hints).bind ProgramRequestHints.deadline).getD
    estimate.timeout) sched.config.queueTimeout

/-- What a retention does to the facts of its Program, and the error of a call
that ends with it. -/
inductive Retains (sched : ProgramScheduler) (p : ProgramRef) (identity : ProgramIdentity)
    (request : PendingProgramRequest) : Facts → Facts → Option ScheduleError → Prop
  | placed {f f₁ : Facts} {P : RuntimeProgram} (h : Arrives sched p identity request f f₁)
      (hP : f₁.program = some P) (hplace : P.placement.isSome = true) :
      Retains sched p identity request f f₁ none
  | unbound {f f₁ : Facts} {P : RuntimeProgram} {d : ProgramDecisionState}
      (h : Arrives sched p identity request f f₁) (hP : f₁.program = some P)
      (hplace : P.placement = none) (hd : f₁.decision = some d) (hlast : d.lastTarget = none) :
      Retains sched p identity request f f₁ (some .noTargets)
  | queued {f f₁ : Facts} {P : RuntimeProgram} {d : ProgramDecisionState} {t : TargetId}
      (estimate : ForceResumeEstimate) (h : Arrives sched p identity request f f₁)
      (hP : f₁.program = some P) (hplace : P.placement = none) (hd : f₁.decision = some d)
      (hlast : d.lastTarget = some t) :
      Retains sched p identity request f
        { f₁.enqueuedOnce sched p.modelPool t with
          decision := some (withDeadline request.arrivedAt
            (resumeTimeout sched f₁.pending estimate) estimate
            (queuedSince request.arrivedAt d)) } none

variable {f f₁ : Facts} {d d' : ProgramDecisionState}

lemma lastTarget_arrive (h : Arrives sched p identity request f f₁) (hlive : f.program ≠ none) :
    f₁.lastTarget = f.lastTarget := by
  cases h with
  | known hP hd =>
    rw [Facts.lastTarget_eq hd]
    exact (refreshed_same identity request.estimatedContextTokens _).1.last
  | fresh hP => exact absurd hP hlive

lemma lastTarget_retain (h : Retains sched p identity request f f' error)
    (hlive : f.program ≠ none) :
    f'.lastTarget = f.lastTarget := by
  cases h with
  | placed harrives
  | unbound harrives => exact lastTarget_arrive harrives hlive
  | queued _ harrives _ _ hd =>
    rw [← lastTarget_arrive harrives hlive, Facts.lastTarget_eq hd]
    rfl

variable (sched : ProgramScheduler)

lemma enqueueOnce_eq (s p t) :
    ∃ ranks pools, sched.enqueueOnce s p t
      = { s with rankQueues := ranks, globalQueues := pools } := by
  unfold enqueueOnce
  split
  · exact ⟨_, _, rfl⟩
  split
  · exact ⟨_, _, rfl⟩
  · exact ⟨_, _, rfl⟩

lemma setForceResumeDeadline_eq (env s t p now) :
    ∃ estimate, sched.setForceResumeDeadline env s t p now = s.modifyDecision p (withDeadline now
        (resumeTimeout sched (s.facts p).pending estimate) estimate) :=
  ⟨_, rfl⟩

/-- Queueing changes the queues and the decision of the Program. -/
lemma queueArrival_spec (env t arrivedAt) (hd : s.decisions.lookup p = some d) :
    ∃ estimate, (∀ r, (sched.queueArrival env s p t arrivedAt).facts r = if r = p
        then { (s.facts r).enqueuedOnce sched p.modelPool t with
          decision := some (withDeadline arrivedAt
            (resumeTimeout sched (s.facts p).pending estimate) estimate (queuedSince arrivedAt d)) }
        else s.facts r) ∧ (sched.queueArrival env s p t arrivedAt).runtime = s.runtime ∧
      (sched.queueArrival env s p t arrivedAt).bindings = s.bindings ∧
      (sched.queueArrival env s p t arrivedAt).observations = s.observations := by
  obtain ⟨_, _, henqueue⟩ := enqueueOnce_eq sched s p t
  obtain ⟨estimate, hdeadline⟩ := setForceResumeDeadline_eq sched env
    ((sched.enqueueOnce s p t).modifyDecision p (queuedSince arrivedAt)) t p arrivedAt
  have hpending : (((sched.enqueueOnce s p t).modifyDecision p
      (queuedSince arrivedAt)).facts p).pending = (s.facts p).pending := by
    rw [henqueue]
    rfl
  have hdecision : (sched.enqueueOnce s p t).decisions = s.decisions := by rw [henqueue]
  refine ⟨estimate, fun r => ?_, ?_⟩
  · unfold queueArrival
    rw [hdeadline, hpending, facts_modifyDecision, facts_modifyDecision]
    by_cases hr : r = p
    · have hdec : ((sched.enqueueOnce s p t).facts r).decision = some d := by
        rw [hr]
        show (sched.enqueueOnce s p t).decisions.lookup p = some d
        rw [hdecision, hd]
      simp only [if_pos hr, hdec, Option.map_some]
      rw [facts_enqueueOnce, if_pos hr]
    · simp only [if_neg hr]
      rw [facts_enqueueOnce, if_neg hr]
  · unfold queueArrival
    rw [henqueue]
    exact ⟨rfl, rfl, rfl⟩

/-! ## Accounting -/

/-- What an arrival accounts of the change of its Program's tokens: growth, and
nothing for a Program that is marked to pause. -/
def growth (f f' : Facts) (t : TargetId) : Rat :=
  if f.decision.any ProgramDecisionState.pauseWhenIdle then 0
  else max (f'.tokensOn sched t - f.tokensOn sched t) 0

variable {sched}

lemma growth_eq_zero (h : f'.tokensOn sched t = f.tokensOn sched t) :
    growth sched f f' t = 0 := by
  unfold growth
  split
  · rfl
  · rw [h, sub_self, max_self]

/-- A Program without a placement keeps no tokens anywhere. -/
lemma Facts.tokensOn_unplaced (h : ∀ P, f.program = some P → P.placement = none) (t) :
    f.tokensOn sched t = 0 := by
  unfold Facts.tokensOn
  cases hP : f.program with
  | none => rfl
  | some P =>
    cases f.decision with
    | none => rfl
    | some => simp [h P hP]

section

variable (h : Arrives sched p identity request f f₁)
include h

/-- An arrival keeps the placement of its Program. -/
lemma Arrives.placement (hQ : f₁.program = some Q) :
    f.program.bind RuntimeProgram.placement = Q.placement := by
  cases h with
  | known hP hd
  | fresh hP =>
    cases hQ
    rw [hP]
    rfl

lemma Arrives.live :
    ∃ Q e, f₁.program = some Q ∧ f₁.decision = some e := by
  cases h with
  | known => exact ⟨_, _, rfl, rfl⟩
  | fresh => exact ⟨_, _, rfl, rfl⟩

/-- A placed Program was known before. -/
lemma Arrives.known_of_placed (hQ : f₁.program = some Q) (hd' : f₁.decision = some d')
    (hplace : Q.placement.isSome = true) :
    ∃ P d, f.program = some P ∧ f.decision = some d ∧ Q.state = P.state ∧
      Q.placement = P.placement ∧ d'.pauseWhenIdle = d.pauseWhenIdle := by
  cases h with
  | known hP hd =>
    cases hQ
    cases hd'
    exact ⟨_, _, hP, hd, rfl, rfl, (refreshed_same _ _ _).2.2⟩
  | fresh =>
    cases hQ
    cases hplace

end

variable (sched : ProgramScheduler)

lemma accountGrowth_eq (s p t previousTokens) :
    ∃ observations, sched.accountGrowth s p t previousTokens
      = { s with observations := observations } := by
  unfold accountGrowth
  simp only
  split
  · exact ⟨_, rfl⟩
  · exact ⟨_, rfl⟩

/-- The accounting of an arrival on a placement. -/
lemma ledger_accountGrowth (hP : (s.facts p).program = some P)
    (hd : (s.facts p).decision = some d) (hactive : P.state = .active) (ht : P.placement = some t)
    (hQ : (s1.facts p).program = some Q) (hstate : Q.state = P.state)
    (hplace : Q.placement = P.placement) (hd' : (s1.facts p).decision = some d')
    (hmark : d'.pauseWhenIdle = d.pauseWhenIdle) (hledger : ∀ t, s1.ledger t = s.ledger t) (t') :
    (sched.accountGrowth s1 p t (sched.tokensOf d)).ledger t'
      = s.ledger t' + growth sched (s.facts p) (s1.facts p) t' := by
  have hat : s1.decisionAt p = d' := by
    unfold decisionAt
    rw [show s1.decisions.lookup p = some d' from hd']
    rfl
  unfold accountGrowth growth
  rw [hat, hd, Option.any_some, hmark, Facts.tokensOn_active hP hd hactive ht,
    Facts.tokensOn_active hQ hd' (hstate.trans hactive) (hplace.trans ht)]
  cases hpause : d.pauseWhenIdle with
  | true => simp [hledger]
  | false =>
    simp only [Bool.not_false, Bool.true_and, decide_eq_true_eq, Bool.false_eq_true, if_false]
    split
    · rename_i hgrows
      rw [ledger_adjustUsage, hledger]
      split
      · rw [max_eq_left (sub_nonneg.2 hgrows.le)]
      · rw [sub_self, max_self]
    rename_i hshrinks
    rw [hledger]
    split
    · rw [max_eq_right (sub_nonpos.2 (not_lt.1 hshrinks)), add_zero]
    · rw [sub_self, max_self, add_zero]

/-! ## The section -/

/-- What follows a retention: the decisions of an arrival, or nothing when the
call ends with an error. -/
def ProgramScheduler.afterRetention (env : Env)
    (s : ProgramSchedulerState) (p : ProgramRef) (arrivedAt now : Instant) :
    Option ScheduleError → ProgramSchedulerState
  | some _ => s
  | none => sched.runArrival env s p arrivedAt now

lemma ProgramScheduler.afterRetention_eq (env s p arrivedAt now error) :
    sched.afterRetention env s p arrivedAt now error
      = sched.follow s (sched.arrivalFollowUp env p arrivedAt now error) := by
  cases error with
  | some => rfl
  | none =>
    show sched.runArrival env s p arrivedAt now = sched.follow s (if _ then _ else _)
    unfold runArrival
    split
    · rfl
    · rfl

variable {sched}

variable (env : Env) (identity : ProgramIdentity) (tokens : Nat)
  (routingText : Option String)

/-- What a retention does before the decisions of the arrival. -/
lemma acquireBody_retains (arrivedAt) (hsound : ∀ r, Sound sched (s.facts r))
    (hpolicy : PolicyOk sched s.bindings.policy) :
    ∃ s1 p error, sched.acquireBody env s identity tokens routingText
        arrivedAt = (s1, ⟨p, s.runtime.requestPool.nextRequestId + 1⟩, error) ∧
      p.key = identity.key ∧
      Retains sched p identity (retainedRequest s.runtime identity tokens
        routingText arrivedAt) (s.facts p) (s1.facts p) error ∧ ArrivalFrame sched p s s1 ∧
      ∀ t, s1.ledger t = s.ledger t + growth sched (s.facts p) (s1.facts p) t := by
  obtain ⟨s0, p, harrive, hkey, harrives, hframe, hobs⟩ :=
    arrive_arrives env identity tokens routingText arrivedAt hsound hpolicy
  have hledger : ∀ t, s0.ledger t = s.ledger t := by
    intro t
    unfold ledger
    rw [hobs]
  obtain ⟨Q, e, hQ, he⟩ := harrives.live
  have hat : s0.decisionAt p = e := by
    unfold decisionAt
    rw [show s0.decisions.lookup p = some e from he]
    rfl
  have hplacement : s0.runtime.placement p = Q.placement := by
    unfold placement
    rw [show s0.runtime.program p = some Q from hQ]
    rfl
  unfold acquireBody
  rw [harrive]
  simp only [placeArrival, hplacement, hat]
  cases hplace : Q.placement with
  | some t =>
    obtain ⟨P, d, hP, hd, hstate, hsame, hmark⟩ :=
      harrives.known_of_placed hQ he (by rw [hplace]; rfl)
    have ht : P.placement = some t := hsame.symm.trans hplace
    obtain ⟨_, _, hlive⟩ := (hsound p).of_program hP
    have hactive : P.state = .active := hlive.placed.2 (by rw [ht]; rfl)
    have hprevious : ((s.decisions.lookup p).map sched.tokensOf).getD 0 = sched.tokensOf d := by
      rw [show s.decisions.lookup p = some d from hd]
      rfl
    have hgrowth := ledger_accountGrowth sched hP hd hactive ht hQ hstate hsame he hmark hledger
    obtain ⟨observations, haccount⟩ := accountGrowth_eq sched s0 p t (sched.tokensOf d)
    rw [haccount] at hgrowth
    simp only [hprevious, haccount]
    refine ⟨{ s0 with observations := observations }, p, none, rfl, hkey, ?_,
      ⟨hframe.others, hframe.policy, hframe.epoch, hframe.request⟩, hgrowth⟩
    exact .placed harrives hQ (by rw [hplace]; rfl)
  | none =>
    have hunplaced : ∀ t, (s.facts p).tokensOn sched t = 0 := Facts.tokensOn_unplaced fun P hP => by
        have := harrives.placement hQ
        rw [hP, hplace] at this
        exact this
    cases hlast : e.lastTarget with
    | none =>
      refine ⟨s0, p, some .noTargets, rfl, hkey, .unbound harrives hQ hplace he hlast, hframe,
        fun t => ?_⟩
      rw [hledger, growth_eq_zero, add_zero]
      rw [hunplaced]
      exact Facts.tokensOn_unplaced (fun P hP => by rw [hQ] at hP; cases hP; exact hplace) t
    | some t =>
      obtain ⟨estimate, hfacts, hruntime, hbindings, hobs'⟩ :=
        queueArrival_spec sched env t arrivedAt he
      have hself := hfacts p
      rw [if_pos rfl] at hself
      refine ⟨sched.queueArrival env s0 p t arrivedAt, p, none, rfl, hkey, ?_,
        ⟨fun r hr => ?_, ?_, ?_, ?_⟩, fun t' => ?_⟩
      · rw [hself]
        exact .queued estimate harrives hQ hplace he hlast
      · rw [hfacts, if_neg hr, hframe.others r hr]
      · rw [hbindings]
        exact hframe.policy
      · rw [hruntime, hframe.epoch]
      · rw [hruntime, hframe.request]
      have hsame : (sched.queueArrival env s0 p t arrivedAt).ledger t' = s0.ledger t' := by
        unfold ledger
        rw [hobs']
      rw [hsame, hledger, growth_eq_zero, add_zero]
      rw [hunplaced]
      refine Facts.tokensOn_unplaced (fun P hP => ?_) t'
      have hprogram : (sched.queueArrival env s0 p t arrivedAt).runtime.program p = some P := hP
      rw [hruntime, show s0.runtime.program p = some Q from hQ] at hprogram
      cases hprogram
      exact hplace

/-- A retention is a change of its Program followed by decisions. -/
lemma acquireRetain_retains (arrivedAt now) (hsound : ∀ r, Sound sched (s.facts r))
    (hpolicy : PolicyOk sched s.bindings.policy) :
    ∃ s1 p error, sched.acquireRetain env s identity tokens routingText
        arrivedAt now = (sched.afterRetention env s1 p arrivedAt now error,
          ⟨p, s.runtime.requestPool.nextRequestId + 1⟩, error) ∧
      Retains sched p identity (retainedRequest s.runtime identity tokens
        routingText arrivedAt) (s.facts p) (s1.facts p) error ∧ ArrivalFrame sched p s s1 := by
  obtain ⟨s1, p, error, hbody, -, hretains, hframe, -⟩ :=
    acquireBody_retains env identity tokens routingText arrivedAt hsound hpolicy
  refine ⟨s1, p, error, ?_, hretains, hframe⟩
  rw [acquireRetain_eq, hbody, afterRetention_eq]

end VllmRouter.ProgramScheduling
