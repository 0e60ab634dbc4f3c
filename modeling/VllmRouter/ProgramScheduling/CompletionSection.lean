import VllmRouter.ProgramScheduling.Sections

/-!
# Completions, Program by Program

A completion that is accepted takes one request of an active Program out of
flight. The Program keeps its placement, or is paused when the completion
leaves it idle and it failed or was marked; the ledger moves with its tokens
in both cases. A completion that terminates the Program then releases it, which
is one of the decisions that follow.
-/

namespace VllmRouter.ProgramScheduling

open ProgramScheduler ProgramSchedulerState Facts

/-- Where a Program is bound and since when it waits are the same. -/
structure SameWait (d d' : ProgramDecisionState) : Prop where
  last : d'.lastTarget = d.lastTarget
  queuedAt : d'.queuedAt = d.queuedAt
  deadline : d'.forceResumeDeadline = d.forceResumeDeadline

lemma SameWait.trans (h1 : SameWait d1 d2) (h2 : SameWait d2 d3) : SameWait d1 d3 :=
  ⟨h2.last.trans h1.last, h2.queuedAt.trans h1.queuedAt, h2.deadline.trans h1.deadline⟩

/-- What a completion does to the facts of the Program. -/
inductive Completes : Facts → Facts → Prop
  | runs {f : Facts} {P : RuntimeProgram} {d d' : ProgramDecisionState} (promptTokens : Nat)
      (hP : f.program = some P) (hd : f.decision = some d) (hactive : P.state = .active)
      (hbusy : P.inFlightRequests ≠ 0) (hd' : SameWait d d')
      (hreserve : d'.outputTokenReservation = none) :
      Completes f { f with
        program := some (P.completed promptTokens f.pending.length)
        decision := some d' }
  | pauses {f : Facts} {P : RuntimeProgram} {d d' : ProgramDecisionState} (promptTokens : Nat)
      (hP : f.program = some P) (hd : f.decision = some d) (hactive : P.state = .active)
      (hlast : P.inFlightRequests = 1) (hpending : f.pending = []) (hd' : SameWait d d')
      (hpausedAt : d'.pausedAt.isSome = true) (hreserve : d'.outputTokenReservation = none) :
      Completes f { f with
        program := some (P.completed promptTokens f.pending.length).off
        decision := some d' }

/-! ## The decision -/

namespace ProgramScheduler.CompletionFacts

lemma observeContext_same (facts : CompletionFacts) (d : ProgramDecisionState) :
    SameWait d (facts.observeContext d) ∧ (facts.observeContext d).pausedAt = d.pausedAt := by
  unfold observeContext ProgramDecisionState.observeCompletedContext
  repeat' split
  all_goals exact ⟨⟨rfl, rfl, rfl⟩, rfl⟩

lemma startSegment_same (facts : CompletionFacts) (d : ProgramDecisionState) :
    SameWait d (facts.startSegment d) ∧ (facts.startSegment d).pausedAt = d.pausedAt := by
  unfold startSegment
  split
  · exact ⟨⟨rfl, rfl, rfl⟩, rfl⟩
  · exact ⟨⟨rfl, rfl, rfl⟩, rfl⟩

lemma completed_same (facts : CompletionFacts) (action) (d : ProgramDecisionState) :
    SameWait d (facts.completed action d) ∧ (facts.completed action d).pausedAt = d.pausedAt := by
  obtain ⟨hcontext, hpausedAt⟩ := facts.observeContext_same d
  obtain ⟨hsegment, hpausedAt'⟩ := facts.startSegment_same (facts.observeContext d)
  obtain ⟨hlast', hqueued', hdeadline'⟩ := hcontext.trans hsegment
  obtain ⟨hlast, hqueued, hdeadline⟩ := hcontext
  -- the acting deadline, the reservation and the counters are none of these fields
  unfold completed
  simp only
  split
  · split
    · split
      · exact ⟨⟨hlast', hqueued', hdeadline'⟩, hpausedAt'.trans hpausedAt⟩
      · exact ⟨⟨hlast, hqueued, hdeadline⟩, hpausedAt⟩
    · exact ⟨⟨hlast, hqueued, hdeadline⟩, hpausedAt⟩
  split
  · split
    · exact ⟨⟨hlast', hqueued', hdeadline'⟩, hpausedAt'.trans hpausedAt⟩
    · exact ⟨⟨hlast, hqueued, hdeadline⟩, hpausedAt⟩
  · exact ⟨⟨hlast, hqueued, hdeadline⟩, hpausedAt⟩

end ProgramScheduler.CompletionFacts

/-! ## The state -/

variable {P : RuntimeProgram} {d : ProgramDecisionState} {p : ProgramRef}
  {s : ProgramSchedulerState} {sched : ProgramScheduler} {facts : CompletionFacts}
  {dispatch : ProgramDispatch}

/-- A Program that is idle on a placement can be paused. -/
lemma pauseIdle_isSome (sched : ProgramScheduler) (reason now) (hP : s.runtime.program p = some P)
    (hd : s.decisions.lookup p = some d) (hactive : P.state = .active)
    (hidle : P.inFlightRequests = 0) (ht : P.placement = some t) :
    ∃ s', sched.pauseIdle s p reason now = some s' := by
  have hplace : s.runtime.placement p = some t := by
    unfold ProgramRuntime.placement
    rw [hP]
    exact ht
  have hpause : s.runtime.pauseIdle p = some (s.runtime.setProgram P.off) := by
    unfold ProgramRuntime.pauseIdle
    rw [hP]
    simp [hactive, hidle]
  unfold pauseIdle
  rw [hplace, hd, hpause]
  exact ⟨_, rfl⟩

/-- When a completion pauses the Program, nothing is outstanding. -/
lemma completionAction_eq_pause (hP : s.runtime.program p = some P)
    (h : completionAction s p success = some action) :
    P.inFlightRequests = 0 ∧ s.runtime.requestPool.queue p = [] := by
  have href : P.reference = p := ProgramRuntime.program_reference hP
  have hview : s.runtime.view p = some (s.runtime.viewOf P) :=
    ProgramRuntime.view_eq_some.2 ⟨P, hP, rfl⟩
  unfold completionAction at h
  rw [hview] at h
  cases hd : s.decisions.lookup p with
  | none =>
    rw [hd] at h
    cases h
  | some =>
    rw [hd] at h
    by_cases hidle : P.inFlightRequests = 0 ∧ s.runtime.requestPool.programLen P.reference = 0
    · rw [href] at hidle
      exact ⟨hidle.1, List.length_eq_zero_iff.1 hidle.2⟩
    have hnone : ¬ ((s.runtime.viewOf P).inFlightRequests = 0 ∧
        (s.runtime.viewOf P).waitingRequests = 0) := hidle
    simp only [if_neg hnone] at h
    cases h

/-- The sample of a completion goes to the factors of the rank only. -/
lemma recordCompletion_eq (sched : ProgramScheduler) (s) (facts : CompletionFacts)
    (before action) :
    ∃ factors, sched.recordCompletion s facts before action
      = { sched.accountCompletion ((sched.pauseCompleted s facts.dispatch.program action
            facts.now).modifyDecision facts.dispatch.program (facts.completed action))
          facts.dispatch.program facts.dispatch.targetId before with rankFactors := factors } := by
  unfold recordCompletion sampleRequest
  simp only
  split
  · exact ⟨_, rfl⟩
  · exact ⟨_, rfl⟩

lemma accountCompletion_active (t before) (hP : s.runtime.program p = some P)
    (hd : s.decisions.lookup p = some d) (hactive : P.state = .active) :
    sched.accountCompletion s p t before = s.adjustUsage t (sched.tokensOf d - before) := by
  have hview : s.runtime.view p = some (s.runtime.viewOf P) :=
    ProgramRuntime.view_eq_some.2 ⟨P, hP, rfl⟩
  have hstate : (s.runtime.viewOf P).state = .active := hactive
  unfold accountCompletion decisionAt
  simp [hview, hd, hstate]

lemma accountCompletion_paused (t before) (hP : s.runtime.program p = some P)
    (hpaused : P.state = .paused) : sched.accountCompletion s p t before = s := by
  have hview : s.runtime.view p = some (s.runtime.viewOf P) :=
    ProgramRuntime.view_eq_some.2 ⟨P, hP, rfl⟩
  have hstate : (s.runtime.viewOf P).state = .paused := hpaused
  unfold accountCompletion
  simp [hview, hstate]

/-- A completion after which the Program stays active. -/
lemma recordCompletion_runs (sched : ProgramScheduler) (before action)
    (hP : s.runtime.program facts.dispatch.program = some P)
    (hd : s.decisions.lookup facts.dispatch.program = some d) (hactive : P.state = .active)
    (haction : ∀ reason, action ≠ some (.pause reason)) :
    (∀ r, (sched.recordCompletion s facts before action).facts r = if r = facts.dispatch.program
          then { s.facts r with decision := some (facts.completed action d) } else s.facts r) ∧
      (∀ t', (sched.recordCompletion s facts before action).ledger t'
        = s.ledger t' + if t' = facts.dispatch.targetId
          then sched.tokensOf (facts.completed action d) - before else 0) ∧
      (sched.recordCompletion s facts before action).bindings = s.bindings ∧
      (sched.recordCompletion s facts before action).runtime = s.runtime := by
  have hpause : sched.pauseCompleted s facts.dispatch.program action facts.now = s := by
    unfold pauseCompleted
    split
    · rename_i reason
      exact absurd rfl (haction reason)
    · rfl
  have hP' : (s.modifyDecision facts.dispatch.program (facts.completed action)).runtime.program
      facts.dispatch.program = some P := hP
  have hd' : (s.modifyDecision facts.dispatch.program (facts.completed action)).decisions.lookup
      facts.dispatch.program = some (facts.completed action d) := by
    unfold modifyDecision
    rw [Dict.lookup_modify, if_pos rfl, hd]
    rfl
  obtain ⟨_, hrecord⟩ := recordCompletion_eq sched s facts before action
  rw [hrecord, hpause, accountCompletion_active facts.dispatch.targetId before hP' hd' hactive]
  refine ⟨fun r => ?_, fun t' => ?_, rfl, rfl⟩
  · refine (facts_modifyDecision s _ _ r).trans ?_
    split
    · rename_i hr
      have hdec : (s.facts r).decision = some d := hr ▸ hd
      rw [hdec, Option.map_some]
    · rfl
  · exact (s.modifyDecision facts.dispatch.program (facts.completed action)).ledger_adjustUsage
      _ _ t'

/-- A completion that pauses the Program. -/
lemma recordCompletion_pauses (before reason)
    (hP : s.runtime.program facts.dispatch.program = some P)
    (hd : s.decisions.lookup facts.dispatch.program = some d) (hactive : P.state = .active)
    (hidle : P.inFlightRequests = 0) (ht : P.placement = some t) :
    (∀ r, (sched.recordCompletion s facts before (some (.pause reason))).facts r
        = if r = facts.dispatch.program then { s.facts r with
            program := some P.off
            decision := some (facts.completed (some (.pause reason))
              (pausedFor d reason facts.now)) } else s.facts r) ∧
      (∀ t', (sched.recordCompletion s facts before (some (.pause reason))).ledger t'
        = s.ledger t' + if t' = t then -sched.tokensOf d else 0) ∧
      (sched.recordCompletion s facts before (some (.pause reason))).bindings = s.bindings ∧
      (sched.recordCompletion s facts before (some (.pause reason))).runtime.nextPlacementEpoch
        = s.runtime.nextPlacementEpoch ∧
      (sched.recordCompletion s facts before (some (.pause reason))).runtime.requestPool
        = s.runtime.requestPool := by
  obtain ⟨s', hs'⟩ := pauseIdle_isSome sched reason facts.now hP hd hactive hidle ht
  have hfacts := facts_pauseIdle hP hd hs'
  have hpause : sched.pauseCompleted s facts.dispatch.program (some (.pause reason)) facts.now
      = s' := by
    show (sched.pauseIdle s facts.dispatch.program reason facts.now).getD s = s'
    rw [hs']
    rfl
  have hP' : (s'.modifyDecision facts.dispatch.program
      (facts.completed (some (.pause reason)))).runtime.program facts.dispatch.program
        = some P.off := by
    have := congrArg program (hfacts facts.dispatch.program)
    rw [if_pos rfl] at this
    exact this
  obtain ⟨_, hrecord⟩ := recordCompletion_eq sched s facts before (some (.pause reason))
  rw [hrecord, hpause, accountCompletion_paused facts.dispatch.targetId before hP' rfl]
  obtain ⟨Q, e, t0, hQ, -, -, hQt, he, hpaused⟩ := pauseIdle_eq_some hs'
  rw [hP] at hQ
  cases hQ
  rw [hd] at he
  cases he
  rw [ht] at hQt
  cases hQt
  refine ⟨fun r => ?_, fun t' => ?_, ?_⟩
  · refine (s'.facts_modifyDecision _ _ r).trans ?_
    rw [hfacts]
    split
    · simp only [Option.map_some]
    · rfl
  · show s'.ledger t' = _
    rw [hpaused, ledger_adjustUsage]
    rfl
  · rw [hpaused]
    exact ⟨rfl, rfl, rfl⟩

variable {s₀ : ProgramSchedulerState}

lemma completeRequest_eq_some {rt rt' : ProgramRuntime}
    (h : rt.completeRequest dispatch usage = some rt') :
    ∃ P, rt.program dispatch.program = some P ∧ P.placementEpoch = dispatch.placementEpoch ∧
      P.inFlightRequests ≠ 0 ∧ rt' = rt.setProgram (P.completed
        (usage.promptTokens.getD dispatch.estimatedContextTokens)
          (rt.requestPool.queue dispatch.program).length) := by
  unfold ProgramRuntime.completeRequest at h
  obtain ⟨P, hP, hguard, rfl⟩ := eq_some_of_guarded h
  rw [not_or, not_not] at hguard
  refine ⟨P, hP, hguard.1, hguard.2, ?_⟩
  rw [← ProgramRuntime.program_reference hP]
  rfl

lemma completeRequest_eq_none {rt : ProgramRuntime} (hP : rt.program dispatch.program = some P)
    (h : rt.completeRequest dispatch usage = none) :
    P.placementEpoch ≠ dispatch.placementEpoch ∨ P.inFlightRequests = 0 := by
  unfold ProgramRuntime.completeRequest at h
  rw [hP] at h
  by_contra hguard
  simp only [if_neg hguard] at h
  cases h

/-- A completion is noted in the decision of its Program only. -/
lemma facts_noteCompletion (terminate) (hP : s.runtime.program p = some P)
    (hd : s.decisions.lookup p = some d) (hQ : Q.reference = P.reference) : ∃ continues, ∀ r,
      (noteCompletion { s with runtime := s.runtime.setProgram Q } p terminate).facts r
        = if r = p then { s.facts r with
            program := some Q
            decision := some (noted continues terminate d) }
          else s.facts r := by
  obtain ⟨continues, hnote⟩ : ∃ continues,
      noteCompletion { s with runtime := s.runtime.setProgram Q } p terminate
        = ({ s with runtime := s.runtime.setProgram Q } : ProgramSchedulerState).modifyDecision p
          (noted continues terminate) := ⟨_, rfl⟩
  refine ⟨continues, fun r => ?_⟩
  rw [hnote, facts_modifyDecision, facts_runtime, program_update hP hQ]
  split
  · rename_i hr
    have hdec : (s.facts r).decision = some d := hr ▸ hd
    simp only [hdec]
    rfl
  · rfl

/-- `s₀` is `s` with an accepted completion noted. -/
structure Noted (s s₀ : ProgramSchedulerState) (p : ProgramRef) (P : RuntimeProgram)
    (d : ProgramDecisionState) : Prop where
  facts : ∀ r, s₀.facts r = if r = p
    then { s.facts r with program := some P, decision := some d } else s.facts r
  ledger : ∀ t, s₀.ledger t = s.ledger t
  policy : s₀.bindings.policy = s.bindings.policy
  epoch : s₀.runtime.nextPlacementEpoch = s.runtime.nextPlacementEpoch
  request : s₀.runtime.requestPool.nextRequestId = s.runtime.requestPool.nextRequestId

/-- An accepted completion, up to the release that it may cause. -/
lemma recordCompletion_completes (sched : ProgramScheduler)
    (hP : (s.facts facts.dispatch.program).program = some P)
    (hd : (s.facts facts.dispatch.program).decision = some d) (hactive : P.state = .active)
    (hplace : P.placement = some facts.dispatch.targetId) (hbusy : P.inFlightRequests ≠ 0)
    (hnoted : Noted s s₀ facts.dispatch.program
      (P.completed promptTokens (s.facts facts.dispatch.program).pending.length)
      (noted continues terminate d)) (action)
    (haction : completionAction s₀ facts.dispatch.program facts.success = action) :
    Completes (s.facts facts.dispatch.program)
        ((sched.recordCompletion s₀ facts (sched.tokensOf d) action).facts facts.dispatch.program) ∧
      Frame sched facts.dispatch.program s
        (sched.recordCompletion s₀ facts (sched.tokensOf d) action) := by
  have hp := hnoted.facts facts.dispatch.program
  rw [if_pos rfl] at hp
  have hP0 := congrArg program hp
  have hd0 := congrArg decision hp
  have hqueue := congrArg pending hp
  have hsame : SameWait d (noted continues terminate d) := ⟨rfl, rfl, rfl⟩
  have htokens : ∀ t, (s.facts facts.dispatch.program).tokensOn sched t
      = if t = facts.dispatch.targetId then sched.tokensOf d else 0 :=
    tokensOn_active hP hd hactive hplace
  by_cases hpause : ∃ reason, action = some (.pause reason)
  · obtain ⟨reason, rfl⟩ := hpause
    obtain ⟨hidle, hnil⟩ := completionAction_eq_pause hP0 haction
    have hlast : P.inFlightRequests = 1 := by
      have : P.inFlightRequests - 1 = 0 := hidle
      omega
    obtain ⟨hrecord, hledger, hbindings, hepoch, hpool⟩ := recordCompletion_pauses
      (sched.tokensOf d) reason hP0 hd0 hactive hidle hplace
    obtain ⟨hsame', hpausedAt⟩ := facts.completed_same (some (.pause reason))
      (pausedFor (noted continues terminate d) reason facts.now)
    have hafter := hrecord facts.dispatch.program
    rw [if_pos rfl, hp] at hafter
    refine ⟨?_, fun r hr => ?_, fun t => ?_, ?_, ?_, ?_⟩
    · rw [hafter]
      refine .pauses promptTokens hP hd hactive hlast (hqueue.symm.trans hnil) ?_ ?_ rfl
      · exact ⟨hsame'.last, hsame'.queuedAt, hsame'.deadline⟩
      · rw [hpausedAt]
        rfl
    · rw [hrecord, if_neg hr, hnoted.facts, if_neg hr]
    · rw [hledger, hnoted.ledger, htokens, tokensOn_paused (congrArg program hafter) rfl]
      split
      · rw [add_zero, sub_eq_add_neg]
        rfl
      · rw [add_zero, sub_zero]
    · rw [hbindings, hnoted.policy]
    · rw [hepoch, hnoted.epoch]
    · rw [hpool, hnoted.request]
  · obtain ⟨hrecord, hledger, hbindings, hruntime⟩ := recordCompletion_runs sched
      (sched.tokensOf d) action hP0 hd0 hactive (fun reason h => hpause ⟨reason, h⟩)
    obtain ⟨hsame', -⟩ := facts.completed_same action (noted continues terminate d)
    have hafter := hrecord facts.dispatch.program
    rw [if_pos rfl, hp] at hafter
    refine ⟨?_, fun r hr => ?_, fun t => ?_, ?_, ?_, ?_⟩
    · rw [hafter]
      exact .runs promptTokens hP hd hactive hbusy (hsame.trans hsame') rfl
    · rw [hrecord, if_neg hr, hnoted.facts, if_neg hr]
    · rw [hledger, hnoted.ledger, htokens, tokensOn_active (congrArg program hafter)
        (congrArg decision hafter) hactive hplace]
      split
      · rw [add_sub_assoc]
      · rw [add_zero, sub_zero]
    · rw [hbindings, hnoted.policy]
    · rw [hruntime, hnoted.epoch]
    · rw [hruntime, hnoted.request]

/-- The release of a Program that a completion terminates, when it does. -/
lemma settleCompletion_settles (sched : ProgramScheduler) (before)
    (hs0 : noteCompletion s facts.dispatch.program terminate = s₀)
    (haction : completionAction s₀ facts.dispatch.program facts.success = action)
    (hQ : s₀.runtime.program facts.dispatch.program = some Q) (hactive : Q.state = .active)
    (hd : s₀.decisions.lookup facts.dispatch.program = some d) :
    sched.Settles (sched.recordCompletion s₀ facts before action)
      (sched.settleCompletion s facts before terminate) := by
  unfold settleCompletion
  simp only [hs0, haction]
  split
  · rename_i hterminate
    obtain ⟨hidle, hnil⟩ := completionAction_eq_pause hQ (haction.trans hterminate)
    obtain ⟨-, -, -, hruntime⟩ := recordCompletion_runs sched before action
      hQ hd hactive (fun reason h => by rw [hterminate] at h; cases h)
    refine (ProgramScheduler.Settle.release facts.now (fun P hP => ?_) ?_).settles
    · rw [hruntime, hQ] at hP
      cases hP
      exact hidle
    · rw [hruntime]
      exact hnil
  · exact .refl _

/-- The Program has no request in flight on the placement of the dispatch. -/
def Refuses (dispatch : ProgramDispatch) (f : Facts) : Prop :=
  ∀ P, f.program = some P → P.placement ≠ some dispatch.targetId ∨
    P.placementEpoch ≠ dispatch.placementEpoch ∨ P.inFlightRequests = 0

/-- A completion that is not refused is a change of its Program, after which the
Program may be released or yield its segment. -/
lemma completeBody_completes (env success terminate usage decodeSeconds now)
    (hsound : Sound sched (s.facts dispatch.program)) :
    (sched.completeBody env s dispatch success terminate usage decodeSeconds now = none ∧
        Refuses dispatch (s.facts dispatch.program)) ∨ ∃ s1 s2 P,
        sched.completeBody env s dispatch success terminate usage decodeSeconds now = some s2 ∧
        (s.facts dispatch.program).program = some P ∧
        P.placementEpoch = dispatch.placementEpoch ∧
        Completes (s.facts dispatch.program) (s1.facts dispatch.program) ∧
        Frame sched dispatch.program s s1 ∧ sched.Settles s1 s2 := by
  unfold completeBody
  split
  · rename_i d hview hd
    obtain ⟨P, hP, rfl⟩ := ProgramRuntime.view_eq_some.1 hview
    have honly : ∀ Q, (s.facts dispatch.program).program = some Q → Q = P := fun Q hQ =>
      Option.some.inj ((show s.runtime.program dispatch.program = some Q from hQ).symm.trans hP)
    split
    · rename_i hplace
      refine .inl ⟨rfl, fun Q hQ => .inl ?_⟩
      rw [honly Q hQ]
      exact hplace
    rename_i hplace
    rw [not_not] at hplace
    cases hrt : s.runtime.completeRequest dispatch usage with
    | none =>
      refine .inl ⟨rfl, fun Q hQ => .inr ?_⟩
      rw [honly Q hQ]
      exact completeRequest_eq_none hP hrt
    | some =>
      obtain ⟨Q, hQ, hepoch, hbusy, rfl⟩ := completeRequest_eq_some hrt
      rw [hP] at hQ
      cases hQ
      obtain ⟨e, he, hlive⟩ := hsound.of_program hP
      have hactive : P.state = .active := hlive.placed.2
        (by rw [show P.placement = some dispatch.targetId from hplace]; rfl)
      -- the completion as it is recorded, with the Program out of one flight
      obtain ⟨facts, hfacts⟩ : ∃ facts, facts = sched.completionFacts env s dispatch d success
        usage decodeSeconds now := ⟨_, rfl⟩
      have hdispatch : facts.dispatch = dispatch := by rw [hfacts]; rfl
      obtain ⟨_, hnote⟩ := facts_noteCompletion (Q := P.completed
        (usage.promptTokens.getD dispatch.estimatedContextTokens)
        (s.runtime.requestPool.queue dispatch.program).length) terminate hP hd rfl
      rw [← hfacts]
      clear hfacts
      subst hdispatch
      have hself := hnote facts.dispatch.program
      rw [if_pos rfl] at hself
      obtain ⟨hcompletes, hframe⟩ := recordCompletion_completes sched hP hd hactive
        hplace hbusy ⟨hnote, fun _ => rfl, rfl, rfl, rfl⟩ _ rfl
      refine .inr ⟨_, _, P, rfl, hP, hepoch, hcompletes, hframe, ?_⟩
      have hsettle := settleCompletion_settles sched (sched.tokensOf d)
        rfl rfl (congrArg program hself) hactive (congrArg decision hself)
      refine hsettle.trans ?_
      simp only
      split
      · exact .refl _
      · exact sched.yieldCompletedSegment_settles env _ _ now
  · rename_i hnone
    -- a live Program has a decision
    refine .inl ⟨rfl, fun P hP => ?_⟩
    obtain ⟨d, hd, -⟩ := hsound.of_program hP
    exact absurd hd (hnone _ _ (ProgramRuntime.view_eq_some.2 ⟨P, hP, rfl⟩))

end VllmRouter.ProgramScheduling
