import VllmRouter.ProgramScheduling.Usage

/-!
# The token ledger follows the load

The scheduler adds to the ledger of a target what it changes of the private tokens
of the active Programs there, between two observations of the backend. `Accounted`
is a transition that changes one Program and moves the ledger with its tokens;
every admission, pause, release, completion and cancellation is one, and the
difference of load and ledger is their invariant.

An arrival accounts growth only, and nothing for a Program that is marked to
pause. `shrunkRun` lowers the tokens of an active Program by an arrival, which
leaves the ledger above the load.
-/

namespace VllmRouter.ProgramScheduling

open ProgramSchedulerState ProgramScheduler Facts Finset ProgramRuntime Option

variable {sched : ProgramScheduler} {s s' : ProgramSchedulerState} {sys : System}

/-! ## The load as a sum over all Programs -/

lemma tokensOn_eq (s : ProgramSchedulerState) (t r) :
    (s.facts r).tokensOn sched t = if s.isOn t r = true then s.tokensAt sched r else 0 := by
  unfold tokensOn isOn tokensAt
  rw [show (s.facts r).program = s.runtime.program r from rfl,
    show (s.facts r).decision = s.decisions.lookup r from rfl]
  cases s.runtime.program r with
  | none => rfl
  | some =>
    cases s.decisions.lookup r with
    | none => simp
    | some => simp

/-- The load, as a sum over any set that contains the live Programs. -/
lemma load_eq_sum (hU : s.liveRefs ⊆ U) (t) :
    s.load sched t = ∑ r ∈ U, (s.facts r).tokensOn sched t := by
  have hon : s.occupants t = U.filter fun r => s.isOn t r = true := by
    ext r
    rw [mem_filter, mem_occupants, isOn_iff]
    refine ⟨fun hr => ⟨hU ?_, hr⟩, fun hr => hr.2⟩
    obtain ⟨P, hP, -⟩ := hr
    exact mem_liveRefs.2 ⟨P, hP⟩
  unfold load
  rw [hon, Finset.sum_filter]
  exact sum_congr rfl fun r _ => (tokensOn_eq s t r).symm

variable {p : ProgramRef} {now : Instant} {t : TargetId}

/-- The load changes by the tokens of the one Program that changed. -/
lemma load_update (hothers : ∀ r, r ≠ p → s'.facts r = s.facts r) (t) : s'.load sched t
      = s.load sched t + (s'.facts p).tokensOn sched t - (s.facts p).tokensOn sched t := by
  obtain ⟨U, hU, hU', hp⟩ : ∃ U, s.liveRefs ⊆ U ∧ s'.liveRefs ⊆ U ∧ p ∈ U := by
    refine ⟨insert p (s.liveRefs ∪ s'.liveRefs), ?_, ?_, mem_insert_self _ _⟩
    · exact subset_union_left.trans (subset_insert _ _)
    · exact subset_union_right.trans (subset_insert _ _)
  have hrest : ∑ r ∈ U.erase p, (s'.facts r).tokensOn sched t
      = ∑ r ∈ U.erase p, (s.facts r).tokensOn sched t :=
    sum_congr rfl fun r hr => by rw [hothers r (ne_of_mem_erase hr)]
  rw [load_eq_sum hU, load_eq_sum hU', ← add_sum_erase U _ hp, hrest,
    ← add_sum_erase U (fun r => (s.facts r).tokensOn sched t) hp]
  ring

lemma load_congr (t) (h : ∀ r, (s'.facts r).tokensOn sched t = (s.facts r).tokensOn sched t) :
    s'.load sched t = s.load sched t := by
  have hU : s.liveRefs ⊆ s.liveRefs ∪ s'.liveRefs := subset_union_left
  have hU' : s'.liveRefs ⊆ s.liveRefs ∪ s'.liveRefs := subset_union_right
  rw [load_eq_sum hU, load_eq_sum hU']
  exact sum_congr rfl fun r _ => h r

/-! ## Accounted transitions -/

/-- How far the load of a target is from its ledger. -/
def ProgramSchedulerState.gap (sched : ProgramScheduler) (s : ProgramSchedulerState)
    (t : TargetId) : Rat :=
  s.load sched t - s.ledger t

/-- One Program changes, and the ledger with its tokens. -/
structure Accounted (sched : ProgramScheduler) (p : ProgramRef) (s s' : ProgramSchedulerState) :
    Prop where
  others : ∀ r, r ≠ p → s'.facts r = s.facts r
  balanced : ∀ t, s'.ledger t
    = s.ledger t + (s'.facts p).tokensOn sched t - (s.facts p).tokensOn sched t

lemma Frame.accounted (h : Frame sched p s s') : Accounted sched p s s' := ⟨h.others, h.balanced⟩

lemma Accounted.gap (h : Accounted sched p s s') (t) :
    s'.gap sched t = s.gap sched t := by
  unfold ProgramSchedulerState.gap
  rw [load_update h.others, h.balanced]
  ring

/-- Nothing that the load depends on changes. -/
lemma gap_congr (t) (htokens : ∀ r, (s'.facts r).tokensOn sched t = (s.facts r).tokensOn sched t)
    (hledger : s'.ledger t = s.ledger t) : s'.gap sched t = s.gap sched t := by
  unfold gap
  rw [load_congr t htokens, hledger]

/-! ## Decisions -/

/-- A Program that is left as it was, except for its requests and its queues. -/
lemma tokensOn_congr {f f' : Facts} (t) (hprogram : f'.program = f.program)
    (hdecision : f'.decision.map sched.tokensOf = f.decision.map sched.tokensOf) :
    f'.tokensOn sched t = f.tokensOn sched t := by
  unfold tokensOn
  rw [hprogram]
  cases f.program with
  | none => rfl
  | some =>
    cases hd : f.decision with
    | none =>
      cases hd' : f'.decision with
      | none => rfl
      | some =>
        rw [hd, hd'] at hdecision
        cases hdecision
    | some =>
      cases hd' : f'.decision with
      | none =>
        rw [hd, hd'] at hdecision
        cases hdecision
      | some =>
        rw [hd, hd', map_some, map_some, some.injEq] at hdecision
        simp [hdecision]

lemma accounted_pause (h : sched.pauseIdle s p reason now = some s') :
    Accounted sched p s s' := by
  obtain ⟨P, d, t, hP, hactive, -, ht, hd, hs'⟩ := pauseIdle_eq_some h
  have hfacts := facts_pauseIdle hP hd h
  refine ⟨fun r hr => by rw [hfacts, if_neg hr], fun t' => ?_⟩
  have hafter : (s'.facts p).tokensOn sched t' = 0 := by
    rw [hfacts, if_pos rfl]
    exact tokensOn_paused rfl rfl t'
  rw [hafter, tokensOn_active (f := s.facts p) hP hd hactive ht, hs', ledger_adjustUsage]
  show s.ledger t' + _ = _
  split
  · ring
  · ring

lemma accounted_commit (h : sched.commitAdmission s p t now = some s') :
    Accounted sched p s s' := by
  obtain ⟨P, d, rt, hP, hpaused, -, hd, -, hs'⟩ := commitAdmission_eq_some h
  have hfacts := facts_commitAdmission hP hd h
  refine ⟨fun r hr => by rw [hfacts, if_neg hr], fun t' => ?_⟩
  have hafter : (s'.facts p).tokensOn sched t' = if t' = t then sched.tokensOf d else 0 := by
    rw [hfacts, if_pos rfl]
    -- the commit changes none of the fields that the private tokens depend on
    show _ = if t' = t then sched.tokensOf (admitted d t now) else 0
    exact tokensOn_active rfl rfl rfl rfl t'
  have hledger : s'.ledger t' = (s.adjustUsage t (sched.tokensOf d)).ledger t' := by
    rw [hs']
    rfl
  rw [hafter, tokensOn_paused (f := s.facts p) hP hpaused, hledger, ledger_adjustUsage, sub_zero]

lemma ledger_relieved (hP : s.runtime.program p = some P) (t) :
    ({ s with observations := sched.relieved s p } : ProgramSchedulerState).ledger t
      = s.ledger t - (s.facts p).tokensOn sched t := by
  unfold relieved activeRelief view
  rw [hP, map_some]
  cases hd : s.decisions.lookup p with
  | none =>
    have hzero : (s.facts p).tokensOn sched t = 0 := by
      unfold tokensOn
      rw [show (s.facts p).decision = none from hd]
      cases (s.facts p).program <;> rfl
    rw [hzero, sub_zero]
  | some d =>
    rw [tokensOn_live (f := s.facts p) hP hd]
    by_cases hactive : P.state = .active
    · cases ht : P.placement with
      | none => simp [viewOf, hactive, ht]
      | some t0 =>
        have hledger := s.ledger_adjustUsage t0 (-sched.tokensOf d) t
        simp only [viewOf, hactive, ht, true_and, some.injEq]
        refine Eq.trans hledger ?_
        by_cases htt : t = t0
        · rw [if_pos htt, if_pos htt.symm, sub_eq_add_neg]
        · rw [if_neg htt, if_neg (Ne.symm htt), add_zero, sub_zero]
    · simp [viewOf, hactive]

lemma accounted_release (hrt : s.runtime.releaseIdle p now = some rt) :
    Accounted sched p s (sched.releaseProgram s p now) := by
  obtain ⟨P, hP, -⟩ := releaseIdle_eq_some hrt
  have hfacts := fun r => sched.facts_releaseProgram hrt r
  refine ⟨fun r hr => by rw [hfacts, if_neg hr], fun t => ?_⟩
  have hafter : ((sched.releaseProgram s p now).facts p).tokensOn sched t = 0 := by
    rw [hfacts, if_pos rfl]
    rfl
  have hledger : (sched.releaseProgram s p now).ledger t
      = ({ s with observations := sched.relieved s p } : ProgramSchedulerState).ledger t := by
    rw [releaseProgram_live hrt]
    rfl
  rw [hafter, hledger, ledger_relieved hP, add_zero]

/-- Settling keeps load and ledger together. -/
lemma Settle.gap (h : sched.Settle s s') (t) : s'.gap sched t = s.gap sched t := by
  cases h with
  | prune now retention
  | sample t' f
  | wake => exact gap_congr t (fun _ => rfl) rfl
  | report t' =>
    refine gap_congr t (fun _ => rfl) ?_
    unfold ledger modifyObservation
    rw [Dict.lookup_upsert]
    split
    · rename_i ht
      rw [ht]
      rfl
    · rfl
  | retouch p hf =>
    refine gap_congr t (fun r => tokensOn_congr t rfl ?_) rfl
    rw [facts_modifyDecision]
    split
    · cases hd : (s.facts r).decision with
      | none => rfl
      | some d =>
        obtain ⟨_, _, _, hfd⟩ := hf d
        show some (sched.tokensOf _) = _
        rw [hfd]
        rfl
    · rfl
  | pause _ _ _ _ h => exact (accounted_pause h).gap t
  | @release p now =>
    cases hrt : s.runtime.releaseIdle p now with
    | none =>
      rw [releaseProgram_refused hrt]
      exact gap_congr t (fun _ => rfl) rfl
    | some => exact (accounted_release hrt).gap t

lemma Decides.gap (h : sched.Decides s s') (t) : s'.gap sched t = s.gap sched t := by
  induction h with
  | refl => rfl
  | tail _ hlast ih =>
    refine Eq.trans ?_ ih
    cases hlast with
    | settle hsettle => exact Settle.gap hsettle t
    | admission _ _ hcommit => exact (accounted_commit hcommit).gap t

/-! ## Steps -/

/-- A backend observation of the target is applied. -/
def Rebases (event : Instant × Action) (t : TargetId) : Prop :=
  ∃ epoch observations, event.2 = .applyObservations epoch observations ∧
    t ∈ observations.map BackendObservation.targetId

/-- A snapshot change removes the target. -/
def Forgets (sys : System) (event : Instant × Action) (t : TargetId) : Prop :=
  ∃ env pool targets, event.2 = .sync env pool targets ∧
    sys.state.installs pool targets = true ∧ t ∈ sys.state.removedTargets pool targets.ids

/-- A request arrives for a Program that is active on the target, and the Program is
marked to pause or the arrival lowers its private tokens. -/
def Shrinks (sched : ProgramScheduler) (sys : System) (event : Instant × Action)
    (t : TargetId) : Prop :=
  ∃ env identity estimatedContextTokens targets routingText arrivedAt P d,
    event.2 = .acquire env identity estimatedContextTokens targets routingText arrivedAt ∧
    sys.state.runtime.programs.lookup identity.key = some P ∧
    sys.state.decisions.lookup P.reference = some d ∧
    P.state = .active ∧ P.placement = some t ∧
    (d.pauseWhenIdle = true ∨
      sched.tokensOf (refreshed identity estimatedContextTokens d) < sched.tokensOf d)

/-- What an arrival accounts is the change of the tokens, unless the Program is
marked or the tokens shrink. -/
lemma growth_retain (h : Retains sched p identity request f f' error)
    (hgrows : ∀ P d, f.program = some P → f.decision = some d → P.state = .active →
      P.placement = some t → d.pauseWhenIdle = false ∧
        sched.tokensOf d ≤ sched.tokensOf (refreshed identity request.estimatedContextTokens d)) :
    growth sched f f' t = f'.tokensOn sched t - f.tokensOn sched t := by
  have hequal : f'.tokensOn sched t = f.tokensOn sched t →
      growth sched f f' t = f'.tokensOn sched t - f.tokensOn sched t := by
    intro hsame
    rw [growth_eq_zero hsame, hsame, sub_self]
  -- without a placement there are no tokens before or after
  have hunplaced : ∀ {f1} {Q}, Arrives sched p identity request f f1 →
      f1.program = some Q → Q.placement = none → f'.program = f1.program →
      f'.tokensOn sched t = f.tokensOn sched t := by
    intro f1 Q harrives hQ hplace hsame
    rw [tokensOn_unplaced, tokensOn_unplaced]
    · intro P hP
      have := harrives.placement hQ
      rw [hP] at this
      exact this.trans hplace
    intro P hP
    rw [hsame, hQ] at hP
    cases hP
    exact hplace
  cases h with
  | unbound harrives hP hplace => exact hequal (hunplaced harrives hP hplace rfl)
  | queued _ harrives hP hplace =>
    exact hequal (hunplaced harrives hP hplace (enqueuedOnce_fields sched p.modelPool _ _).1)
  | placed harrives hP hplace =>
    cases harrives with
    | fresh =>
      cases hP
      cases hplace
    | @known P d hP0 hd =>
      have hbefore : f.tokensOn sched t
          = if P.state = .active ∧ P.placement = some t then sched.tokensOf d else 0 :=
        tokensOn_live hP0 hd t
      have hafter : tokensOn sched { f with
          program := some (P.retained identity.expectedResume request.estimatedContextTokens)
          pending := f.pending ++ [request]
          decision := some (refreshed identity request.estimatedContextTokens d) } t
            = if P.state = .active ∧ P.placement = some t
              then sched.tokensOf (refreshed identity request.estimatedContextTokens d) else 0 :=
        tokensOn_live
          (P := P.retained identity.expectedResume request.estimatedContextTokens) rfl rfl t
      by_cases hon : P.state = .active ∧ P.placement = some t
      · obtain ⟨hmark, hle⟩ := hgrows P d hP0 hd hon.1 hon.2
        rw [if_pos hon] at hbefore hafter
        unfold growth
        rw [hafter, hbefore, hd, any_some, hmark]
        exact max_eq_left (sub_nonneg.2 hle)
      · rw [if_neg hon] at hbefore hafter
        exact hequal (hafter.trans hbefore.symm)

/-- A synchronization leaves the tokens on the targets that it keeps. -/
lemma tokensOn_sync {ids : List TargetId} (hsound : Sound sched (s.facts r))
    (h : Syncs sched r pool (s.removedTargets pool ids) ids (s.facts r) f')
    (ht : t ∉ s.removedTargets pool ids) : f'.tokensOn sched t = (s.facts r).tokensOn sched t := by
  cases h with
  | other => rfl
  | kept => rfl
  | rebound hpool hrebinds =>
    generalize hf : (s.facts r).retargeted (s.removedTargets pool ids) ids = f0 at hrebinds
    have hprogram : f0.program = (s.facts r).program := by rw [← hf]; rfl
    have hdecision : f0.decision = (s.facts r).decision := by rw [← hf]; rfl
    have hhome : f0.home = ids := by rw [← hf]; rfl
    cases hrebinds with
    | @paused P _ replacement _ _ hP _ hpaused =>
      rw [tokensOn_paused (hprogram.symm.trans hP) hpaused]
      have hafter := (f0.requeued_fields sched pool replacement).1.trans hP
      refine tokensOn_paused (P := P) ?_ hpaused t
      exact hafter
    | @active P _ _ _ _ hP hd _ hneeds =>
      -- a Program that is bound again was placed on a target that is removed
      obtain ⟨d', hd', hlive⟩ := hsound.of_program (hprogram.symm.trans hP)
      rw [← hdecision, hd] at hd'
      cases hd'
      rw [hhome] at hneeds
      have hoff : P.placement ≠ some t := by
        intro hplace
        have hlost := lost_of_needs hlive hneeds hplace
        rw [hpool] at hlost
        exact ht hlost
      rw [tokensOn_live (hprogram.symm.trans hP) (hdecision.symm.trans hd),
        if_neg fun hand => hoff hand.2]
      exact tokensOn_paused rfl rfl t

variable {now : Instant} {action : Action} {s1 : ProgramSchedulerState}
  {calls : List AcquireCall} {dispatches : List ProgramDispatch}

lemma Outcome.gap (h : Consistent sched sys.state)
    (houtcome : Outcome sched sys now action s1 calls dispatches)
    (hrebases : ¬ Rebases (now, action) t) (hforgets : ¬ Forgets sys (now, action) t)
    (hshrinks : ¬ Shrinks sched sys (now, action) t) : s1.gap sched t = sys.state.gap sched t := by
  cases houtcome with
  | idle hsame hledger => exact gap_congr t (fun r => by rw [hsame.facts]) (hledger t)
  | @observe _ epoch observations hsame hledger =>
    refine gap_congr t (fun r => by rw [hsame.facts]) (hledger t fun hmem => ?_)
    exact hrebases ⟨epoch, observations, rfl, hmem⟩
  | turn => rfl
  | reject => rfl
  | permit _ _ hpermit =>
    refine gap_congr t (fun r => tokensOn_congr t ?_ ?_) ?_
    · rw [facts_takePermit hpermit]
      split
      · rfl
      · rfl
    · rw [facts_takePermit hpermit]
      split
      · rfl
      · rfl
    unfold System.takePermit at hpermit
    split at hpermit
    · cases hpermit
      rfl
    · cases hpermit
  | claim hc hhandle hclaims hframe
  | cancel hc hhandle hcancels hframe
  | complete _ _ _ _ hframe => exact hframe.accounted.gap t
  | absent => rfl
  | refuse => rfl
  | @retain _ env identity tokens targets text arrivedAt p error call htime
      htargets hkey hretains hframe hledger =>
    have hgrowth := growth_retain (t := t) hretains fun P d hP hd hactive hplace => by
      by_contra hnot
      rw [not_and_or, Bool.not_eq_false, not_le] at hnot
      obtain ⟨hlookup, href⟩ := program_eq_some.1 hP
      refine hshrinks ⟨env, identity, tokens, targets, text, arrivedAt, P, d,
        rfl, hkey ▸ hlookup, ?_, hactive, hplace, hnot⟩
      rw [href]
      exact hd
    unfold gap
    rw [load_update hframe.others, hledger, hgrowth]
    ring
  | @sync _ env pool targets hinstalls hsync =>
    have hkept : t ∉ sys.state.removedTargets pool targets.ids := fun hmem =>
      hforgets ⟨env, pool, targets, rfl, hinstalls, hmem⟩
    refine gap_congr t (fun r => tokensOn_sync (h.sound r) (hsync.syncs r) hkept) ?_
    rw [hsync.ledger, if_neg hkept]

end VllmRouter.ProgramScheduling
