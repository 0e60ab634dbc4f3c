import VllmRouter.ProgramScheduling.Epochs
import VllmRouter.ProgramScheduling.Ledger

/-!
# Admission respects the count guard and the low watermark

- The number of active Programs on a target is bounded by the configured maximum
  and by the forced admissions among their placements, in every run. Only an
  admission adds an occupant (`Recedes` is what everything else does), and an
  admission that is not forced counts the occupants first.
- After an admission that is not forced, the usage of the target is below the low
  watermark as long as no Program reserves more output than its retained requests
  ask for (`ReservesLeast`): the plan is made for the hint of the front request,
  the commit charges the reservation of the Program, and the reservation is that
  of the latest arrival. `overchargedRun` shows what happens otherwise.
-/

namespace VllmRouter.ProgramScheduling

open ProgramDecisionState
open ProgramScheduler ProgramScheduling.System ProgramSchedulerState Option List ProgramRequestHints
  Admission

variable {sched : ProgramScheduler} {s s' : ProgramSchedulerState}

/-! ## Only admissions add occupants -/

/-- A Program is active after only on the placement it was active on before. -/
def Recedes (s s' : ProgramSchedulerState) : Prop :=
  ∀ r Q, s'.runtime.program r = some Q → Q.state = .active →
    ∃ P, s.runtime.program r = some P ∧ P.state = .active ∧ P.placement = Q.placement ∧
      P.placementEpoch = Q.placementEpoch

/-- Without an admission a Program that is active was so before. -/
lemma Renews.recedes (h : Renews busy marker false s s') : Recedes s s' := by
  intro r Q hQ hactive
  cases h.programs r Q hQ with
  | kept hP hepoch hkept =>
    obtain ⟨hPactive, hplace⟩ := hkept hactive
    exact ⟨_, hP, hPactive, hplace.symm, hepoch.symm⟩
  | fresh hpaused =>
    rw [hpaused] at hactive
    cases hactive
  | placed _ _ _ hstart => cases (hstart hactive).1

variable {p : ProgramRef} {t : TargetId} {d : ProgramDecisionState} {event : Instant × Action}
  {request : PendingProgramRequest}

variable {sys : System} {now : Instant} {dispatches : List ProgramDispatch}

lemma Places.recedes (h : Places sched sys action s₁ dispatches) (hgiven : Given sys.state) :
    Recedes sys.state s₁ ∧
      sys.state.runtime.nextPlacementEpoch ≤ s₁.runtime.nextPlacementEpoch := by
  cases h with
  | renews hrenews => exact ⟨hrenews.recedes, hrenews.epoch⟩
  | claims _ _ _ _ hclaims hframe => exact ⟨(hframe.claims hgiven hclaims).recedes, hframe.epoch.ge⟩
  | completes _ _ _ hcompletes hframe =>
    exact ⟨(hframe.completes hgiven hcompletes).recedes, hframe.epoch.ge⟩

/-- What is kept while Programs leave their placements, and by an admission with
its entry in the log, is kept by a run. -/
lemma run_admitting {J : ProgramSchedulerState → List Admission → Prop}
    (hinit : J (empty sched.config).state []) (hrecedes : ∀ s s' log, Recedes s s' →
      s.runtime.nextPlacementEpoch ≤ s'.runtime.nextPlacementEpoch → J s log → J s' log)
    (hadmission : ∀ a s' log, Given a.before → sched.Chosen a →
      sched.commitAdmission a.before a.program a.target a.now = some s' → J a.before log →
      J s' (log ++ [a])) (events) :
    J ((empty sched.config).run sched events).state
      (runLog (step sched) (admissions sched) (empty sched.config) events) := by
  refine (run_logged (J := fun sys log => Issued sys.state sys.dispatches ∧ J sys.state log)
    ⟨empty_issued sched.config, hinit⟩ (fun sys log event h hJ => ?_) events).2
  refine ⟨step_issued h hJ.1, ?_⟩
  rcases step_admits h event with ⟨-, hstill, hnone⟩ | ⟨-, _, houtcome, hadmits⟩
  · rw [hstill, hnone, append_nil]
    exact hJ.2
  have hplaces := houtcome.places hJ.1.given
  obtain ⟨hreceded, hepoch⟩ := hplaces.recedes hJ.1.given
  have hkeeps := hadmits.keeps
    (J := fun s log => Issued s (sys.step sched event).dispatches ∧ J s log)
    (fun s s' log hsettle hs hJ =>
      have hrenews : Renews true true false s s' := Settle.renews hsettle hJ.1.given
      ⟨hJ.1.renews hrenews, hrecedes s s' log hrenews.recedes hrenews.epoch hJ.2⟩)
    (fun a s' log hchosen hcommit hs hJ =>
      ⟨hJ.1.renews (Decide.renews (.admission a.now hchosen.admissible hcommit) hs hJ.1.given),
        hadmission a s' log hJ.1.given hchosen hcommit hJ.2⟩)
    (houtcome.consistent h) ⟨hplaces.issued hJ.1, hrecedes _ _ log hreceded hepoch hJ.2⟩
  exact hkeeps.2

/-! ## The effect of an admission -/

lemma program_commit (h : sched.commitAdmission s p t now = some s')
    (hP : s.runtime.program p = some P) (hd : s.decisions.lookup p = some d) (r) :
    s'.runtime.program r = if r = p then some (P.on t (s.runtime.nextPlacementEpoch + 1))
      else s.runtime.program r := by
  have hprogram := congrArg Facts.program (facts_commitAdmission hP hd h r)
  by_cases hr : r = p
  · rw [if_pos hr] at hprogram ⊢
    exact hprogram
  · rw [if_neg hr] at hprogram ⊢
    exact hprogram

/-- An admission adds its Program to the occupants of its target. -/
lemma occupants_commit (h : sched.commitAdmission s p t now = some s') :
    s'.occupants t = insert p (s.occupants t) := by
  obtain ⟨_, _, _, hP, _, -, hd, -, -⟩ := commitAdmission_eq_some h
  ext r
  rw [mem_occupants, program_commit h hP hd, Finset.mem_insert]
  split
  · rename_i hr
    exact iff_of_true ⟨_, rfl, rfl, rfl⟩ (.inl hr)
  · rename_i hr
    rw [← mem_occupants, or_iff_right hr]

/-- An admission charges the private tokens of its Program. -/
lemma load_commit (hd : s.decisions.lookup p = some d)
    (h : sched.commitAdmission s p t now = some s') :
    s'.load sched t = s.load sched t + sched.tokensOf d := by
  obtain ⟨P, e, rt, -, -, -, he, -, hs'⟩ := commitAdmission_eq_some h
  rw [hd] at he
  cases he
  have hledger : s'.ledger t = s.ledger t + sched.tokensOf d := by
    rw [hs']
    exact (s.ledger_adjustUsage t _ t).trans (by rw [if_pos rfl])
  have hgap : s'.load sched t - s'.ledger t = s.load sched t - s.ledger t :=
    (accounted_commit h).gap t
  rw [hledger] at hgap
  linarith

/-- A fresh observation rises at most with the ledger. -/
lemma observedTargetUsage_le (hdelta : 0 ≤ delta) (now)
    (hobservations : s'.observations = (s.adjustUsage t delta).observations) :
    sched.observedTargetUsage s t now = none ∧ sched.observedTargetUsage s' t now = none ∨
      ∃ before after, sched.observedTargetUsage s t now = some before ∧
        sched.observedTargetUsage s' t now = some after ∧ after ≤ before + delta := by
  have hlookup : s'.observations.lookup t
      = some (let o := (s.observations.lookup t).getD .default
          { o with activeProgramTokenDelta := o.activeProgramTokenDelta + delta }) := by
    rw [hobservations]
    exact (Dict.lookup_upsert _ _ _ _ _).trans (if_pos rfl)
  unfold observedTargetUsage
  rw [hlookup]
  cases hold : s.observations.lookup t with
  | none => exact .inl ⟨rfl, rfl⟩
  | some o =>
    have hfresh : sched.observationIsFresh { o with
        activeProgramTokenDelta := o.activeProgramTokenDelta + delta } now
          = sched.observationIsFresh o now := rfl
    simp only [getD_some, filter_some, hfresh]
    split
    · rw [bind_some, bind_some]
      cases o.estimatedActiveProgramTokens with
      | none => exact .inl ⟨rfl, rfl⟩
      | some tokens =>
        refine .inr ⟨_, _, rfl, rfl, ?_⟩
        show max (tokens + (o.activeProgramTokenDelta + delta)) 0
          ≤ max (tokens + o.activeProgramTokenDelta) 0 + delta
        rw [← add_assoc]
        refine max_le (add_le_add_left (le_max_left _ _) _) ?_
        exact add_nonneg (le_max_right _ _) hdelta
    · exact .inl ⟨rfl, rfl⟩

/-- An admission raises the usage of its target at most by the private tokens of
the Program. -/
lemma targetUsage_commit (env) (hd : s.decisions.lookup p = some d)
    (h : sched.commitAdmission s p t now = some s') :
    sched.targetUsage env s' t now ≤ sched.targetUsage env s t now + sched.tokensOf d := by
  have hload := load_commit hd h
  obtain ⟨P, e, rt, -, -, -, he, -, hs'⟩ := commitAdmission_eq_some h
  rw [hd] at he
  cases he
  have hobservations : s'.observations = (s.adjustUsage t (sched.tokensOf d)).observations := by
    rw [hs']
    rfl
  rw [targetUsage_eq, targetUsage_eq]
  rcases observedTargetUsage_le (Nat.cast_nonneg _) now hobservations with
    ⟨hbefore, hafter⟩ | ⟨before, after, hbefore, hafter, hle⟩
  · rw [hbefore, hafter]
    exact hload.le
  · rw [hbefore, hafter]
    exact hle

/-! ## What a plan promises -/

/-- A plan that is not forced has counted the Program among the occupants and has
found room for the hint of its front request. -/
lemma fits_of_plan (hd : s.decisions.lookup p = some d) (hforced : forcedAt d now = false)
    (h : sched.rankAdmissionPlan env s p t now = some plan) :
    (activeOn env s t).length + 1 ≤ sched.config.maxActiveProgramsPerTarget ∧
      ∀ capacity, sched.config.progressTtl.tokenCapacity = some capacity →
        sched.targetUsage env s t now + (d.privateTokensWithOutput
          sched.config.progressTtl.decodeBufferTokens ((s.runtime.frontRequestHints p).bind
            expectedOutputTokens) : Nat)
          ≤ capacity * sched.config.progressTtl.lowWatermarkRatio := by
  unfold rankAdmissionPlan at h
  rw [hd] at h
  cases hview : s.runtime.view p with
  | none =>
    rw [hview] at h
    cases h
  | some =>
    simp only [hview, hforced, Bool.not_false, Bool.true_and, Bool.false_or] at h
    split at h
    · cases h
    split at h
    · cases h
    split at h
    · cases h
    cases hcapacity : sched.config.progressTtl.tokenCapacity with
    | none =>
      simp only [hcapacity] at h
      split at h
      · cases h
      rename_i hcount
      rw [Bool.not_eq_true, Bool.not_eq_false', decide_eq_true_iff] at hcount
      exact ⟨hcount, nofun⟩
    | some capacity =>
      simp only [hcapacity] at h
      simp only [Option.some.injEq, forall_eq']
      -- both remaining branches check the count and the immediate fit
      split at h
      · rename_i hfits
        rw [Bool.and_eq_true, Bool.and_eq_true, decide_eq_true_iff, decide_eq_true_iff] at hfits
        exact hfits.1
      split at h
      · cases h
      rename_i hfits
      rw [Bool.or_eq_true, not_or, Bool.not_eq_true, Bool.not_eq_true, Bool.not_eq_false',
        Bool.not_eq_false', decide_eq_true_iff, decide_eq_true_iff] at hfits
      exact hfits

/-! ## The count -/

/-- The placement epochs that forced admissions gave. -/
def forcedEpochs (log : List Admission) : List Nat := (log.filter forced).map epoch

/-- The current placement of the Program was a forced admission. -/
def ProgramSchedulerState.forcedOn (s : ProgramSchedulerState) (log : List Admission)
    (r : ProgramRef) : Bool :=
  (s.runtime.program r).any fun P => decide (P.placementEpoch ∈ forcedEpochs log)

/-- The occupants of every target that were not forced are within the maximum. -/
structure Capped (sched : ProgramScheduler) (s : ProgramSchedulerState) (log : List Admission) :
    Prop where
  past : ∀ a ∈ log, a.epoch ≤ s.runtime.nextPlacementEpoch
  count : ∀ t, ((s.occupants t).filter fun r => s.forcedOn log r = false).card
    ≤ sched.config.maxActiveProgramsPerTarget

variable {log : List Admission}

lemma Capped.recedes (h : Capped sched s log) (hrecedes : Recedes s s')
    (hnext : s.runtime.nextPlacementEpoch ≤ s'.runtime.nextPlacementEpoch) :
    Capped sched s' log where
  past := fun a ha => (h.past a ha).trans hnext
  count := by
    intro t
    refine (Finset.card_le_card fun r hr => ?_).trans (h.count t)
    obtain ⟨hon, hforced⟩ := Finset.mem_filter.1 hr
    obtain ⟨Q, hQ, hactive, hplace⟩ := mem_occupants.1 hon
    obtain ⟨P, hP, hPactive, hPplace, hepoch⟩ := hrecedes r Q hQ hactive
    refine Finset.mem_filter.2 ⟨mem_occupants.2 ⟨P, hP, hPactive, hPplace.trans hplace⟩, ?_⟩
    unfold forcedOn at hforced ⊢
    rw [hQ, any_some] at hforced
    rw [hP, any_some, hepoch]
    exact hforced

lemma forcedEpochs_append (log a) :
    forcedEpochs (log ++ [a]) = if a.forced then forcedEpochs log ++ [a.epoch]
      else forcedEpochs log := by
  unfold forcedEpochs
  rw [filter_append, map_append]
  cases hforced : a.forced with
  | true
  | false => simp [hforced]

/-- An admission adds its Program to the forced ones, or the plan has counted. -/
lemma Capped.admission {a : Admission} (h : Capped sched a.before log) (hgiven : Given a.before)
    (hbinding : sched.config.bindingOnly = false) (hchosen : sched.Chosen a)
    (hcommit : sched.commitAdmission a.before a.program a.target a.now = some s') :
    Capped sched s' (log ++ [a]) := by
  obtain ⟨_, d, _, hP, _, -, hd, hrt, hs'⟩ := commitAdmission_eq_some hcommit
  have hprogram := program_commit hcommit hP hd
  have hnext : s'.runtime.nextPlacementEpoch = a.epoch := by
    rw [hs', hrt]
    rfl
  have hold : ∀ r, r ≠ a.program → s'.runtime.program r = a.before.runtime.program r :=
    fun r hr => (hprogram r).trans (if_neg hr)
  refine ⟨fun b hb => ?_, fun t => ?_⟩
  · rw [hnext]
    rcases mem_append.1 hb with hpast | hself
    · exact (h.past b hpast).trans (Nat.le_succ _)
    · rw [mem_singleton.1 hself]
  -- a Program that was there before is as forced as it was
  have hkept : ∀ r, r ≠ a.program → s'.forcedOn (log ++ [a]) r = a.before.forcedOn log r := by
    intro r hr
    unfold forcedOn
    rw [hold r hr]
    cases hR : a.before.runtime.program r with
    | none => rfl
    | some R =>
      have hlt : R.placementEpoch ≠ a.epoch := by
        have := hgiven r R hR
        unfold epoch
        omega
      rw [forcedEpochs_append]
      split
      · simp [hlt]
      · rfl
  by_cases hself : a.program ∈ (s'.occupants t).filter fun r => s'.forcedOn (log ++ [a]) r = false
  · -- the plan counted the occupants of this target and one more
    obtain ⟨hon, hnot⟩ := Finset.mem_filter.1 hself
    obtain ⟨Q, hQ, -, hplace⟩ := mem_occupants.1 hon
    have hQ' := hQ
    rw [hprogram, if_pos rfl] at hQ'
    cases hQ'
    cases hplace
    have hforced : forcedAt d a.now = false := by
      rw [← show a.forced = forcedAt d a.now by
        unfold forced
        rw [hd, any_some]]
      by_contra hforced
      unfold forcedOn at hnot
      rw [hQ, any_some, forcedEpochs_append, if_pos (by simpa using hforced)] at hnot
      simp [RuntimeProgram.on, epoch] at hnot
    obtain ⟨_, _, hplan⟩ := hchosen.planned hbinding
    have hfits := (fits_of_plan hd hforced hplan).1
    rw [length_activeOn] at hfits
    calc _ ≤ (insert a.program (a.before.occupants a.target)).card := by
          rw [occupants_commit hcommit]
          exact Finset.card_filter_le _ _
      _ ≤ (a.before.occupants a.target).card + 1 := Finset.card_insert_le _ _
      _ ≤ sched.config.maxActiveProgramsPerTarget := hfits
  · refine (Finset.card_le_card fun r hr => ?_).trans (h.count t)
    have hne : r ≠ a.program := fun heq => hself (heq ▸ hr)
    obtain ⟨hon, hr⟩ := Finset.mem_filter.1 hr
    rw [mem_occupants, hold r hne, ← mem_occupants] at hon
    exact Finset.mem_filter.2 ⟨hon, hkept r hne ▸ hr⟩

lemma empty_capped (sched : ProgramScheduler) : Capped sched (empty sched.config).state [] where
  past := nofun
  count := fun _ => Nat.zero_le _

/-! ## The reservation -/

/-- No retained request of the Program asks for less output than the Program
reserves. -/
def ReservesLeast (sched : ProgramScheduler) (f : Facts) : Prop :=
  ∀ d, f.decision = some d → ∀ request ∈ f.pending, ∀ expected,
    request.hints.expectedOutputTokens = some expected →
      d.outputTokenReservation.getD sched.config.progressTtl.decodeBufferTokens ≤ expected

/-- `required` tokens of output are at most what the hints of `requests` say. -/
def withinHints (required : Nat) (requests : List PendingProgramRequest) : Bool :=
  requests.all fun request => request.hints.expectedOutputTokens.all fun expected =>
    decide (required ≤ expected)

lemma withinHints_iff : withinHints required requests = true ↔ ∀ request ∈ requests, ∀ expected,
      request.hints.expectedOutputTokens = some expected → required ≤ expected := by
  unfold withinHints
  rw [List.all_eq_true]
  refine forall₂_congr fun request _ => ?_
  cases request.hints.expectedOutputTokens with
  | none => exact ⟨nofun, fun _ => rfl⟩
  | some expected =>
    rw [all_some, decide_eq_true_iff]
    exact ⟨fun h _ heq => some.inj heq ▸ h, fun h => h expected rfl⟩

/-- The requests that the live Program of a key retains. -/
def ProgramSchedulerState.retainedBy (s : ProgramSchedulerState) (key : RuntimeKey) :
    List PendingProgramRequest :=
  match s.runtime.programs.lookup key with
  | none => []
  | some program => s.runtime.requestPool.queue program.reference

/-- An arrival expects at most as much output as each request that its Program
retains, and a completion leaves no request that expects less than the decode
buffer. -/
def reservesLeast (sched : ProgramScheduler) (sys : System) (event : Instant × Action) : Bool :=
  match event.2 with
  | .acquire _ identity _ _ _ _ =>
    withinHints (identity.requestHints.expectedOutputTokens.getD
      sched.config.progressTtl.decodeBufferTokens) (sys.state.retainedBy identity.key)
  | .complete _ i _ _ _ _ =>
    match sys.dispatches[i]? with
    | none => true
    | some dispatch => withinHints sched.config.progressTtl.decodeBufferTokens
        (sys.state.runtime.requestPool.queue dispatch.program)
  | _ => true

variable {f f' : Facts} {identity : ProgramIdentity}

/-- A Program with fewer requests and the same reservation. -/
lemma ReservesLeast.sub (h : ReservesLeast sched f)
    (hpending : ∀ request ∈ f'.pending, ∃ request₀ ∈ f.pending, request₀.hints = request.hints)
    (hdecision : ∀ d', f'.decision = some d' → ∃ d, f.decision = some d ∧
      d'.outputTokenReservation = d.outputTokenReservation) : ReservesLeast sched f' := by
  intro d' hd' request hrequest expected hexpected
  obtain ⟨d, hd, hreserve⟩ := hdecision d' hd'
  obtain ⟨request₀, hrequest₀, hhints⟩ := hpending request hrequest
  rw [hreserve]
  exact h d hd request₀ hrequest₀ expected (by rw [hhints]; exact hexpected)

lemma mem_wakeFront (h : request ∈ wakeFront l) :
    ∃ request₀ ∈ l, request₀.hints = request.hints := by
  cases l with
  | nil => cases h
  | cons front =>
    rcases mem_cons.1 h with rfl | hrest
    · exact ⟨front, mem_cons_self, rfl⟩
    · exact ⟨request, mem_cons_of_mem _ hrest, rfl⟩

lemma reservesLeast_tail (htail : Tail sched f f') (h : ReservesLeast sched f) :
    ReservesLeast sched f' := by
  cases htail with
  | @retouch d marked sampled rounds hd
  | @pause _ d _ _ _ hd =>
    refine h.sub (fun request hr => ⟨request, hr, rfl⟩) fun d' hd' => ⟨d, hd, ?_⟩
    cases hd'
    rfl
  | wake => exact h.sub (fun request hr => mem_wakeFront hr) fun d' hd' => ⟨d', hd', rfl⟩
  | @admission _ d _ _ _ _ hd =>
    refine h.sub (fun _ hr => mem_wakeFront hr) fun _ hd' => ⟨d, hd, ?_⟩
    cases hd'
    rfl
  | release =>
    intro d' hd'
    cases hd'
  | leave => exact h.sub (fun request hr => ⟨request, hr, rfl⟩) fun d' hd' => ⟨d', hd', rfl⟩

lemma Removes.mem (h : Removes requestId pending rest) (hrequest : request ∈ rest) :
    ∃ request₀ ∈ pending, request₀.hints = request.hints := by
  obtain ⟨_, -, -, -, rfl⟩ := h
  unfold RequestPool.cancelAt at hrequest
  split at hrequest
  · obtain ⟨request₀, hmem, hhints⟩ := mem_wakeFront hrequest
    exact ⟨request₀, mem_of_mem_eraseIdx hmem, hhints⟩
  · exact ⟨request, mem_of_mem_eraseIdx hrequest, rfl⟩

lemma reservesLeast_claim (hclaims : Claims handle f f' dispatch) (h : ReservesLeast sched f) :
    ReservesLeast sched f' := by
  cases hclaims with
  | @front _ request _ _ _ _ hpending =>
    refine h.sub (fun _ hr => ?_) fun d' hd' => ⟨d', hd', rfl⟩
    obtain ⟨request₀, hmem, hhints⟩ := mem_wakeFront hr
    exact ⟨request₀, hpending ▸ mem_cons_of_mem _ hmem, hhints⟩
  | behind => exact h.sub (fun request hr => ⟨request, hr, rfl⟩) fun d' hd' => ⟨d', hd', rfl⟩
  | unplaced => exact h

lemma reservesLeast_cancel (hcancels : Cancels requestId f f') (h : ReservesLeast sched f) :
    ReservesLeast sched f' := by
  cases hcancels with
  | waiting hrest => exact h.sub (fun request hr => hrest.mem hr) fun d' hd' => ⟨d', hd', rfl⟩
  | running hP hrest hbusy
  | paused hP hrest hidle hpaused
  | active => exact fun _ _ _ hr => (by cases hr)

lemma reservesLeast_complete (hcompletes : Completes f f')
    (hguard : withinHints sched.config.progressTtl.decodeBufferTokens f.pending = true) :
    ReservesLeast sched f' := by
  have hnone : ∀ d' : ProgramDecisionState, d'.outputTokenReservation = none →
      ∀ request ∈ f.pending, ∀ expected, request.hints.expectedOutputTokens = some expected →
        d'.outputTokenReservation.getD sched.config.progressTtl.decodeBufferTokens ≤ expected := by
    intro d' hreserve request hrequest expected hexpected
    rw [hreserve]
    exact withinHints_iff.1 hguard request hrequest expected hexpected
  cases hcompletes with
  | runs promptTokens hP hd hactive hbusy hsame hreserve
  | pauses _ _ _ _ _ _ _ _ hreserve =>
    intro d' hd'
    cases hd'
    exact hnone _ hreserve

lemma reservesLeast_arrive (harrives : Arrives sched p identity request f f₁)
    (hhints : request.hints = identity.requestHints)
    (hguard : withinHints (identity.requestHints.expectedOutputTokens.getD
      sched.config.progressTtl.decodeBufferTokens) f.pending = true) : ReservesLeast sched f₁ := by
  -- the reservation is the hint of the new request, which is the last one of the FIFO
  have hmine : ∀ d' : ProgramDecisionState,
      d'.outputTokenReservation = identity.requestHints.expectedOutputTokens →
      ∀ request' ∈ f.pending ++ [request], ∀ expected,
        request'.hints.expectedOutputTokens = some expected →
        d'.outputTokenReservation.getD sched.config.progressTtl.decodeBufferTokens ≤ expected := by
    intro d' hreserve request' hrequest' expected hexpected
    rw [hreserve]
    rcases mem_append.1 hrequest' with hold | hnew
    · exact withinHints_iff.1 hguard request' hold expected hexpected
    rw [mem_singleton.1 hnew, hhints] at hexpected
    rw [hexpected]
    exact le_rfl
  cases harrives with
  | known hP hd
  | fresh =>
    intro d' hd'
    cases hd'
    exact hmine _ rfl

lemma reservesLeast_retain (hretains : Retains sched p identity request f f' error)
    (hhints : request.hints = identity.requestHints)
    (hguard : withinHints (identity.requestHints.expectedOutputTokens.getD
      sched.config.progressTtl.decodeBufferTokens) f.pending = true) : ReservesLeast sched f' := by
  cases hretains with
  | placed harrives
  | unbound harrives => exact reservesLeast_arrive harrives hhints hguard
  | @queued f₁ _ d t _ harrives _ _ hd =>
    refine (reservesLeast_arrive harrives hhints hguard).sub (fun request hr => ?_)
      fun d' hd' => ⟨d, hd, ?_⟩
    · have hpending := (f₁.enqueuedOnce_fields sched p.modelPool t).2.1
      exact ⟨request, hpending ▸ hr, rfl⟩
    · cases hd'
      rfl

lemma reservesLeast_sync {removed ids : List TargetId}
    (hsyncs : Syncs sched r pool removed ids f f') (h : ReservesLeast sched f) :
    ReservesLeast sched f' := by
  have hfailed : ∀ replacement interrupted now d,
      (failedOver replacement interrupted now d).outputTokenReservation
        = d.outputTokenReservation := by
    intro _ interrupted _ _
    cases interrupted with
    | true => rfl
    | false => rfl
  cases hsyncs with
  | other hpool
  | kept => exact h
  | rebound _ hrebinds =>
    generalize hf : f.retargeted removed ids = f₀ at hrebinds
    have h₀ : ReservesLeast sched f₀ := by
      rw [← hf]
      exact h
    cases hrebinds with
    | @paused P d replacement interrupted now hP hd
    | @active _ d replacement _ _ _ hd =>
      refine h₀.sub (fun request hr => ⟨request, ?_, rfl⟩) fun d' hd' => ⟨d, hd, ?_⟩
      · rw [← (f₀.requeued_fields sched pool replacement).2.1]
        exact hr
      · cases hd'
        exact hfailed _ _ _ _

/-- The requests that the Program of a key retains are those of its live
generation. -/
lemma retainedBy_eq (h : Consistent sched s) (hkey : r.key = key) :
    (s.facts r).pending = s.retainedBy key ∨ (s.facts r).pending = [] := by
  unfold retainedBy
  cases h.sound r with
  | dead _ _ hpending => exact .inr hpending
  | live hP =>
    obtain ⟨hlookup, href⟩ := ProgramRuntime.program_eq_some.1 hP
    rw [← hkey, hlookup]
    simp only [href]
    exact .inl rfl

lemma reservesRule (h : Consistent sched sys.state)
    (hguard : reservesLeast sched sys event = true) :
    SectionRule sched sys event.1 event.2 fun _ f => ReservesLeast sched f where
  permit := by
    intro _ _ _ _ _ _ hf
    refine hf.sub (fun _ hr => ?_) fun d' hd' => ⟨d', hd', rfl⟩
    obtain ⟨request₀, hmem, rfl⟩ := mem_map.1 hr
    refine ⟨request₀, hmem, ?_⟩
    unfold dropPermit
    split
    · rfl
    · rfl
  claim := fun _ _ _ _ _ _ _ _ hclaims hf => reservesLeast_claim hclaims hf
  cancel := fun _ _ _ _ _ _ hcancels hf => reservesLeast_cancel hcancels hf
  complete := by
    intro _ _ hfinish hcompletes _
    refine reservesLeast_complete hcompletes ?_
    unfold finishing at hfinish
    unfold reservesLeast at hguard
    split at hfinish
    · rename_i haction
      rw [haction] at hguard
      simp only [hfinish] at hguard
      exact hguard
    · cases hfinish
  retain := by
    intro _ _ _ _ _ _ _ _ _ haction _
      hkey hretains _
    refine reservesLeast_retain hretains rfl ?_
    unfold reservesLeast at hguard
    rw [haction] at hguard
    rcases retainedBy_eq h hkey with hsome | hnil
    · rw [hsome]
      exact hguard
    · rw [hnil]
      rfl
  sync := fun _ _ _ _ _ _ _ hsyncs hf => reservesLeast_sync hsyncs hf

/-! ## The watermark -/

/-- What a commit charges is at most what the plan has required. -/
lemma ReservesLeast.tokens_le (h : ReservesLeast sched (s.facts p))
    (hd : s.decisions.lookup p = some d) :
    sched.tokensOf d ≤ (d.privateTokensWithOutput sched.config.progressTtl.decodeBufferTokens
      ((s.runtime.frontRequestHints p).bind expectedOutputTokens) : Nat) := by
  unfold tokensOf privateTokens privateTokensWithOutput
  refine Nat.cast_le.2 (Nat.add_le_add_left ?_ _)
  cases hfront : (s.runtime.frontRequestHints p).bind expectedOutputTokens with
  | none => exact le_rfl
  | some expected =>
    obtain ⟨_, hhints, hexpected⟩ := bind_eq_some_iff.1 hfront
    obtain ⟨request, hrequest, rfl⟩ := map_eq_some_iff.1 hhints
    exact h d hd request (mem_of_mem_head? hrequest) expected hexpected

/-- An admission that is not forced leaves the target below the low watermark. -/
def Fits (sched : ProgramScheduler) (a : Admission) : Prop :=
  a.forced = false → ∀ capacity, sched.config.progressTtl.tokenCapacity = some capacity →
    ∀ env, sched.targetUsage env (a.after sched) a.target a.now
      ≤ capacity * sched.config.progressTtl.lowWatermarkRatio

lemma fits_of_chosen (hreserves : ReservesLeast sched (a.before.facts a.program))
    (hbinding : sched.config.bindingOnly = false) (hchosen : sched.Chosen a)
    (hcommit : sched.commitAdmission a.before a.program a.target a.now = some s') :
    Fits sched a := by
  intro hforced capacity hcapacity env
  obtain ⟨P, d, rt, -, -, -, hd, -, -⟩ := commitAdmission_eq_some hcommit
  have hafter : a.after sched = s' := by
    unfold Admission.after
    rw [hcommit, getD_some]
  have hdforced : forcedAt d a.now = false := by
    unfold Admission.forced at hforced
    rw [hd, any_some] at hforced
    exact hforced
  obtain ⟨env₀, _, hplan⟩ := hchosen.planned hbinding
  have hroom := (fits_of_plan hd hdforced hplan).2 capacity hcapacity
  rw [hafter]
  calc sched.targetUsage env s' a.target a.now
      ≤ sched.targetUsage env a.before a.target a.now + sched.tokensOf d :=
        targetUsage_commit env hd hcommit
    _ = sched.targetUsage env₀ a.before a.target a.now + sched.tokensOf d := by
        rw [targetUsage_eq, targetUsage_eq]
    _ ≤ _ := (add_le_add_right (hreserves.tokens_le hd) _).trans hroom

lemma step_fits (hbinding : sched.config.bindingOnly = false) (h : Consistent sched sys.state)
    (hguard : reservesLeast sched sys event = true)
    (hreserves : ∀ r, ReservesLeast sched (sys.state.facts r)) (hfits : ∀ a ∈ log, Fits sched a) :
    (∀ r, ReservesLeast sched ((sys.step sched event).state.facts r)) ∧
      ∀ a ∈ log ++ sys.admissions sched event, Fits sched a := by
  rcases step_admits h event with ⟨-, hstill, hnone⟩ | ⟨-, _, houtcome, hadmits⟩
  · rw [hstill, hnone, append_nil]
    exact ⟨hreserves, hfits⟩
  refine hadmits.keeps
    (J := fun s log => (∀ r, ReservesLeast sched (s.facts r)) ∧ ∀ a ∈ log, Fits sched a)
    ?_ ?_ (houtcome.consistent h)
    ⟨houtcome.keeps (reservesRule h hguard) hreserves, hfits⟩
  · intro _ _ _ hsettle _ hJ
    exact ⟨fun r => (hsettle.tail r).keeps (fun _ _ => reservesLeast_tail) (hJ.1 r), hJ.2⟩
  intro a s' _ hchosen hcommit _ hJ
  refine ⟨fun r => ?_, fun b hb => ?_⟩
  · have hadmission : sched.Decide a.before s' := .admission a.now hchosen.admissible hcommit
    exact (hadmission.tail r).keeps (fun _ _ => reservesLeast_tail) (hJ.1 r)
  rcases mem_append.1 hb with hold | hnew
  · exact hJ.2 b hold
  · rw [mem_singleton.1 hnew]
    exact fits_of_chosen (hJ.1 a.program) hbinding hchosen hcommit

lemma empty_reservesLeast (sched : ProgramScheduler) (r) :
    ReservesLeast sched ((empty sched.config).state.facts r) := by
  rw [empty_facts]
  exact fun d hd => (by cases hd)

/-- Along every run, a target has at most the configured number of active
Programs beyond those that were forced onto it. Where no step leaves a Program
with a reservation above the hint of one of its retained requests, every admission
that is not forced leaves its target below the low watermark. -/
theorem run_admissions_bounded (sched : ProgramScheduler)
    (hbinding : sched.config.bindingOnly = false) (events : List (Instant × Action)) :
    let state := ((empty sched.config).run sched events).state
    let log := runLog (step sched) (admissions sched) (empty sched.config) events
    (∀ env t, (activeOn env state t).length ≤ sched.config.maxActiveProgramsPerTarget
      + ((activeOn env state t).filter fun view => state.forcedOn log view.reference).length) ∧
    (guardedRun (step sched) (reservesLeast sched) (empty sched.config) events = true →
      ∀ a ∈ log, Fits sched a) := by
  intro state log
  constructor
  · intro env t
    have hrun : Capped sched state log := run_admitting (empty_capped sched)
        (fun s s' log hrecedes hepoch hcapped => hcapped.recedes hrecedes hepoch)
        (fun a s' log hgiven hchosen hcommit hcapped =>
          hcapped.admission hgiven hbinding hchosen hcommit) events
    have hsplit := Finset.card_filter_add_card_filter_not (s := state.occupants t)
      fun r => state.forcedOn log r = true
    have hcount := hrun.count t
    simp only [Bool.not_eq_true] at hsplit
    rw [length_activeOn, length_filter_activeOn env state t fun r => state.forcedOn log r]
    omega
  · intro hguard
    have hrun : (∀ r, ReservesLeast sched (state.facts r)) ∧ ∀ a ∈ log, Fits sched a :=
      run_guarded_logged (J := fun sys log => (∀ r, ReservesLeast sched (sys.state.facts r)) ∧
          ∀ a ∈ log, Fits sched a)
        ⟨empty_reservesLeast sched, nofun⟩
        (fun _ _ _ h hg hJ => step_fits hbinding h hg hJ.1 hJ.2) hguard
    exact hrun.2

/-! ## A Program that is charged more than was planned -/

/-- `p` waits behind `q` with a request that expects 20 tokens and one that
expects 1000, until the request of `q` is dropped. -/
def overchargedRun : List (Instant × Action) :=
  [(1, syncOf "m" 0 ["a"]), (2, arrivalOf "m" "q" ["a"] 2), (3, hintedArrival "m" "p" 20 ["a"] 3),
    (4, hintedArrival "m" "p" 1000 ["a"] 4), (5, .drop .plain 0)]

/-- `p` is planned for 30 tokens and charged 1010, five times the watermark. -/
theorem overcharged_exceeds : narrowScheduler.config.bindingOnly = false ∧
      (runLog (step narrowScheduler) (admissions narrowScheduler)
        (empty narrowScheduler.config) overchargedRun).any (fun a =>
          a.program.key.programId == "p" && !a.forced &&
            decide (200 * narrowScheduler.config.progressTtl.lowWatermarkRatio
              < narrowScheduler.targetUsage .plain (a.after narrowScheduler) a.target a.now)) = true
                ∧
      narrowScheduler.config.progressTtl.tokenCapacity = some 200 := by
  decide +kernel

/-- The same run without the second request of `p`. -/
def chargedRun : List (Instant × Action) :=
  [(1, syncOf "m" 0 ["a"]), (2, arrivalOf "m" "q" ["a"] 2), (3, hintedArrival "m" "p" 20 ["a"] 3),
    (4, .drop .plain 0)]

theorem charged_fits : (runLog (step narrowScheduler) (admissions narrowScheduler)
        (empty narrowScheduler.config) chargedRun).map
          (fun a => (a.program.key.programId, a.target, a.forced))
        = [("q", "a", false), ("p", "a", false)] ∧
      ∀ a ∈ runLog (step narrowScheduler) (admissions narrowScheduler)
        (empty narrowScheduler.config) chargedRun, Fits narrowScheduler a :=
  ⟨by decide +kernel, (run_admissions_bounded narrowScheduler rfl chargedRun).2 (by decide +kernel)⟩

end VllmRouter.ProgramScheduling
