import VllmRouter.ProgramScheduling.Steps

/-!
# Placement epochs

Every placement gets an epoch that was never given before, whatever generation
numbers and target ids repeat. `Renews` says what a section may do to the
epochs of all Programs: a Program keeps its placement, or is on a new one with
nothing in flight, or is new and on none. From it:

- a dispatch names its placement (`Issued`), so a completion of an old one is
  recognised (`complete_inert`), and the requests in flight of a Program are its
  dispatches that were not completed yet (`run_stale_inert`);
- the placement-start marker is on the first dispatch of a placement, as long
  as only the front request claims while the marker is pending
  (`run_starts_once`): any other claim consumes it.
-/

namespace VllmRouter.ProgramScheduling

open List ProgramScheduling.System ProgramScheduler Option Facts RuntimeProgram

variable {sched : ProgramScheduler} {s s' : ProgramSchedulerState}

/-! ## Renewal -/

/-- What becomes of the placement of one Program, with the epochs after `low` up
to `high` being new. Where it stays, so do its requests in flight if `busy`, and its
placement-start marker if `marker`; on a new one it is active only if `admits`. -/
inductive Renewed (busy marker admits : Bool) (low high : Nat) (old : Option RuntimeProgram)
    (Q : RuntimeProgram) : Prop
  | kept {P : RuntimeProgram} (hP : old = some P) (hepoch : Q.placementEpoch = P.placementEpoch)
      (hactive : Q.state = .active → P.state = .active ∧ Q.placement = P.placement)
      (hbusy : busy = true → Q.inFlightRequests = P.inFlightRequests)
      (hmarker : marker = true → Q.state = .active →
        Q.placementStartRequestPending = P.placementStartRequestPending)
  | fresh (hpaused : Q.state = .paused) (hepoch : Q.placementEpoch = 0)
      (hidle : Q.inFlightRequests = 0)
  | placed (hlow : low < Q.placementEpoch) (hhigh : Q.placementEpoch ≤ high)
      (hidle : Q.inFlightRequests = 0)
      (hstart : Q.state = .active → admits = true ∧ Q.placementStartRequestPending = true)

variable {busy marker admits : Bool}

lemma Renewed.refl (low high P) :
    Renewed busy marker admits low high (some P) P :=
  .kept rfl rfl (fun h => ⟨h, rfl⟩) (fun _ => rfl) fun _ _ => rfl

/-- What becomes of the placements of all Programs. -/
structure Renews (busy marker admits : Bool) (s s' : ProgramSchedulerState) : Prop where
  epoch : s.runtime.nextPlacementEpoch ≤ s'.runtime.nextPlacementEpoch
  programs : ∀ r Q, s'.runtime.program r = some Q → Renewed busy marker admits
    s.runtime.nextPlacementEpoch s'.runtime.nextPlacementEpoch (s.runtime.program r) Q
  single : ∀ r r' Q Q', s'.runtime.program r = some Q → s'.runtime.program r' = some Q' →
    Q.state = .active → s.runtime.nextPlacementEpoch < Q.placementEpoch →
    Q'.placementEpoch = Q.placementEpoch → r = r'

/-- No epoch is ahead of the counter. -/
def Given (s : ProgramSchedulerState) : Prop :=
  ∀ r P, s.runtime.program r = some P → P.placementEpoch ≤ s.runtime.nextPlacementEpoch

/-- Nothing new, and possibly some Programs gone. -/
lemma Renews.of_sub (hgiven : Given s)
    (hprogram : ∀ r Q, s'.runtime.program r = some Q → s.runtime.program r = some Q)
    (hnext : s'.runtime.nextPlacementEpoch = s.runtime.nextPlacementEpoch) :
    Renews busy marker admits s s' where
  epoch := hnext.ge
  programs := by
    intro r Q hQ
    rw [hprogram r Q hQ]
    exact .refl _ _ Q
  single := by
    intro r _ Q _ hQ _ _ hnew
    exact absurd (hgiven r Q (hprogram r Q hQ)) (Nat.not_le_of_lt hnew)

variable {p : ProgramRef} {P Q : RuntimeProgram} {d : ProgramDispatch}
  {dispatch : Option ProgramDispatch} {handle : ProgramRequestHandle} {event : Instant × Action}
  {finished : List Nat}

/-- One Program changes. -/
lemma Renews.update (hgiven : Given s)
    (hothers : ∀ r, r ≠ p → s'.runtime.program r = s.runtime.program r)
    (hnext : s.runtime.nextPlacementEpoch ≤ s'.runtime.nextPlacementEpoch)
    (hp : ∀ Q, s'.runtime.program p = some Q → Renewed busy marker admits
      s.runtime.nextPlacementEpoch s'.runtime.nextPlacementEpoch (s.runtime.program p) Q) :
    Renews busy marker admits s s' where
  epoch := hnext
  programs := by
    intro r R hR
    by_cases hr : r = p
    · rw [hr] at hR ⊢
      exact hp R hR
    rw [hothers r hr] at hR
    rw [hR]
    exact .refl _ _ R
  single := by
    -- a Program other than `p` has no new epoch
    have honly : ∀ r R, s'.runtime.program r = some R →
        s.runtime.nextPlacementEpoch < R.placementEpoch → r = p := by
      intro r R hR hnew
      by_contra hr
      rw [hothers r hr] at hR
      exact Nat.not_le_of_lt hnew (hgiven r R hR)
    intro r r' R R' hR hR' _ hnew heq
    exact (honly r R hR hnew).trans (honly r' R' hR' (heq ▸ hnew)).symm

/-- One live Program is stored anew. -/
lemma Renews.stored (hgiven : Given s) (hP : s.runtime.program p = some P)
    (hprogram : ∀ r, s'.runtime.program r = if r = p then some Q else s.runtime.program r)
    (hnext : s.runtime.nextPlacementEpoch ≤ s'.runtime.nextPlacementEpoch)
    (hQ : Renewed busy marker admits s.runtime.nextPlacementEpoch s'.runtime.nextPlacementEpoch
      (some P) Q) : Renews busy marker admits s s' := by
  refine .update hgiven (fun r hr => (hprogram r).trans (if_neg hr)) hnext fun R hR => ?_
  rw [hprogram, if_pos rfl] at hR
  cases hR
  rw [hP]
  exact hQ

/-! ## Decisions -/

lemma Settle.renews (h : sched.Settle s s') (hgiven : Given s) : Renews true true admits s
    s' := by
  cases h with
  | prune now retention
  | sample t f
  | report t source
  | retouch p hf
  | wake => exact .of_sub hgiven (fun _ _ h => h) rfl
  | pause _ _ hP _ h =>
    obtain ⟨P, d, t, hP, -, -, -, -, rfl⟩ := pauseIdle_eq_some h
    refine .stored hgiven hP (program_update hP rfl) le_rfl ?_
    exact .kept rfl rfl nofun (fun _ => rfl) nofun
  | @release p now =>
    cases hrt : s.runtime.releaseIdle p now with
    | none =>
      rw [releaseProgram_refused hrt]
      exact .of_sub hgiven (fun _ _ h => h) rfl
    | some =>
      refine .of_sub hgiven (sched.releaseProgram_runtime s p now).1 ?_
      obtain ⟨-, -, -, -, hnext⟩ := ProgramRuntime.releaseIdle_eq_some hrt
      rw [releaseProgram_live hrt]
      exact hnext

/-- An admission gives the next epoch to its Program. -/
lemma Decide.renews (h : sched.Decide s s') (hconsistent : Consistent sched s)
    (hgiven : Given s) : Renews true true true s s' := by
  cases h with
  | settle h => exact Settle.renews h hgiven
  | @admission p _ _ _ h =>
    obtain ⟨_, _, _, hP, hpaused, -, _, hrt, rfl⟩ := commitAdmission_eq_some h
    subst hrt
    obtain ⟨e, -, hlive⟩ := (hconsistent.sound p).of_program hP
    refine .stored hgiven hP (program_update hP rfl) (Nat.le_succ _) ?_
    exact .placed (Nat.lt_succ_self _) le_rfl (hlive.paused hpaused) fun _ => ⟨rfl, rfl⟩

/-! ## Sections -/

variable {sys : System} {now : Instant} {action : Action} {s₁ : ProgramSchedulerState}
  {calls : List AcquireCall} {dispatches : List ProgramDispatch}

lemma Renews.of_facts (hgiven : Given s) (hfacts : ∀ r, s'.facts r = s.facts r)
    (hnext : s'.runtime.nextPlacementEpoch = s.runtime.nextPlacementEpoch) :
    Renews busy marker admits s s' :=
  .of_sub hgiven (fun r Q hQ => by
    rw [← show (s.facts r).program = s.runtime.program r from rfl, ← hfacts r]
    exact hQ) hnext

/-- The Programs after a section about `p`. -/
lemma program_of_others (hothers : ∀ r, r ≠ p → s'.facts r = s.facts r) (r) (hr : r ≠ p) :
    s'.runtime.program r = s.runtime.program r :=
  congrArg program (hothers r hr)

lemma Cancels.renewed (low high) (h : Cancels requestId f f') (hQ : f'.program = some Q) :
    Renewed true true admits low high f.program Q := by
  cases h with
  | waiting hrest hne
  | running =>
    rw [show f.program = some Q from hQ]
    exact .refl low high Q
  | @paused _ hP =>
    cases hQ
    exact .kept hP rfl (fun h => ⟨h, rfl⟩) (fun _ => rfl) fun _ _ => rfl
  | @active _ _ _ hP =>
    cases hQ
    exact .kept hP rfl nofun (fun _ => rfl) nofun

lemma Arrives.renewed (low high) (h : Arrives sched p identity request f f')
    (hQ : f'.program = some Q) : Renewed true true admits low high f.program Q := by
  cases h with
  | known hP =>
    cases hQ
    exact .kept hP rfl (fun h => ⟨h, rfl⟩) (fun _ => rfl) fun _ _ => rfl
  | fresh =>
    cases hQ
    exact .fresh rfl rfl rfl

lemma Retains.renewed (low high) (h : Retains sched p identity request f f' error)
    (hQ : f'.program = some Q) :
    Renewed true true admits low high f.program Q := by
  cases h with
  | placed h
  | unbound h => exact h.renewed low high hQ
  | @queued f1 _ _ t _ h =>
    refine h.renewed low high ?_
    rw [← (f1.enqueuedOnce_fields sched p.modelPool t).1]
    exact hQ

/-- A claim takes the marker, and counts a request more if it dispatches. -/
lemma Frame.claims (hframe : Frame sched p s s') (hgiven : Given s)
    (h : Claims handle (s.facts p) (s'.facts p) dispatch) :
    Renews dispatch.isNone false false s s' := by
  refine .update hgiven (program_of_others hframe.others) hframe.epoch.ge fun Q hQ => ?_
  have hQ' : (s'.facts p).program = some Q := hQ
  show Renewed _ false false _ _ (s.facts p).program Q
  generalize s'.facts p = f' at h hQ'
  cases h with
  | front hP =>
    cases hQ'
    exact .kept hP rfl (fun h => ⟨h, rfl⟩) nofun nofun
  | behind hP =>
    cases hQ'
    exact .kept hP rfl (fun h => ⟨h, rfl⟩) (fun _ => rfl) nofun
  | unplaced =>
    rw [hQ']
    exact .refl _ _ Q

/-- A completion counts a request less. -/
lemma Frame.completes (hframe : Frame sched p s s') (hgiven : Given s)
    (h : Completes (s.facts p) (s'.facts p)) : Renews false true false s s' := by
  refine .update hgiven (program_of_others hframe.others) hframe.epoch.ge fun Q hQ => ?_
  have hQ' : (s'.facts p).program = some Q := hQ
  show Renewed false true false _ _ (s.facts p).program Q
  generalize s'.facts p = f' at h hQ'
  cases h with
  | runs _ hP =>
    cases hQ'
    exact .kept hP rfl (fun h => ⟨h, rfl⟩) nofun fun _ _ => rfl
  | pauses _ hP =>
    cases hQ'
    exact .kept hP rfl nofun nofun nofun

/-- A snapshot moves Programs off their placements only. -/
lemma SyncStep.renews {ids : List TargetId}
    (h : SyncStep sched pool ids s s') (hgiven : Given s) : Renews true true admits s s' where
  epoch := h.epoch
  programs := by
    intro r Q hQ
    rcases h.program r Q hQ with hold | hdisplaced
    · rw [show s.runtime.program r = some Q from hold]
      exact .refl _ _ Q
    refine .placed hdisplaced.fresh hdisplaced.given hdisplaced.idle fun hactive => ?_
    rw [hdisplaced.paused] at hactive
    cases hactive
  single := by
    intro r _ Q _ hQ _ hactive hnew
    rcases h.program r Q hQ with hold | hdisplaced
    · exact absurd (hgiven r Q hold) (Nat.not_le_of_lt hnew)
    · rw [hdisplaced.paused] at hactive
      cases hactive

/-! ## Dispatches name their placement -/

/-- The epoch of a Program was given to its placement. -/
structure Named (next : Nat) (dispatches : List ProgramDispatch) (P : RuntimeProgram) : Prop where
  given : P.placementEpoch ≤ next
  placed : P.state = .active → 0 < P.placementEpoch
  target : P.state = .active → ∀ d ∈ dispatches, d.placementEpoch = P.placementEpoch →
    P.placement = some d.targetId

/-- Epochs identify placements. -/
structure Issued (s : ProgramSchedulerState) (dispatches : List ProgramDispatch) : Prop where
  issued : ∀ d ∈ dispatches, 0 < d.placementEpoch ∧
    d.placementEpoch ≤ s.runtime.nextPlacementEpoch
  named : ∀ r P, s.runtime.program r = some P →
    Named s.runtime.nextPlacementEpoch dispatches P
  single : ∀ r r' P P', s.runtime.program r = some P → s.runtime.program r' = some P' →
    P.state = .active → P'.placementEpoch = P.placementEpoch → r = r'

variable {epoch i : Nat}

section

variable (h : Issued s dispatches)
include h

lemma Issued.given : Given s := fun r P hP => (h.named r P hP).given

/-- A new epoch is on no dispatch. -/
lemma Issued.epoch_ne (hnew : s.runtime.nextPlacementEpoch < epoch) :
    ∀ d ∈ dispatches, d.placementEpoch ≠ epoch := by
  intro d hd _
  have hle := (h.issued d hd).2
  omega

lemma Issued.renews (hrenews : Renews busy marker admits s s') :
    Issued s' dispatches where
  issued := by
    intro d hd
    exact ⟨(h.issued d hd).1, (h.issued d hd).2.trans hrenews.epoch⟩
  named := by
    intro r Q hQ
    cases hrenews.programs r Q hQ with
    | kept hP hepoch hkept =>
      have hnamed := h.named r _ hP
      refine ⟨?_, fun hactive => ?_, fun hactive d hd heq => ?_⟩
      · exact (hepoch.le.trans hnamed.given).trans hrenews.epoch
      · rw [hepoch]
        exact hnamed.placed (hkept hactive).1
      · rw [(hkept hactive).2]
        exact hnamed.target (hkept hactive).1 d hd (heq.trans hepoch)
    | fresh hpaused =>
      refine ⟨by omega, fun hactive => ?_, fun hactive => ?_⟩
      all_goals
        rw [hpaused] at hactive
        cases hactive
    | placed hlow hhigh =>
      exact ⟨hhigh, fun _ => Nat.zero_lt_of_lt hlow,
        fun _ d hd heq => absurd heq (h.epoch_ne hlow d hd)⟩
  single := by
    intro r r' Q Q' hQ hQ' hactive heq
    by_cases hnew : s.runtime.nextPlacementEpoch < Q.placementEpoch
    · exact hrenews.single r r' Q Q' hQ hQ' hactive hnew heq
    cases hrenews.programs r Q hQ with
    | fresh hpaused =>
      rw [hpaused] at hactive
      cases hactive
    | placed hlow => exact absurd hlow hnew
    | @kept P hP _ hkept =>
      obtain ⟨hPactive, -⟩ := hkept hactive
      cases hrenews.programs r' Q' hQ' with
      | kept hP' => exact h.single r r' P _ hP hP' hPactive (by omega)
      | fresh =>
        have hpos := (h.named r P hP).placed hPactive
        omega
      | placed => omega

/-- A dispatch of an active Program. -/
lemma Issued.dispatched (hP : s.runtime.program p = some P) (hactive : P.state = .active)
    (htarget : P.placement = some d.targetId) (hepoch : d.placementEpoch = P.placementEpoch) :
    Issued s (dispatches ++ [d]) where
  issued := by
    refine forall_mem_append.2 ⟨h.issued, forall_mem_singleton.2 ?_⟩
    rw [hepoch]
    exact ⟨(h.named p P hP).placed hactive, (h.named p P hP).given⟩
  named := by
    intro r Q hQ
    have hnamed := h.named r Q hQ
    refine ⟨hnamed.given, hnamed.placed, fun hQactive =>
      forall_mem_append.2 ⟨hnamed.target hQactive, forall_mem_singleton.2 ?_⟩⟩
    intro heq
    have hr : p = r := h.single p r P Q hP hQ hactive (heq.symm.trans hepoch)
    rw [← hr, hP] at hQ
    cases hQ
    exact htarget
  single := h.single

end

/-- What an action does to the epochs: it renews placements and dispatches
nothing, or one Program takes up a request, or one Program has one completed. -/
inductive Places (sched : ProgramScheduler) (sys : System) (action : Action)
    (s₁ : ProgramSchedulerState) : List ProgramDispatch → Prop
  | renews (hrenews : Renews true true false sys.state s₁)
      (hinert : ∀ d, sys.finishing action = some d →
        Refuses d (sys.state.facts d.program)) : Places sched sys action s₁ sys.dispatches
  | claims {i : Nat} {c : AcquireCall} {handle : ProgramRequestHandle}
      {dispatch : Option ProgramDispatch} (haction : action = .claim i)
      (hc : sys.calls[i]? = some c) (hhandle : c.handle = some handle)
      (hphase : c.phase = .claiming)
      (hclaims : Claims handle (sys.state.facts handle.program) (s₁.facts handle.program)
        dispatch)
      (hframe : Frame sched handle.program sys.state s₁) :
      Places sched sys action s₁ (sys.dispatches ++ dispatch.toList)
  | completes {dispatch : ProgramDispatch} {P : RuntimeProgram}
      (hfinish : sys.finishing action = some dispatch)
      (hP : (sys.state.facts dispatch.program).program = some P)
      (hepoch : P.placementEpoch = dispatch.placementEpoch)
      (hcompletes : Completes (sys.state.facts dispatch.program) (s₁.facts dispatch.program))
      (hframe : Frame sched dispatch.program sys.state s₁) :
      Places sched sys action s₁ sys.dispatches

lemma Outcome.places (houtcome : Outcome sched sys now action s₁ calls dispatches)
    (hgiven : Given sys.state) : Places sched sys action s₁ dispatches := by
  have hnone : sys.finishing action = none → ∀ d, sys.finishing action = some d →
      Refuses d (sys.state.facts d.program) := by
    intro hfinish d hd
    rw [hfinish] at hd
    cases hd
  cases houtcome with
  | idle hsame _ hfinish => exact .renews (.of_facts hgiven hsame.facts hsame.epoch) (hnone hfinish)
  | observe _ hsame => exact .renews (.of_facts hgiven hsame.facts hsame.epoch) (hnone rfl)
  | turn _ _ hfinish => exact .renews (.of_sub hgiven (fun _ _ h => h) rfl) (hnone hfinish)
  | reject call hhandle hfinish
  | absent _ _ _ _ hfinish => exact .renews (.of_sub hgiven (fun _ _ h => h) rfl) (hnone hfinish)
  | @permit _ _ _ _ _ _ hpermit =>
    refine .renews (.of_sub hgiven (fun r Q hQ => ?_) (takePermit_eq hpermit).2.2.1) (hnone rfl)
    have hfacts := congrArg program (facts_takePermit hpermit r)
    rw [show s₁.runtime.program r = (s₁.facts r).program from rfl, hfacts] at hQ
    split at hQ
    · exact hQ
    · exact hQ
  | claim hc hhandle hclaims hframe hphase => exact .claims rfl hc hhandle hphase hclaims hframe
  | @cancel _ _ _ _ _ _ _ _ hcancels hframe _ hfinish =>
    exact .renews (.update hgiven (program_of_others hframe.others) hframe.epoch.ge
      fun Q hQ => hcancels.renewed _ _ hQ) (hnone hfinish)
  | @refuse _ _ hfinish hrefuses =>
    refine .renews (.of_sub hgiven (fun _ _ h => h) rfl) fun d hd => ?_
    rw [hfinish] at hd
    cases hd
    exact hrefuses
  | complete hfinish hP hepoch hcompletes hframe =>
    exact .completes hfinish hP hepoch hcompletes hframe
  | @retain _ env identity tokens targets text arrivedAt p error call htime
      htargets hkey hretains hframe =>
    exact .renews (.update hgiven (program_of_others hframe.others) hframe.epoch.ge
      fun Q hQ => hretains.renewed _ _ hQ) (hnone rfl)
  | sync _ _ hsync => exact .renews (hsync.renews hgiven) (hnone rfl)

lemma Places.issued (h : Places sched sys action s₁ dispatches)
    (hissued : Issued sys.state sys.dispatches) : Issued s₁ dispatches := by
  cases h with
  | renews hrenews => exact hissued.renews hrenews
  | @claims _ _ handle dispatch _ _ _ _ hclaims hframe =>
    have hrenewed := hissued.renews (hframe.claims hissued.given hclaims)
    generalize hf' : s₁.facts handle.program = f' at hclaims
    cases hclaims with
    | @front _ _ _ _ _ hactive _ _ _ htarget hepoch =>
      exact hrenewed.dispatched (congrArg program hf') hactive htarget hepoch
    | behind hP hactive hfront
    | unplaced =>
      rw [toList_none, append_nil]
      exact hrenewed
  | completes _ _ _ hcompletes hframe =>
    exact hissued.renews (hframe.completes hissued.given hcompletes)

/-- Decisions only renew placements. -/
lemma Issued.decides {J : ProgramSchedulerState → Prop} (h : Issued s dispatches)
    (hconsistent : Consistent sched s) (hdecides : sched.Decides s s') (hJ : J s)
    (hrenews : ∀ s s', Issued s dispatches → J s → Renews true true true s s' → J s') :
    Issued s' dispatches ∧ J s' :=
  hdecides.keeps (J := fun s => Issued s dispatches ∧ J s) (fun s s' hdecide hs hJ =>
      have hren := Decide.renews hdecide hs hJ.1.given
      ⟨hJ.1.renews hren, hrenews s s' hJ.1 hJ.2 hren⟩) hconsistent ⟨h, hJ⟩

lemma step_issued (h : Consistent sched sys.state) (hissued : Issued sys.state sys.dispatches) :
    Issued (sys.step sched event).state (sys.step sched event).dispatches := by
  rcases step_happens h event with ⟨-, hstill⟩ | ⟨-, _, houtcome, hdecides⟩
  · rw [hstill]
    exact hissued
  · exact (((houtcome.places hissued.given).issued hissued).decides (J := fun _ => True)
      (houtcome.consistent h) hdecides trivial fun _ _ _ _ _ => trivial).1

lemma empty_issued (config) :
    Issued (empty config).state (empty config).dispatches := by
  have hnone : ∀ r P, (empty config).state.runtime.program r ≠ some P := by
    intro r P hP
    cases hP
  constructor
  · exact fun d hd => absurd hd not_mem_nil
  · exact fun r P hP => absurd hP (hnone r P)
  · exact fun r _ P _ hP => absurd hP (hnone r P)

/-! ## Requests in flight -/

/-- The dispatches of a placement that were not completed yet, by number. -/
def outstanding (dispatches : List ProgramDispatch) (finished : List Nat) (r : ProgramRef)
    (epoch : Nat) : Finset Nat :=
  (Finset.range dispatches.length).filter fun i => i ∉ finished ∧
    (dispatches[i]?.any fun d => decide (d.program = r ∧ d.placementEpoch = epoch)) = true

lemma mem_outstanding : i ∈ outstanding dispatches finished r epoch ↔ i ∉ finished ∧
      ∃ d, dispatches[i]? = some d ∧ d.program = r ∧ d.placementEpoch = epoch := by
  unfold outstanding
  rw [Finset.mem_filter, Finset.mem_range]
  constructor
  · rintro ⟨-, hnot, hany⟩
    cases hd : dispatches[i]? with
    | none =>
      rw [hd] at hany
      cases hany
    | some d =>
      rw [hd] at hany
      exact ⟨hnot, d, rfl, of_decide_eq_true hany⟩
  rintro ⟨hnot, d, hd, hof⟩
  refine ⟨(List.getElem?_eq_some_iff.1 hd).1, hnot, ?_⟩
  rw [hd]
  exact decide_eq_true hof

lemma outstanding_eq_empty (h : ∀ d ∈ dispatches, d.placementEpoch ≠ epoch) :
    outstanding dispatches finished r epoch = ∅ := by
  refine Finset.eq_empty_of_forall_notMem fun i hi => ?_
  obtain ⟨-, d, hd, -, hepoch⟩ := mem_outstanding.1 hi
  exact h d (mem_of_getElem? hd) hepoch

/-- A completion takes its own dispatch away. -/
lemma outstanding_finish (finished r epoch i) :
    outstanding dispatches (finished ++ [i]) r epoch
      = (outstanding dispatches finished r epoch).erase i := by
  ext j
  rw [Finset.mem_erase, mem_outstanding, mem_outstanding, mem_append, mem_singleton, not_or]
  constructor
  · rintro ⟨⟨hnot, hne⟩, hof⟩
    exact ⟨hne, hnot, hof⟩
  · rintro ⟨hne, hnot, hof⟩
    exact ⟨⟨hnot, hne⟩, hof⟩

/-- A dispatch counts for its own placement. -/
lemma outstanding_append (d : ProgramDispatch) (r epoch)
    (hpast : ∀ i ∈ finished, i < dispatches.length) :
    outstanding (dispatches ++ [d]) finished r epoch = if d.program = r ∧ d.placementEpoch = epoch
        then insert dispatches.length (outstanding dispatches finished r epoch)
        else outstanding dispatches finished r epoch := by
  have hnew : dispatches.length ∉ finished := fun h => Nat.lt_irrefl _ (hpast _ h)
  have hmem : ∀ i, i ∈ outstanding (dispatches ++ [d]) finished r epoch ↔
      i ∈ outstanding dispatches finished r epoch ∨
        i = dispatches.length ∧ d.program = r ∧ d.placementEpoch = epoch := by
    intro i
    rw [mem_outstanding, mem_outstanding]
    by_cases hi : i = dispatches.length
    · subst hi
      simp [hnew]
    have hsame : (dispatches ++ [d])[i]? = dispatches[i]? := by
      rcases lt_or_gt_of_ne hi with hlt | _
      · exact getElem?_append_left hlt
      · rw [getElem?_eq_none (by rw [length_append, length_singleton]; omega),
          getElem?_eq_none (by omega)]
    rw [hsame]
    simp [hi]
  ext i
  rw [hmem]
  split
  · rename_i hof
    simp [hof, or_comm]
  · rename_i hof
    simp [hof]

/-- Each Program counts its dispatches that were not completed yet. -/
structure Counted (s : ProgramSchedulerState) (dispatches : List ProgramDispatch)
    (finished : List Nat) : Prop where
  past : ∀ i ∈ finished, i < dispatches.length
  inFlight : ∀ r P, s.runtime.program r = some P →
    P.inFlightRequests = (outstanding dispatches finished r P.placementEpoch).card

lemma Counted.past_append (h : Counted s dispatches finished) (hd : dispatches[i]? = some d) :
    ∀ j ∈ finished ++ [i], j < dispatches.length :=
  List.forall_mem_append.2 ⟨h.past,
    List.forall_mem_singleton.2 (List.getElem?_eq_some_iff.1 hd).1⟩

/-- A new placement starts with nothing in flight. -/
lemma Counted.renews (h : Counted s dispatches finished) (hissued : Issued s dispatches)
    (hrenews : Renews true marker admits s s') : Counted s' dispatches finished where
  past := h.past
  inFlight := by
    intro r Q hQ
    cases hrenews.programs r Q hQ with
    | kept hP hepoch _ hbusy =>
      rw [hepoch, hbusy rfl]
      exact h.inFlight r _ hP
    | fresh _ _ hidle =>
      rw [hidle, outstanding_eq_empty, Finset.card_empty]
      intro d hd _
      have hpos := (hissued.issued d hd).1
      omega
    | placed hlow _ hidle =>
      rw [hidle, outstanding_eq_empty (hissued.epoch_ne hlow), Finset.card_empty]

/-- The dispatch whose completion a step processes. -/
def System.finishes (sys : System) (event : Instant × Action) : List Nat :=
  if sys.clock ≤ event.1 then
    match event.2 with
    | .complete _ i _ _ _ _ => if i < sys.dispatches.length then [i] else []
    | _ => []
  else []

lemma finishes_cases (hclock : sys.clock ≤ event.1) :
    (sys.finishing event.2 = none ∧ sys.finishes event = []) ∨
      ∃ i d, sys.finishing event.2 = some d ∧ sys.dispatches[i]? = some d ∧
        sys.finishes event = [i] := by
  unfold finishes
  rw [if_pos hclock]
  cases haction : event.2 with
  | complete _ i =>
    cases hd : sys.dispatches[i]? with
    | none =>
      refine .inl ⟨hd, if_neg fun hlt => ?_⟩
      rw [List.getElem?_eq_getElem hlt] at hd
      cases hd
    | some d => exact .inr ⟨i, d, hd, hd, if_pos (List.getElem?_eq_some_iff.1 hd).1⟩
  | _ => exact .inl ⟨rfl, rfl⟩

section

variable (h : Counted s dispatches finished)
include h

/-- Only a dispatch that is not outstanding is refused. -/
lemma Counted.refuse (hissued : Issued s dispatches) (hconsistent : Consistent sched s)
    (hd : dispatches[i]? = some d) (hrefuses : Refuses d (s.facts d.program)) :
    Counted s dispatches (finished ++ [i]) where
  past := h.past_append hd
  inFlight := by
    intro r P hP
    rw [outstanding_finish, Finset.erase_eq_of_notMem]
    · exact h.inFlight r P hP
    intro hmem
    obtain ⟨-, e, he, hr, hepoch⟩ := mem_outstanding.1 hmem
    rw [hd] at he
    cases he
    subst hr
    have hbusy : P.inFlightRequests ≠ 0 := by
      rw [h.inFlight _ P hP]
      exact Finset.card_ne_zero_of_mem hmem
    obtain ⟨_, -, hlive⟩ := (hconsistent.sound d.program).of_program hP
    have hactive : P.state = .active := by
      cases hstate : P.state with
      | active => rfl
      | paused => exact absurd (hlive.paused hstate) hbusy
    have htarget := (hissued.named _ P hP).target hactive d (mem_of_getElem? hd) hepoch
    rcases hrefuses P hP with hplace | hother | hidle
    · exact hplace htarget
    · exact hother hepoch.symm
    · exact hbusy hidle

/-- A dispatch that is completed was outstanding. -/
lemma Counted.complete (hd : dispatches[i]? = some d) (hnew : i ∉ finished)
    (hP : (s.facts d.program).program = some P) (hepoch : P.placementEpoch = d.placementEpoch)
    (hcompletes : Completes (s.facts d.program) (s'.facts d.program))
    (hframe : Frame sched d.program s s') : Counted s' dispatches (finished ++ [i]) where
  past := h.past_append hd
  inFlight := by
    intro r Q hQ
    rw [outstanding_finish]
    by_cases hr : r = d.program
    · subst hr
      have hafter : Q.placementEpoch = P.placementEpoch ∧
          Q.inFlightRequests = P.inFlightRequests - 1 := by
        have hQ' : (s'.facts d.program).program = some Q := hQ
        generalize s'.facts d.program = f' at hQ' hcompletes
        cases hcompletes with
        | runs promptTokens hP'
        | pauses _ hP' =>
          rw [hP] at hP'
          cases hP'
          cases hQ'
          exact ⟨rfl, rfl⟩
      rw [hafter.1, hafter.2, h.inFlight _ P hP, Finset.card_erase_of_mem]
      exact mem_outstanding.2 ⟨hnew, d, hd, rfl, hepoch.symm⟩
    · rw [program_of_others hframe.others r hr] at hQ
      rw [Finset.erase_eq_of_notMem]
      · exact h.inFlight r Q hQ
      intro hmem
      obtain ⟨-, e, he, hprogram, -⟩ := mem_outstanding.1 hmem
      rw [hd] at he
      cases he
      exact hr hprogram.symm

/-- A claim puts its dispatch in flight. -/
lemma Counted.claim (hissued : Issued s dispatches)
    (hclaims : Claims handle (s.facts handle.program) (s'.facts handle.program) dispatch)
    (hframe : Frame sched handle.program s s') :
    Counted s' (dispatches ++ dispatch.toList) finished := by
  have hrenews := hframe.claims hissued.given hclaims
  generalize hf : s.facts handle.program = f at hclaims
  generalize hf' : s'.facts handle.program = f' at hclaims
  cases hclaims with
  | behind hP hactive hfront
  | unplaced =>
    rw [toList_none, append_nil]
    exact h.renews hissued hrenews
  | @front P _ _ _ hP _ _ _ hprogram _ hepoch =>
    rw [toList_some]
    refine ⟨fun i hi => ?_, fun r Q hQ => ?_⟩
    · rw [length_append]
      exact Nat.lt_add_right _ (h.past i hi)
    rw [outstanding_append _ _ _ h.past]
    by_cases hr : r = handle.program
    · subst hr
      have hnew : dispatches.length
          ∉ outstanding dispatches finished handle.program P.placementEpoch := by
        intro hmem
        obtain ⟨-, d, hd, -⟩ := mem_outstanding.1 hmem
        rw [getElem?_eq_none le_rfl] at hd
        cases hd
      rw [show s'.runtime.program handle.program = _ from congrArg program hf'] at hQ
      cases hQ
      rw [if_pos ⟨hprogram, hepoch⟩]
      exact (congrArg (· + 1) (h.inFlight _ P ((congrArg program hf).trans hP))).trans
        (Finset.card_insert_of_notMem hnew).symm
    · rw [program_of_others hframe.others r hr] at hQ
      rw [h.inFlight r Q hQ, if_neg fun hof => hr (hof.1.symm.trans hprogram)]

end

/-- A completion whose generation or placement is not the live one. -/
lemma complete_inert (sched : ProgramScheduler) (env) (s : ProgramSchedulerState)
    (dispatch : ProgramDispatch) (success terminate usage decodeSeconds now)
    (hstale : ∀ P, s.runtime.programs.lookup dispatch.program.key = some P →
      P.reference.generation ≠ dispatch.program.generation ∨
        P.placementEpoch ≠ dispatch.placementEpoch) :
    sched.complete env s dispatch success terminate usage decodeSeconds now = s := by
  unfold ProgramScheduler.complete
  split
  · rename_i hview _
    obtain ⟨P, hP, rfl⟩ := ProgramRuntime.view_eq_some.1 hview
    obtain ⟨hlookup, href⟩ := ProgramRuntime.program_eq_some.1 hP
    have hepoch : P.placementEpoch ≠ dispatch.placementEpoch := by
      refine (hstale P hlookup).resolve_left fun hgeneration => ?_
      rw [href] at hgeneration
      exact hgeneration rfl
    have hnone : s.runtime.completeRequest dispatch usage = none := by
      unfold ProgramRuntime.completeRequest
      rw [hP]
      exact if_pos (.inl hepoch)
    rw [hnone]
    split
    · rfl
    · rfl
  · rfl

lemma Places.counted (hclock : sys.clock ≤ event.1) (h : Places sched sys event.2 s₁ dispatches)
    (hconsistent : Consistent sched sys.state) (hissued : Issued sys.state sys.dispatches)
    (hcounted : Counted sys.state sys.dispatches finished)
    (honce : (finished ++ sys.finishes event).Nodup) :
    Counted s₁ dispatches (finished ++ sys.finishes event) := by
  cases h with
  | renews hrenews hinert =>
    refine Counted.renews ?_ hissued hrenews
    rcases finishes_cases hclock with ⟨-, hnil⟩ | ⟨i, d, hfinish, hd, hone⟩
    · rw [hnil, append_nil]
      exact hcounted
    · rw [hone]
      exact hcounted.refuse hissued hconsistent hd (hinert d hfinish)
  | @claims i _ _ _ haction _ _ _ hclaims hframe =>
    have hnil : sys.finishes event = [] := by
      rcases finishes_cases hclock with ⟨-, hnil⟩ | ⟨i, d, hfinish, -⟩
      · exact hnil
      · rw [haction] at hfinish
        cases hfinish
    rw [hnil, append_nil]
    exact hcounted.claim hissued hclaims hframe
  | @completes _ _ hfinish hP hepoch hcompletes hframe =>
    rcases finishes_cases hclock with ⟨hnone, -⟩ | ⟨i, d, hfinish', hd, hone⟩
    · rw [hfinish] at hnone
      cases hnone
    rw [hfinish] at hfinish'
    cases hfinish'
    rw [hone] at honce ⊢
    refine hcounted.complete hd (fun hmem => ?_) hP hepoch hcompletes hframe
    exact (nodup_append.1 honce).2.2 i hmem i (mem_singleton.2 rfl) rfl

/-- In every run: a completion of an old generation or placement changes
nothing, and, when no dispatch is completed twice, the requests in flight of a
Program are the dispatches of its placement that were not completed yet. -/
theorem run_stale_inert (sched : ProgramScheduler) (events : List (Instant × Action)) :
    (∀ (dispatch : ProgramDispatch) (env : Env) (success terminate : Bool)
        (usage : ProgramUsageObservation) (decodeSeconds : Option Rat) (now : Instant),
      (∀ P, ((empty sched.config).run sched events).state.runtime.programs.lookup
          dispatch.program.key = some P → P.reference.generation ≠ dispatch.program.generation ∨
          P.placementEpoch ≠ dispatch.placementEpoch) →
      sched.complete env ((empty sched.config).run sched events).state dispatch success
        terminate usage decodeSeconds now = ((empty sched.config).run sched events).state) ∧
    ((runLog (step sched) finishes (empty sched.config) events).Nodup →
      ∀ r P, ((empty sched.config).run sched events).state.runtime.program r = some P →
        P.inFlightRequests = (outstanding ((empty sched.config).run sched events).dispatches
          (runLog (step sched) finishes (empty sched.config) events) r P.placementEpoch).card) := by
  refine ⟨fun dispatch env success terminate usage decodeSeconds now =>
    complete_inert sched env _ dispatch success terminate usage decodeSeconds now,
    fun honce => ?_⟩
  -- a run in which nothing is completed twice has no shorter run in which something is
  refine ((run_logged (J := fun sys log => Issued sys.state sys.dispatches ∧
    (log.Nodup → Counted sys.state sys.dispatches log)) ⟨empty_issued sched.config, fun _ => ?_⟩
    (fun sys _ event h hJ => ⟨step_issued h hJ.1, fun honce => ?_⟩) events).2 honce).inFlight
  · refine ⟨fun i hi => absurd hi not_mem_nil, fun r P hP => ?_⟩
    cases hP
  have hcounted := hJ.2 (nodup_append.1 honce).1
  rcases step_happens h event with ⟨hclock, hstill⟩ | ⟨hclock, _, houtcome, hdecides⟩
  · rw [hstill]
    have hnil : sys.finishes event = [] := if_neg (Nat.not_le_of_lt hclock)
    rw [hnil, append_nil]
    exact hcounted
  have hplaces := houtcome.places hJ.1.given
  exact ((hplaces.issued hJ.1).decides (J := fun s => Counted s _ _)
    (houtcome.consistent h) hdecides (hplaces.counted hclock h hJ.1 hcounted honce)
    fun _ _ hissued hcounted hrenews => hcounted.renews hissued hrenews).2

/-- One request is completed, one is in flight. -/
def halfDoneRun : List (Instant × Action) :=
  [(1, syncOf "m" 0 ["a"]), (2, arrivalOf "m" "p" ["a"] 2), (3, arrivalOf "m" "p" ["a"] 3),
    (4, .claim 0), (5, .claim 1), (6, .complete .plain 0 true false ⟨none, none, none⟩ none)]

/-- A dispatch of an epoch that was not given yet. -/
def strayDispatch : ProgramDispatch where
  program := ⟨"m", "p", 0⟩
  targetId := "a"
  placementEpoch := 7
  requestArrivedAt := 2
  dispatchedAt := 4
  estimatedContextTokens := 10
  placementStartRequest := true
  routingText := none
  requestHints := .default

theorem run_stale_inert_half :
    smallScheduler.complete .plain (smallRun halfDoneRun).state strayDispatch true false
        ⟨none, none, none⟩ none 7 = (smallRun halfDoneRun).state ∧
      ((smallRun halfDoneRun).state.runtime.program ⟨"m", "p", 0⟩).map
          inFlightRequests = some 1 ∧
      ((smallRun halfDoneRun).state.runtime.program ⟨"m", "p", 0⟩).map
          inFlightRequests
        = ((smallRun halfDoneRun).state.runtime.program ⟨"m", "p", 0⟩).map fun P =>
          (outstanding (smallRun halfDoneRun).dispatches (runLog (step smallScheduler)
            finishes (empty smallScheduler.config) halfDoneRun) ⟨"m", "p", 0⟩
            P.placementEpoch).card := by
  obtain ⟨hinert, hcounted⟩ := run_stale_inert smallScheduler halfDoneRun
  have hepoch : ((smallRun halfDoneRun).state.runtime.programs.lookup ⟨"m", "p"⟩).map
      placementEpoch = some 1 := by
    decide +kernel
  refine ⟨hinert strayDispatch .plain true false ⟨none, none, none⟩ none 7 fun P hP => .inr ?_,
    by decide +kernel, map_congr fun P hP => ?_⟩
  · rw [show (smallRun halfDoneRun).state.runtime.programs.lookup ⟨"m", "p"⟩ = some P from hP]
      at hepoch
    rw [some.inj hepoch]
    decide
  · exact hcounted (by decide +kernel) ⟨"m", "p", 0⟩ P hP

/-! ## Placement starts -/

/-- The first dispatch of an epoch starts its placement, and no other one. -/
def FirstStarts (dispatches : List ProgramDispatch) : Prop :=
  ∀ (i : Nat) (d : ProgramDispatch), dispatches[i]? = some d → (d.placementStartRequest = true ↔
    ∀ d' ∈ dispatches.take i, d'.placementEpoch ≠ d.placementEpoch)

lemma FirstStarts.append (h : FirstStarts dispatches) (hd : d.placementStartRequest = true ↔
      ∀ d' ∈ dispatches, d'.placementEpoch ≠ d.placementEpoch) :
    FirstStarts (dispatches ++ [d]) := by
  intro i e he
  rcases getElem?_append_cases he with hold | ⟨n, rfl, hnew⟩
  · rw [List.take_append_of_le_length (List.getElem?_eq_some_iff.1 hold).1.le]
    exact h i e hold
  obtain ⟨hn, rfl⟩ := List.getElem?_eq_some_iff.1 hnew
  obtain rfl : n = 0 := Nat.lt_one_iff.1 hn
  rw [List.take_left']
  · exact hd
  · rfl

/-- The marker of an active Program is pending until its placement has a
dispatch. -/
structure Started (s : ProgramSchedulerState) (dispatches : List ProgramDispatch) : Prop where
  marked : ∀ r P, s.runtime.program r = some P → P.state = .active →
    (P.placementStartRequestPending = true ↔
      ∀ d ∈ dispatches, d.placementEpoch ≠ P.placementEpoch)
  first : FirstStarts dispatches

lemma Started.renews (h : Started s dispatches) (hissued : Issued s dispatches)
    (hrenews : Renews busy true admits s s') : Started s' dispatches where
  marked := by
    intro r Q hQ hactive
    cases hrenews.programs r Q hQ with
    | kept hP hepoch hkept _ hmarker =>
      rw [hmarker rfl hactive, hepoch]
      exact h.marked r _ hP (hkept hactive).1
    | fresh hpaused =>
      rw [hpaused] at hactive
      cases hactive
    | placed hlow _ _ hstart => exact ⟨fun _ => hissued.epoch_ne hlow, fun _ => (hstart hactive).2⟩
  first := h.first

/-- A call that claims while the marker of its Program is pending has the front
request. -/
def claimsFront (sys : System) (event : Instant × Action) : Bool :=
  match event.2 with
  | .claim i =>
    match sys.calls[i]? with
    | some ⟨some handle, _, .claiming⟩ =>
      (sys.state.runtime.program handle.program).all fun P =>
        decide (P.state = .paused) || !P.placementStartRequestPending ||
          (sys.state.runtime.requestPool.queue handle.program).head?.any fun front =>
            decide (front.id = handle.requestId)
    | _ => true
  | _ => true

lemma front_of_claimsFront (hguard : claimsFront sys (now, .claim i) = true)
    (hc : sys.calls[i]? = some c) (hhandle : c.handle = some handle) (hphase : c.phase = .claiming)
    (hP : sys.state.runtime.program handle.program = some P) (hactive : P.state = .active)
    (hpending : P.placementStartRequestPending = true) :
    ∃ front, (sys.state.runtime.requestPool.queue handle.program).head? = some front ∧
      front.id = handle.requestId := by
  cases c
  cases hhandle
  cases hphase
  unfold claimsFront at hguard
  simp only [hc, hP, all_some, hactive, hpending] at hguard
  cases hfront : (sys.state.runtime.requestPool.queue handle.program).head? with
  | none =>
    rw [hfront] at hguard
    cases hguard
  | some front =>
    rw [hfront] at hguard
    exact ⟨front, rfl, by simpa using hguard⟩

/-- A claim of the front request takes the marker; a claim behind it finds none. -/
lemma Started.claim (h : Started s dispatches) (hissued : Issued s dispatches)
    (hclaims : Claims handle (s.facts handle.program) (s'.facts handle.program) dispatch)
    (hframe : Frame sched handle.program s s')
    (hfront : ∀ P, s.runtime.program handle.program = some P → P.state = .active →
      P.placementStartRequestPending = true →
      ∃ front, (s.runtime.requestPool.queue handle.program).head? = some front ∧
        front.id = handle.requestId) : Started s' (dispatches ++ dispatch.toList) := by
  have hothers := program_of_others hframe.others
  generalize hf : s.facts handle.program = f at hclaims
  generalize hf' : s'.facts handle.program = f' at hclaims
  have hprogram' : s'.runtime.program handle.program = f'.program := congrArg program hf'
  cases hclaims with
  | @front P _ _ dispatch hP hactive _ _ _ _ hepoch hstart =>
    have hsP : s.runtime.program handle.program = some P := (congrArg program hf).trans hP
    have hmarked := h.marked handle.program P hsP hactive
    constructor
    · intro r Q hQ hQactive
      by_cases hr : r = handle.program
      · subst hr
        rw [hprogram'] at hQ
        cases hQ
        refine ⟨nofun, fun hnone => ?_⟩
        exact absurd hepoch (hnone dispatch (by rw [toList_some]; simp))
      rw [hothers r hr] at hQ
      rw [h.marked r Q hQ hQactive]
      constructor
      · intro hnone d hd
        rcases mem_append.1 hd with hold | hnew
        · exact hnone d hold
        rw [toList_some, mem_singleton] at hnew
        rw [hnew, hepoch]
        exact fun heq => hr (hissued.single r handle.program Q P hQ hsP hQactive heq)
      · exact fun hnone d hd => hnone d (mem_append_left _ hd)
    · refine h.first.append ?_
      rw [hstart, hmarked, hepoch]
  | @behind P hP hactive hbehind =>
    rw [toList_none, append_nil]
    refine h.renews hissued (show Renews false true false s s' from
      .update hissued.given hothers hframe.epoch.ge fun Q hQ => ?_)
    rw [hprogram'] at hQ
    cases hQ
    refine .kept ((congrArg program hf).trans hP) rfl (fun h => ⟨h, rfl⟩) nofun fun _ _ => ?_
    cases hmarker : P.placementStartRequestPending with
    | false => rfl
    | true =>
      obtain ⟨front, hhead, hid⟩ := hfront P ((congrArg program hf).trans hP) hactive hmarker
      have hpending : s.runtime.requestPool.queue handle.program = f.pending := congrArg pending hf
      exact absurd hid (hbehind front (hpending ▸ hhead))
  | unplaced =>
    rw [toList_none, append_nil]
    refine h.renews hissued (show Renews false true false s s' from
      .update hissued.given hothers hframe.epoch.ge fun Q hQ => ?_)
    rw [hprogram'] at hQ
    rw [show s.runtime.program handle.program = some Q from (congrArg program hf).trans hQ]
    exact .refl _ _ Q

lemma Places.started (h : Places sched sys event.2 s₁ dispatches)
    (hissued : Issued sys.state sys.dispatches) (hguard : claimsFront sys event = true)
    (hstarted : Started sys.state sys.dispatches) : Started s₁ dispatches := by
  cases event
  cases h with
  | renews hrenews => exact hstarted.renews hissued hrenews
  | claims haction hc hhandle hphase hclaims hframe =>
    cases haction
    exact hstarted.claim hissued hclaims hframe fun P hP hactive hpending =>
      front_of_claimsFront hguard hc hhandle hphase hP hactive hpending
  | completes _ _ _ hcompletes hframe =>
    exact hstarted.renews hissued (hframe.completes hissued.given hcompletes)

/-- In runs in which only the front request claims while a marker is pending:
among the dispatches of a placement epoch, exactly the first one issued starts
the placement. -/
theorem run_starts_once (sched : ProgramScheduler) (events : List (Instant × Action))
    (hguard : guardedRun (step sched) claimsFront (empty sched.config) events = true) (i : Nat)
    (d : ProgramDispatch) (hd : ((empty sched.config).run sched events).dispatches[i]? = some d) :
    d.placementStartRequest = true ↔ ∀ (j : Nat) (d' : ProgramDispatch), j < i →
      ((empty sched.config).run sched events).dispatches[j]? = some d' →
      d'.placementEpoch ≠ d.placementEpoch := by
  have hrun := run_guarded (J := fun sys => Issued sys.state sys.dispatches ∧
    Started sys.state sys.dispatches) ⟨empty_issued _, ?_⟩ (fun _ event h hg hJ => ?_) hguard
  · rw [hrun.2.first i d hd]
    constructor
    · intro hfirst j d' hj hd'
      refine hfirst d' (mem_of_getElem? (i := j) ?_)
      rw [getElem?_take_of_lt hj, hd']
    intro hfirst d' hd'
    obtain ⟨j, hj, rfl⟩ := mem_take_iff_getElem.1 hd'
    obtain ⟨hlt, hlen⟩ := Nat.lt_min.1 hj
    exact hfirst j _ hlt (getElem?_eq_getElem hlen)
  · refine ⟨fun r P hP => ?_, nofun⟩
    cases hP
  refine ⟨step_issued h hJ.1, ?_⟩
  rcases step_happens h event with ⟨-, hstill⟩ | ⟨-, _, houtcome, hdecides⟩
  · rw [hstill]
    exact hJ.2
  have hplaces := houtcome.places hJ.1.given
  exact ((hplaces.issued hJ.1).decides (J := fun s => Started s _) (houtcome.consistent h)
    hdecides (hplaces.started hJ.1 hg hJ.2)
    fun _ _ hissued hstarted hrenews => hstarted.renews hissued hrenews).2

theorem run_starts_once_second : ∃ d, (smallRun halfDoneRun).dispatches[1]? = some d ∧
      (d.placementStartRequest = true ↔ ∀ (j : Nat) (d' : ProgramDispatch), j < 1 →
        (smallRun halfDoneRun).dispatches[j]? = some d' →
        d'.placementEpoch ≠ d.placementEpoch) := by
  have hsome : (smallRun halfDoneRun).dispatches[1]?.isSome = true := by decide +kernel
  obtain ⟨d, hd⟩ := isSome_iff_exists.1 hsome
  exact ⟨d, hd, run_starts_once smallScheduler halfDoneRun (by decide +kernel) 1 d hd⟩

/-- The second request of a Program that was just placed claims before the first
one. -/
def lostMarkerRun : System := smallRun
  [(1, syncOf "m" 0 ["a"]), (2, arrivalOf "m" "p" ["a"] 2), (3, arrivalOf "m" "p" ["a"] 3),
    (4, .claim 1), (5, .claim 0)]

/-- Its claim finds nothing and takes the marker: the first dispatch of the
placement does not start it. -/
theorem lostMarkerRun_unstarted :
    lostMarkerRun.dispatches.map (fun d => (d.placementEpoch, d.placementStartRequest))
      = [(1, false)] := by
  decide +kernel

/-- Dispatches of one placement go to one target. -/
def Agree (d d' : ProgramDispatch) : Prop :=
  d.placementEpoch = d'.placementEpoch → d.targetId = d'.targetId

/-- A new dispatch goes where the dispatches of its epoch went. -/
lemma Places.agree (h : Places sched sys action s₁ dispatches)
    (hissued : Issued sys.state sys.dispatches) (hpairs : sys.dispatches.Pairwise Agree) :
    dispatches.Pairwise Agree := by
  cases h with
  | renews
  | completes => exact hpairs
  | @claims _ _ handle _ _ _ _ _ hclaims =>
    generalize s₁.facts handle.program = f' at hclaims
    cases hclaims with
    | front hP hactive _ _ _ htarget hepoch =>
      refine pairwise_append.2 ⟨hpairs, pairwise_singleton _ _, fun d hd _ hnew heq => ?_⟩
      cases mem_singleton.1 hnew
      have hplaced := (hissued.named _ _ hP).target hactive d hd (heq.trans hepoch)
      exact some.inj (hplaced.symm.trans htarget)
    | behind
    | unplaced =>
      rw [toList_none, append_nil]
      exact hpairs

/-- **An epoch is one placement.** In every run, all dispatches of a placement epoch go to one
target. Epochs are `u64` in the source, so this is about fewer than `2 ^ 64` of them. -/
theorem run_epochs_agree (sched : ProgramScheduler) (events : List (Instant × Action)) :
    ((empty sched.config).run sched events).dispatches.Pairwise Agree := by
  refine (run_invariant (J := fun sys => Issued sys.state sys.dispatches ∧
    sys.dispatches.Pairwise Agree) ⟨empty_issued sched.config, .nil⟩
    (fun _ event h hJ => ⟨step_issued h hJ.1, ?_⟩) events).2
  rcases step_happens h event with ⟨-, hstill⟩ | ⟨-, _, houtcome, -⟩
  · rw [hstill]
    exact hJ.2
  · exact (houtcome.places hJ.1.given).agree hJ.1 hJ.2

end VllmRouter.ProgramScheduling
