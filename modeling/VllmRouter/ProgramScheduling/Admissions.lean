import VllmRouter.Lib.Loop
import VllmRouter.Lib.Machine
import VllmRouter.ProgramScheduling.Decisions

/-!
# What the scheduling loops admit

A decision sequence can admit several Programs, each in a state that the
admissions before it left. `waitingAdmissions` lists them in order, each with the
state in which it was decided; it runs the scheduling loops of the source and
keeps what they commit.

`Admits` is what such a list says about the states: settling transitions, which
admit nothing, interleaved with exactly these admissions. Every step is one of its
outcomes followed by `Admits` (`step_admits`), so a property of all placements is
proved for an outcome, for a settling transition and for one admission.
-/

namespace VllmRouter.ProgramScheduling

open Option List ProgramRuntime

/-- One committed admission, with the state in which it was decided. -/
structure Admission where
  before : ProgramSchedulerState
  program : ProgramRef
  target : TargetId
  now : Instant

namespace Admission

/-- The placement epoch that the admission gives. -/
def epoch (a : Admission) : Nat := a.before.runtime.nextPlacementEpoch + 1

/-- The target that the Program was bound to. -/
def lastTarget (a : Admission) : Option TargetId :=
  (a.before.decisions.lookup a.program).bind ProgramDecisionState.lastTarget

/-- The force-resume deadline of the Program had passed. -/
def forced (a : Admission) : Bool :=
  (a.before.decisions.lookup a.program).any fun decision => ProgramScheduler.forcedAt decision a.now

/-- The state that the admission leaves. -/
def after (self : ProgramScheduler) (a : Admission) : ProgramSchedulerState :=
  (self.commitAdmission a.before a.program a.target a.now).getD a.before

end Admission

variable {env : Env} {now : Instant} {p : ProgramRef} {s : ProgramSchedulerState} {t : TargetId}
  {a : Admission}

namespace ProgramScheduler

variable (self : ProgramScheduler)

/-! ## The scheduling loops -/

variable (candidate : ProgramSchedulerState → Option (ProgramRef × TargetId)) (now : Instant)

/-- One round of a scheduling loop. -/
def propose (s : ProgramSchedulerState) : Option ProgramSchedulerState :=
  (candidate s).map fun choice => (self.commitAdmission s choice.1 choice.2 now).getD s

lemma scheduleBy_eq : ∀ fuel s,
      self.scheduleBy candidate now fuel s = repeatWhile (self.propose candidate now) fuel s := by
  intro fuel
  induction fuel with
  | zero => exact fun s => rfl
  | succ _ ih =>
    intro s
    unfold scheduleBy repeatWhile propose
    cases h : candidate s with
    | none => rfl
    | some => exact ih _

/-- The admissions of a scheduling loop. -/
def admissionsBy (fuel : Nat) (s : ProgramSchedulerState) : List Admission :=
  (heads (self.propose candidate now) fuel s).filterMap fun head =>
    (candidate head).map fun choice => ⟨head, choice.1, choice.2, now⟩

variable (env : Env) (now : Instant) (s : ProgramSchedulerState) (targetId : TargetId)

/-- The loop over one rank queue. -/
def scheduleRank : ProgramSchedulerState :=
  self.scheduleBy (fun s => self.rankCandidate env s targetId now) now
    (((s.rankQueues.lookup targetId).getD []).length + 1) s

def rankAdmissions : List Admission :=
  self.admissionsBy (fun s => self.rankCandidate env s targetId now) now
    (((s.rankQueues.lookup targetId).getD []).length + 1) s

variable (env : Env) (now : Instant) (s : ProgramSchedulerState) (modelPool : ModelPool)

/-- The local resumes of a pool. -/
def poolResumed : ProgramSchedulerState :=
  self.scheduleBy (fun s => self.globalLocalCandidate env s modelPool now) now
    (poolFuel s modelPool) s

def poolAdmissions : List Admission :=
  let resumed := self.poolResumed env now s modelPool
  self.admissionsBy (fun s => self.globalLocalCandidate env s modelPool now) now
      (poolFuel s modelPool) s
    ++ self.admissionsBy (fun s => self.globalCrossCandidate env s modelPool now) now
      (poolFuel resumed modelPool) resumed

variable {env now s modelPool}

/-- The admissions of `schedule_waiting`. -/
def waitingAdmissions (env : Env) (s : ProgramSchedulerState) (now : Instant) : List Admission :=
  if self.config.globalQueue then
    runLog (self.schedulePool env now) (self.poolAdmissions env now) s
      (env.nameOrder s.globalQueues.keys)
  else
    runLog (self.scheduleRank env now) (self.rankAdmissions env now) s
      (env.nameOrder s.rankQueues.keys)

/-- The admission of an arrival with binding only. -/
def activationAdmissions (s : ProgramSchedulerState) (program : ProgramRef) (now : Instant) :
    List Admission :=
  if (s.runtime.view program).any fun view => decide (view.state = .active) then []
  else
    match (s.decisions.lookup program).bind ProgramDecisionState.lastTarget with
    | none => []
    | some targetId =>
      if (self.commitAdmission s program targetId now).isSome then
        [⟨s, program, targetId, now⟩]
      else []

/-! ## Why a Program was admitted -/

/-- The ways in which an admission is decided. -/
inductive Chosen (self : ProgramScheduler) (a : Admission) : Prop
  /-- A plan on the target that the Program is bound to. -/
  | own {env : Env} {plan : RankAdmissionPlan}
      (hplan : self.rankAdmissionPlan env a.before a.program a.target a.now = some plan)
      (hlast : a.lastTarget = some a.target)
  /-- A relocation. -/
  | moved {env : Env} {plan : RankAdmissionPlan} (hglobal : self.config.globalQueue = true)
      (hselect : self.selectCrossRankAdmission env a.before a.program a.now
        = some (a.target, plan))
  /-- An arrival with binding only. -/
  | bound (hbinding : self.config.bindingOnly = true) (hlast : a.lastTarget = some a.target)

variable {self}

variable {plan : RankAdmissionPlan} {choice : TargetId × RankAdmissionPlan}

/-- Without the global queue a plan exists only on the bound target. -/
lemma lastTarget_of_plan (hglobal : self.config.globalQueue = false)
    (h : self.rankAdmissionPlan env s p t now = some plan) :
    ∃ d, s.decisions.lookup p = some d ∧ d.lastTarget = some t := by
  unfold rankAdmissionPlan at h
  split at h
  · rename_i d _ hd
    by_cases hlast : d.lastTarget = some t
    · exact ⟨d, hd, hlast⟩
    · rw [if_pos ⟨hglobal, hlast⟩] at h
      cases h
  · cases h

/-- A relocation stays in the pool of the Program. -/
lemma selectCrossRankAdmission_mem (hglobal : self.config.globalQueue = true)
    (h : self.selectCrossRankAdmission env s p now = some choice) :
    self.Admissible s p choice.1 := by
  unfold selectCrossRankAdmission at h
  split at h
  · cases h
  rename_i d hd
  split at h
  · rename_i htargets
    obtain ⟨t, ht, hplan⟩ := mem_filterMap.1 (minBy?_mem h)
    obtain ⟨_, -, rfl⟩ := map_eq_some_iff.1 hplan
    refine ⟨d, hd, .inr ⟨hglobal, ?_⟩⟩
    rw [htargets]
    exact (mem_filter.1 ht).1
  · cases h

/-- A relocation has a plan on its destination. -/
lemma selectCrossRankAdmission_plan
    (h : self.selectCrossRankAdmission env s p now = some choice) :
    self.rankAdmissionPlan env s p choice.1 now = some choice.2 := by
  unfold selectCrossRankAdmission at h
  split at h
  · cases h
  split at h
  · obtain ⟨t, -, hmap⟩ := mem_filterMap.1 (minBy?_mem h)
    obtain ⟨_, hplan, rfl⟩ := map_eq_some_iff.1 hmap
    exact hplan
  · cases h

/-- A Program with a plan is paused with a retained request. -/
lemma waiter_of_plan (h : self.rankAdmissionPlan env s p t now = some plan) :
    ∃ P d, s.runtime.program p = some P ∧ s.decisions.lookup p = some d ∧
      P.state = .paused ∧ P.status = .reasoning ∧ s.runtime.requestPool.queue p ≠ [] := by
  unfold rankAdmissionPlan at h
  split at h
  · rename_i d hview hd
    obtain ⟨P, hP, rfl⟩ := view_eq_some.1 hview
    split at h
    · cases h
    split at h
    · cases h
    rename_i hwaiter
    rw [not_or, not_or, not_not, not_not] at hwaiter
    refine ⟨P, d, hP, hd, hwaiter.1, hwaiter.2.1, fun hnil => hwaiter.2.2 ?_⟩
    show (s.runtime.requestPool.queue P.reference).length = 0
    rw [program_reference hP, hnil]
    rfl
  · cases h

/-- A plan can be committed. -/
lemma commit_of_plan (h : self.rankAdmissionPlan env s p t now = some plan) :
    ∃ s', self.commitAdmission s p t now = some s' := by
  obtain ⟨P, d, hP, hd, hpaused, -, hwait⟩ := waiter_of_plan h
  exact self.commitAdmission_isSome t now hP hpaused hwait hd

lemma Chosen.admissible (h : self.Chosen a) : self.Admissible a.before a.program a.target := by
  cases h with
  | own hplan hlast
  | bound _ hlast =>
    obtain ⟨d, hd, hlast⟩ := bind_eq_some_iff.1 hlast
    exact ⟨d, hd, .inl hlast⟩
  | moved hglobal hselect => exact selectCrossRankAdmission_mem hglobal hselect

/-- Without binding only every admission has a plan. -/
lemma Chosen.planned (h : self.Chosen a) (hbinding : self.config.bindingOnly = false) :
    ∃ env plan, self.rankAdmissionPlan env a.before a.program a.target a.now = some plan := by
  cases h with
  | own hplan => exact ⟨_, _, hplan⟩
  | moved _ hselect => exact ⟨_, _, selectCrossRankAdmission_plan hselect⟩
  | bound hbound =>
    rw [hbinding] at hbound
    cases hbound

/-! ## The relation -/

/-- Settling transitions with these admissions among them, in this order. -/
inductive Admits (self : ProgramScheduler) (s : ProgramSchedulerState) :
    List Admission → ProgramSchedulerState → Prop
  | refl : Admits self s [] s
  | settle {log : List Admission} {s₁ s₂ : ProgramSchedulerState} (h : Admits self s log s₁)
      (hsettle : self.Settle s₁ s₂) : Admits self s log s₂
  | admission {log : List Admission} {a : Admission} {s' : ProgramSchedulerState}
      (h : Admits self s log a.before) (hchosen : self.Chosen a)
      (hcommit : self.commitAdmission a.before a.program a.target a.now = some s') :
      Admits self s (log ++ [a]) s'

namespace Admits

variable {s s₁ s₂ : ProgramSchedulerState} {log log' : List Admission}

lemma settles (h : self.Settles s s₁) : self.Admits s [] s₁ := by
  induction h with
  | refl => exact .refl
  | tail _ hlast ih => exact ih.settle hlast

lemma trans (h : self.Admits s log s₁) (h' : self.Admits s₁ log' s₂) :
    self.Admits s (log ++ log') s₂ := by
  induction h' with
  | refl =>
    rw [append_nil]
    exact h
  | settle _ hsettle ih => exact ih.settle hsettle
  | admission _ hchosen hcommit ih =>
    rw [← append_assoc]
    exact ih.admission hchosen hcommit

lemma single (hchosen : self.Chosen a)
    (hcommit : self.commitAdmission a.before a.program a.target a.now = some s') :
    self.Admits a.before [a] s' :=
  Admits.admission .refl hchosen hcommit

lemma decides (h : self.Admits s log s₁) : self.Decides s s₁ := by
  induction h with
  | refl => exact .refl _
  | settle _ hsettle ih => exact ih.tail (.settle hsettle)
  | @admission _ a _ _ hchosen hcommit ih =>
    exact ih.tail (.admission a.now hchosen.admissible hcommit)

lemma foldl {α : Type} {f : ProgramSchedulerState → α → ProgramSchedulerState}
    {out : ProgramSchedulerState → α → List Admission}
    (hstep : ∀ s x, self.Admits s (out s x) (f s x)) (l : List α) :
    ∀ s, self.Admits s (runLog f out s l) (l.foldl f s) := by
  induction l with
  | nil => exact fun s => .refl
  | cons x l ih => exact fun s => (hstep s x).trans (ih (f s x))

end Admits

/-! ## The loops admit what they list -/

/-- What a loop proposes is chosen and can be committed. -/
def Elects (candidate : ProgramSchedulerState → Option (ProgramRef × TargetId))
    (now : Instant) : Prop :=
  ∀ s p t, candidate s = some (p, t) →
    self.Chosen ⟨s, p, t, now⟩ ∧ ∃ s', self.commitAdmission s p t now = some s'

lemma scheduleBy_admits {candidate : ProgramSchedulerState → Option (ProgramRef × TargetId)}
    (hcandidate : self.Elects candidate now) : ∀ fuel s,
      self.Admits s (self.admissionsBy candidate now fuel s)
        (self.scheduleBy candidate now fuel s) := by
  intro fuel
  induction fuel with
  | zero => exact fun s => .refl
  | succ _ ih =>
    intro s
    unfold scheduleBy admissionsBy heads propose
    cases h : candidate s with
    | none =>
      simp only [h, filterMap_cons]
      exact .refl
    | some choice =>
      obtain ⟨p, t⟩ := choice
      obtain ⟨hchosen, s', hcommit⟩ := hcandidate s p t h
      simp only [h, map_some, filterMap_cons, hcommit]
      exact (Admits.single hchosen hcommit).trans (ih s')

lemma rankCandidate_elects (env t now) (hglobal : self.config.globalQueue = false) :
    self.Elects (fun s => self.rankCandidate env s t now) now := by
  intro s p t' h
  obtain ⟨q, -, hq⟩ := exists_of_findSome?_eq_some h
  obtain ⟨_, hplan, hpair⟩ := map_eq_some_iff.1 hq
  cases hpair
  obtain ⟨d, hd, hlast⟩ := lastTarget_of_plan hglobal hplan
  exact ⟨.own hplan (bind_eq_some_iff.2 ⟨d, hd, hlast⟩), commit_of_plan hplan⟩

lemma globalLocalCandidate_elects (env pool now) :
    self.Elects (fun s => self.globalLocalCandidate env s pool now) now := by
  intro s p t h
  obtain ⟨q, -, hq⟩ := exists_of_findSome?_eq_some h
  obtain ⟨_, htarget, hplan⟩ := bind_eq_some_iff.1 hq
  obtain ⟨_, hplan, hpair⟩ := map_eq_some_iff.1 hplan
  cases hpair
  exact ⟨.own hplan htarget, commit_of_plan hplan⟩

lemma globalCrossCandidate_elects (env pool now) (hglobal : self.config.globalQueue = true) :
    self.Elects (fun s => self.globalCrossCandidate env s pool now) now := by
  intro s p t h
  obtain ⟨q, -, hq⟩ := exists_of_findSome?_eq_some h
  obtain ⟨_, hchoice, hpair⟩ := map_eq_some_iff.1 hq
  cases hpair
  exact ⟨.moved hglobal hchoice, commit_of_plan (selectCrossRankAdmission_plan hchoice)⟩

lemma scheduleWaiting_admits (env s now) :
    self.Admits s (self.waitingAdmissions env s now) (self.scheduleWaiting env s now) := by
  unfold scheduleWaiting waitingAdmissions
  split
  · rename_i hglobal
    refine Admits.foldl (fun s pool => ?_) _ s
    exact (self.scheduleBy_admits (self.globalLocalCandidate_elects env pool now) _ s).trans
      (self.scheduleBy_admits (self.globalCrossCandidate_elects env pool now hglobal) _ _)
  rename_i hglobal
  rw [Bool.not_eq_true] at hglobal
  refine Admits.foldl (fun s t => ?_) _ s
  exact self.scheduleBy_admits (self.rankCandidate_elects env t now hglobal) _ s

lemma activateBindingOnly_admits (s p now) (hbinding : self.config.bindingOnly = true) :
    self.Admits s (self.activationAdmissions s p now) (self.activateBindingOnly s p now) := by
  unfold activateBindingOnly activationAdmissions
  split
  · exact Admits.settles (Settle.wake s p).settles
  cases hlast : (s.decisions.lookup p).bind ProgramDecisionState.lastTarget with
  | none => exact .refl
  | some t =>
    simp only
    cases hcommit : self.commitAdmission s p t now with
    | none => exact .refl
    | some => exact Admits.single (a := ⟨s, p, t, now⟩) (.bound hbinding hlast) hcommit

/-! ## The decision sequences -/

variable (env : Env) (s : ProgramSchedulerState)

lemma yieldCompletedSegment_settles (p now) :
    self.Settles s (self.yieldCompletedSegment env s p now) := by
  unfold yieldCompletedSegment
  split
  · rename_i hview _
    obtain ⟨P, hP, rfl⟩ := view_eq_some.1 hview
    split
    · exact .refl s
    rename_i hguard
    rw [not_or, not_or, not_not, not_not] at hguard
    have hacting : Acting [p] s := by
      intro q hq Q hQ
      rw [mem_singleton.1 hq, hP] at hQ
      cases hQ
      exact hguard.2.1
    have hpause := (self.settles_pauseIdle .maxSegmentYield now hacting
      (mem_singleton.2 rfl)).1
    split
    · exact .refl s
    split
    · exact .refl s
    show self.Settles s (if _ then _ else s)
    split
    · exact hpause
    · exact .refl s
  · exact .refl s

/-- The state in which the request-arrival sequence starts to admit. -/
def arrivalSettled (now : Instant) :
    ProgramSchedulerState :=
  self.repairCapacity env
    (self.expireActingTtls env (self.releaseExpiredPaused env s now) now) now

/-- The state after the deadlines of the periodic sequence. -/
def deadlinesSettled (now : Instant) :
    ProgramSchedulerState :=
  self.releaseExpiredPaused env (self.expireActingTtls env
    { s with
      runtime := s.runtime.pruneReleasedGenerations now
        (max self.config.pausedRetentionTtl (Duration.fromSecs 60)) } now) now

lemma runPeriodicDecisions_eq (now) : self.runPeriodicDecisions env s now
      = if self.config.bindingOnly then self.deadlinesSettled env s now
        else self.scheduleWaiting env
          (self.repairCapacity env (self.deadlinesSettled env s now) now) now := rfl

lemma arrivalSettled_settles (now) : self.Settles s (self.arrivalSettled env s now) :=
  ((self.releaseExpiredPaused_settles env s now).trans
    (self.expireActingTtls_settles env _ now)).trans (self.repairCapacity_settles env _ now)

lemma deadlinesSettled_settles (now) :
    self.Settles s (self.deadlinesSettled env s now) :=
  ((Settle.prune s now _).settles.trans (self.expireActingTtls_settles env _ now)).trans
    (self.releaseExpiredPaused_settles env _ now)

lemma reportCapacityAccountingTransitions_settles (s now) :
    self.Settles s (self.reportCapacityAccountingTransitions s now) := by
  exact (foldl_steps (Q := fun _ => True)
    (fun s t _ _ => ⟨(Settle.report s t _).settles, trivial⟩) _ trivial).1

end ProgramScheduler

end VllmRouter.ProgramScheduling
