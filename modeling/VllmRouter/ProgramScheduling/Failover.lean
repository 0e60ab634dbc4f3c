import VllmRouter.ProgramScheduling.RetentionSection

/-!
# Target synchronization, Program by Program

A snapshot that changes the targets of a pool first forgets what is kept under
the removed targets (`Facts.retargeted`, which reaches the Programs of every
pool) and then binds the Programs of the pool that lost their target again
(`Rebinds`). `Syncs` puts the two together for one Program.
-/

namespace VllmRouter.ProgramScheduling

open ProgramSchedulerState List Facts ProgramRuntime RuntimeProgramView ProgramScheduler Dict

/-! ## Removed targets -/

namespace ProgramSchedulerState

/-- Forgetting a list of targets, field by field. -/
lemma foldl_forgetTarget (removed : List TargetId) : ∀ s,
    removed.foldl forgetTarget s = { s with
      bindings := removed.foldl ProgramBindings.removeTarget s.bindings
      rankQueues := removed.foldl (fun m k => m.erase k) s.rankQueues
      rankFactors := removed.foldl (fun m k => m.erase k) s.rankFactors
      observations := removed.foldl (fun m k => m.erase k) s.observations } := by
  induction removed with
  | nil => exact fun s => rfl
  | cons _ _ ih =>
    intro s
    rw [foldl_cons, ih]
    rfl

end ProgramSchedulerState

lemma policy_foldl_removeTarget (removed : List TargetId) (b : ProgramBindings) :
    (removed.foldl ProgramBindings.removeTarget b).policy = b.policy :=
  foldlRecOn (motive := (ProgramBindings.policy · = b.policy)) removed _ rfl fun _ h _ _ => h

/-- The facts of a Program when the entries of the removed targets are gone and
its pool has the targets `home`. -/
def Facts.retargeted (removed home : List TargetId) (f : Facts) : Facts :=
  { f with inRank := fun t => if t ∈ removed then 0 else f.inRank t, home := home }

variable (s : ProgramSchedulerState)

/-- The targets that a Program of `r`'s pool has after a snapshot of `pool`. -/
def homeAfter (r : ProgramRef) (pool : ModelPool)
    (ids : List TargetId) : List TargetId :=
  if r.modelPool = pool then ids else (s.facts r).home

/-- The state in which the affected Programs are bound again. -/
def retargetedState (pool : ModelPool) (targets : TargetSnapshot) :
    ProgramSchedulerState :=
  (s.removedTargets pool (sortedKeys (incomingTargets targets.items))).foldl
    forgetTarget
    (s.installTargets pool targets (incomingTargets targets.items))

lemma facts_retargetedState (pool) (targets : TargetSnapshot) (r) :
    (retargetedState s pool targets).facts r = (s.facts r).retargeted
      (s.removedTargets pool (sortedKeys (incomingTargets targets.items)))
      (homeAfter s r pool (sortedKeys (incomingTargets targets.items))) := by
  unfold retargetedState
  rw [foldl_forgetTarget]
  unfold retargeted homeAfter facts
  simp only [installTargets, lookup_foldl_erase]
  congr 1
  · funext t
    split
    · rfl
    · rw [getD_foldl_upsert]
  · funext pool'
    rw [lookup_upsert]
    split
    · rename_i hpool
      rw [hpool]
      rfl
    · rfl
  rw [lookup_insert_eq]
  split
  · rfl
  · rfl

lemma ledger_retargetedState (pool) (targets : TargetSnapshot) (t) :
    (retargetedState s pool targets).ledger t
      = if t ∈ s.removedTargets pool (sortedKeys (incomingTargets targets.items)) then 0
        else s.ledger t := by
  unfold retargetedState ledger
  rw [foldl_forgetTarget]
  simp only [installTargets, lookup_foldl_erase]
  split
  · rfl
  · rw [getD_foldl_upsert]

variable {s}

/-! ## Rebinding -/

variable (sched : ProgramScheduler) (pool : ModelPool) (replacement : Option TargetId) (f : Facts)

/-- Where a Program waits after it was bound again. -/
def Facts.requeued : Facts :=
  if f.pending = [] then f.unqueued
  else if sched.config.globalQueue then
    { f.unqueued with inPool := fun pool' => if pool' = pool then 1 else 0 }
  else { f.unqueued with inRank := fun t => if replacement = some t then 1 else 0 }

lemma Facts.requeued_update (program decision) :
    ({ f with program := program, decision := decision } : Facts).requeued sched pool replacement
      = { f.requeued sched pool replacement with program := program, decision := decision } := by
  unfold requeued
  split
  · rfl
  split
  · rfl
  · rfl

/-- Requeueing changes the counts only. -/
lemma Facts.requeued_fields : (f.requeued sched pool replacement).program = f.program ∧
      (f.requeued sched pool replacement).pending = f.pending ∧
      (f.requeued sched pool replacement).decision = f.decision ∧
      (f.requeued sched pool replacement).home = f.home := by
  unfold requeued
  split
  · exact ⟨rfl, rfl, rfl, rfl⟩
  split
  · exact ⟨rfl, rfl, rfl, rfl⟩
  · exact ⟨rfl, rfl, rfl, rfl⟩

variable {sched pool replacement f}

lemma failedOver_fields (replacement interrupted now d) :
    (failedOver replacement interrupted now d).lastTarget = replacement ∧
      (failedOver replacement interrupted now d).queuedAt = d.queuedAt ∧
      (failedOver replacement interrupted now d).forceResumeDeadline = d.forceResumeDeadline := by
  cases interrupted with
  | true
  | false => exact ⟨rfl, rfl, rfl⟩

/-- What failover does to the facts of a Program of the pool. -/
inductive Rebinds (sched : ProgramScheduler) (pool : ModelPool) : Facts → Facts → Prop
  | paused {f : Facts} {P : RuntimeProgram} {d : ProgramDecisionState}
      {replacement : Option TargetId} (interrupted : Bool) (now : Instant)
      (hP : f.program = some P) (hd : f.decision = some d) (hpaused : P.state = .paused)
      (hneeds : needsRebinding f.home d = true)
      (hhome : ∀ t, replacement = some t → t ∈ f.home)
      (hbound : sched.CanBind → f.home ≠ [] → replacement.isSome = true) :
      Rebinds sched pool f { f.requeued sched pool replacement with
        decision := some (failedOver replacement interrupted now d) }
  | active {f : Facts} {P : RuntimeProgram} {d : ProgramDecisionState}
      {replacement : Option TargetId} (epoch : Nat) (now : Instant)
      (hP : f.program = some P) (hd : f.decision = some d) (hactive : P.state = .active)
      (hneeds : needsRebinding f.home d = true)
      (hhome : ∀ t, replacement = some t → t ∈ f.home)
      (hbound : sched.CanBind → f.home ≠ [] → replacement.isSome = true) :
      Rebinds sched pool f { f.requeued sched pool replacement with
        program := some (P.invalidated epoch)
        decision := some (failedOver replacement true now d) }

variable {P : RuntimeProgram} {p r : ProgramRef} {rt : ProgramRuntime} {removed ids : List TargetId}
  {s : ProgramSchedulerState} {d : ProgramDecisionState} {sched : ProgramScheduler}

lemma invalidatePlacement_paused (removed) (hP : rt.program p = some P)
    (hplace : P.placement = none) : rt.invalidatePlacement p removed = none := by
  unfold invalidatePlacement
  rw [hP]
  simp [hplace]

lemma invalidatePlacement_active (hP : rt.program p = some P) (hplace : P.placement = some t)
    (ht : t ∈ removed) : rt.invalidatePlacement p removed
      = some { rt.setProgram (P.invalidated (rt.nextPlacementEpoch + 1)) with
        nextPlacementEpoch := rt.nextPlacementEpoch + 1 } := by
  unfold invalidatePlacement
  rw [hP]
  simp [hplace, ht]

/-- A Program off its target: which Program, and which epoch, it has then. -/
lemma detach_spec (hP : s.runtime.program p = some P)
    (hplaced : P.state = .active ↔ P.placement.isSome = true)
    (hlost : ∀ t, P.placement = some t → t ∈ removed) :
    ∃ Q, (P.state = .paused ∧ Q = P ∧ s.runtime.invalidatePlacement p removed = none ∨
        P.state = .active ∧ Q = P.invalidated (s.runtime.nextPlacementEpoch + 1) ∧
          (detach s removed p).runtime.nextPlacementEpoch = s.runtime.nextPlacementEpoch + 1 ∧
          (s.runtime.invalidatePlacement p removed).isSome = true) ∧
      (∀ r, (detach s removed p).facts r = if r = p
        then { (s.facts r).unqueued with program := some Q } else s.facts r) ∧
      s.runtime.nextPlacementEpoch ≤ (detach s removed p).runtime.nextPlacementEpoch ∧
      (detach s removed p).runtime.requestPool = s.runtime.requestPool := by
  have hfacts : ∀ rt Q,
      (s.runtime.invalidatePlacement p removed).getD s.runtime = rt →
      (∀ r, rt.program r = if r = p then some Q else s.runtime.program r) →
      rt.requestPool = s.runtime.requestPool →
      ∀ r, (detach s removed p).facts r = if r = p
        then { (s.facts r).unqueued with program := some Q } else s.facts r := by
    intro rt Q hrt hprogram hpool r
    have hdequeue := facts_dequeue s p r
    unfold detach
    rw [hrt]
    show ({ (s.dequeue p).facts r with
      program := rt.program r, pending := rt.requestPool.queue r } : Facts) = _
    rw [hdequeue, hprogram, hpool]
    split
    · rfl
    · rfl
  cases hstate : P.state with
  | paused =>
    have hplace : P.placement = none := by
      rw [← Option.not_isSome_iff_eq_none, ← hplaced, hstate]
      exact nofun
    have hnone := invalidatePlacement_paused removed hP hplace
    refine ⟨P, .inl ⟨rfl, rfl, hnone⟩, hfacts s.runtime P (by rw [hnone]; rfl) (fun r => ?_) rfl,
      ?_, ?_⟩
    · split
      · rename_i hr
        rw [hr, hP]
      · rfl
    · unfold detach
      rw [hnone]
      exact le_rfl
    unfold detach
    rw [hnone]
    rfl
  | active =>
    obtain ⟨t, ht⟩ := Option.isSome_iff_exists.1 (hplaced.1 hstate)
    have hsome := invalidatePlacement_active hP ht (hlost t ht)
    have hprogram := program_update (Q := P.invalidated (s.runtime.nextPlacementEpoch + 1)) hP rfl
    refine ⟨_, .inr ⟨rfl, rfl, ?_, by rw [hsome]; rfl⟩,
      hfacts { s.runtime.setProgram (P.invalidated (s.runtime.nextPlacementEpoch + 1)) with
        nextPlacementEpoch := s.runtime.nextPlacementEpoch + 1 } _ (by rw [hsome]; rfl)
        hprogram rfl, ?_, ?_⟩
    · unfold detach
      rw [hsome]
      rfl
    · unfold detach
      rw [hsome]
      exact Nat.le_succ _
    unfold detach
    rw [hsome]
    rfl

/-- Queueing a Program that is in no queue. -/
lemma facts_requeue (sched) {f : Facts} {waiting : Nat} (replacement)
    (hself : s.facts p = f.unqueued) (hwait : waiting = f.pending.length) (r) :
    (sched.requeue s p waiting replacement).facts r
      = if r = p then f.requeued sched p.modelPool replacement else s.facts r := by
  have hzero : waiting = 0 ↔ f.pending = [] := by rw [hwait, length_eq_zero_iff]
  unfold requeue requeued
  by_cases hnil : f.pending = []
  · rw [if_pos (hzero.2 hnil), if_pos hnil]
    split
    · rename_i hr
      rw [hr, hself]
    · rfl
  rw [if_neg (fun h => hnil (hzero.1 h))]
  cases sched.config.globalQueue with
  | true =>
    simp only [if_true]
    rw [facts_enqueueGlobal]
    split
    · rename_i hr
      rw [hr, hself]
      simp [unqueued]
    · rfl
  | false =>
    simp only [Bool.false_eq_true, if_false]
    cases replacement with
    | none =>
      by_cases hr : r = p
      · simp only [hr, hself]
        simp [unqueued]
      · rw [if_neg hr]
    | some =>
      rw [facts_enqueueRank]
      split
      · rename_i hr
        rw [hr, hself]
        simp [unqueued, eq_comm]
      · rfl

lemma requeue_eq (sched : ProgramScheduler) (s p waiting replacement) :
    ∃ ranks pools, sched.requeue s p waiting replacement
      = { s with rankQueues := ranks, globalQueues := pools } := by
  unfold requeue
  split
  · exact ⟨_, _, rfl⟩
  split
  · exact ⟨_, _, rfl⟩
  split
  · exact ⟨_, _, rfl⟩
  · exact ⟨_, _, rfl⟩

/-- A Program that lost its placement, with an epoch given out after `low` and by
`high`. -/
structure Displaced (low high : Nat) (Q : RuntimeProgram) : Prop where
  paused : Q.state = .paused
  idle : Q.inFlightRequests = 0
  fresh : low < Q.placementEpoch
  given : Q.placementEpoch ≤ high

lemma Displaced.mono (h : Displaced low high Q) (hlow : low' ≤ low) (hhigh : high ≤ high') :
    Displaced low' high' Q :=
  ⟨h.paused, h.idle, hlow.trans_lt h.fresh, h.given.trans hhigh⟩

/-- What the failover of the Program `p` leaves as it was, and which epoch it
may have given to it. -/
structure FailoverFrame (sched : ProgramScheduler) (p : ProgramRef)
    (s s' : ProgramSchedulerState) : Prop where
  others : ∀ r, r ≠ p → s'.facts r = s.facts r
  policy : PolicyOk sched s'.bindings.policy
  observations : s'.observations = s.observations
  request : s'.runtime.requestPool.nextRequestId = s.runtime.requestPool.nextRequestId
  epoch : s.runtime.nextPlacementEpoch ≤ s'.runtime.nextPlacementEpoch
  program : ∀ Q, (s'.facts p).program = some Q → (s.facts p).program = some Q ∨
    Displaced s.runtime.nextPlacementEpoch s'.runtime.nextPlacementEpoch Q

lemma failOver_rebinds (env now) (hP : (s.facts affected.program).program = some P)
    (hd : (s.facts affected.program).decision = some d)
    (hplaced : P.state = .active ↔ P.placement.isSome = true)
    (hlost : ∀ t, P.placement = some t → t ∈ removed)
    (hneeds : needsRebinding (s.facts affected.program).home d = true)
    (hwait : affected.waitingRequests = (s.facts affected.program).pending.length)
    (hpolicy : PolicyOk sched s.bindings.policy) :
    Rebinds sched affected.program.modelPool (s.facts affected.program)
        ((sched.failOver env now removed s affected).facts affected.program) ∧
      FailoverFrame sched affected.program s (sched.failOver env now removed s affected) := by
  obtain ⟨Q, hQ, hdetach, hepoch, hpool⟩ := detach_spec hP hplaced hlost
  obtain ⟨bindings, replacement, hbind, hok, hmem, hsome⟩ := bind_spec
    (s := detach s removed affected.program) env
    (.forRebinding affected.program affected.placementHashKey affected.placementKey
      affected.expectedResume) none now hpolicy
  obtain ⟨interrupted, hinterrupted⟩ : ∃ interrupted, interrupted
    = ((s.runtime.invalidatePlacement affected.program removed).isSome
      || affected.targetDisappeared) := ⟨_, rfl⟩
  have hfail : sched.failOver env now removed s affected = sched.requeue
      (({ detach s removed affected.program with
        bindings := bindings } : ProgramSchedulerState).modifyDecision affected.program
          (failedOver replacement interrupted now)) affected.program affected.waitingRequests
      replacement := by
    unfold failOver
    rw [hinterrupted]
    simp only [hbind]
  obtain ⟨s1, hs1⟩ : ∃ s1, s1 = ({ detach s removed affected.program with
    bindings := bindings } : ProgramSchedulerState).modifyDecision affected.program
      (failedOver replacement interrupted now) := ⟨_, rfl⟩
  have hfacts1 : ∀ r, s1.facts r = if r = affected.program
      then ({ s.facts r with
        program := some Q
        decision := some (failedOver replacement interrupted now d) } : Facts).unqueued
      else s.facts r := by
    intro r
    rw [hs1, facts_modifyDecision,
      show ({ detach s removed affected.program with bindings := bindings } :
        ProgramSchedulerState).facts r = (detach s removed affected.program).facts r from rfl,
      hdetach]
    split
    · rename_i hr
      have hdec : (s.facts r).unqueued.decision = some d := hr ▸ hd
      simp only [hdec]
      rfl
    · rfl
  have hself := hfacts1 affected.program
  rw [if_pos rfl] at hself
  have hfacts := facts_requeue sched replacement hself hwait
  obtain ⟨_, _, hqueues⟩ := requeue_eq sched s1 affected.program
    affected.waitingRequests replacement
  rw [← hs1] at hfail
  have hafter := hfacts affected.program
  rw [if_pos rfl, ← hfail, requeued_update] at hafter
  refine ⟨?_, fun r hr => ?_, ?_, ?_, ?_, ?_, fun R hR => ?_⟩
  · rw [hafter]
    rcases hQ with ⟨hpaused, rfl, -⟩ | ⟨hactive, rfl, -, hlostSome⟩
    · rw [← hP, ← (requeued_fields sched affected.program.modelPool replacement
        (s.facts affected.program)).1]
      exact .paused interrupted now hP hd hpaused hneeds hmem hsome
    have hinterrupt : interrupted = true := by
      rw [hinterrupted, hlostSome]
      rfl
    rw [hinterrupt]
    exact .active _ now hP hd hactive hneeds hmem hsome
  · rw [hfail, hfacts, if_neg hr, hfacts1, if_neg hr]
  · rw [hfail, hqueues, hs1]
    exact hok
  · rw [hfail, hqueues, hs1]
    rfl
  · rw [hfail, hqueues, hs1]
    exact congrArg RequestPool.nextRequestId hpool
  · rw [hfail, hqueues, hs1]
    exact hepoch
  rw [hafter] at hR
  cases hR
  rcases hQ with ⟨-, rfl, -⟩ | ⟨-, rfl, hnext, -⟩
  · exact .inl hP
  refine .inr ⟨rfl, rfl, Nat.lt_succ_self _, ?_⟩
  rw [hfail, hqueues, hs1]
  exact Nat.le_of_eq hnext.symm

/-! ## The loop over the affected Programs -/

/-- The facts of an affected Program when its turn comes. -/
def Ready (removed : List TargetId) (affected : AffectedProgram) (f : Facts) : Prop :=
  ∃ P d, f.program = some P ∧ f.decision = some d ∧
    (P.state = .active ↔ P.placement.isSome = true) ∧
    (∀ t, P.placement = some t → t ∈ removed) ∧
    needsRebinding f.home d = true ∧ affected.waitingRequests = f.pending.length

/-- What the failover of the Programs in `l` does to the state. -/
structure FailoverRun (sched : ProgramScheduler) (l : List ProgramRef)
    (s s' : ProgramSchedulerState) : Prop where
  kept : ∀ r, r ∉ l → s'.facts r = s.facts r
  rebound : ∀ r, r ∈ l → Rebinds sched r.modelPool (s.facts r) (s'.facts r)
  policy : PolicyOk sched s'.bindings.policy
  observations : s'.observations = s.observations
  request : s'.runtime.requestPool.nextRequestId = s.runtime.requestPool.nextRequestId
  epoch : s.runtime.nextPlacementEpoch ≤ s'.runtime.nextPlacementEpoch
  program : ∀ r Q, (s'.facts r).program = some Q → (s.facts r).program = some Q ∨
    Displaced s.runtime.nextPlacementEpoch s'.runtime.nextPlacementEpoch Q

/-- Every affected Program is bound again once; its facts are untouched until
its turn comes. -/
lemma failOver_run (env now removed) :
    ∀ (l : List AffectedProgram) (s : ProgramSchedulerState),
      (l.map AffectedProgram.program).Nodup →
      (∀ affected ∈ l, Ready removed affected (s.facts affected.program)) →
      PolicyOk sched s.bindings.policy → FailoverRun sched (l.map AffectedProgram.program) s
        (l.foldl (sched.failOver env now removed) s) := by
  intro l
  induction l with
  | nil =>
    intro s _ _ hpolicy
    exact ⟨fun _ _ => rfl, nofun, hpolicy, rfl, rfl, le_rfl, fun r Q hQ => .inl hQ⟩
  | cons affected l ih =>
    intro s hnodup hready hpolicy
    rw [map_cons, nodup_cons] at hnodup
    obtain ⟨P, d, hP, hd, hplaced, hlost, hneeds, hwait⟩ := hready affected mem_cons_self
    obtain ⟨hrebinds, hframe⟩ := failOver_rebinds env now hP hd hplaced hlost hneeds hwait hpolicy
    have hrun := ih (sched.failOver env now removed s affected) hnodup.2 (fun other hother => by
        rw [hframe.others other.program fun heq => hnodup.1 (heq ▸ mem_map_of_mem hother)]
        exact hready other (mem_cons_of_mem _ hother)) hframe.policy
    refine ⟨fun r hr => ?_, fun r hr => ?_, hrun.policy, hrun.observations.trans
      hframe.observations, hrun.request.trans hframe.request, hframe.epoch.trans hrun.epoch,
      fun r Q hQ => ?_⟩
    · rw [map_cons, mem_cons, not_or] at hr
      exact (hrun.kept r hr.2).trans (hframe.others r hr.1)
    · by_cases heq : r = affected.program
      · rw [heq]
        rw [foldl_cons, hrun.kept _ hnodup.1]
        exact hrebinds
      rw [map_cons, mem_cons] at hr
      rw [← hframe.others r heq]
      exact hrun.rebound r (hr.resolve_left heq)
    rcases hrun.program r Q hQ with hQ | hQ
    · by_cases heq : r = affected.program
      · rw [heq] at hQ ⊢
        rcases hframe.program Q hQ with hQ | hQ
        · exact .inl hQ
        · exact .inr (hQ.mono le_rfl hrun.epoch)
      · rw [hframe.others r heq] at hQ
        exact .inl hQ
    · exact .inr (hQ.mono hframe.epoch le_rfl)

/-! ## The affected Programs -/

/-- Every live Program is iterated once. -/
lemma nodup_iterViews (rt : ProgramRuntime) (env : Env) :
    ((rt.iterViews env.programOrder).map reference).Nodup := by
  refine List.Nodup.of_map ProgramRef.key ?_
  rw [map_map]
  have hsub := map_filterMap_sublist (f := fun key => (rt.programs.lookup key).map rt.viewOf)
    (g := ProgramRef.key ∘ reference) (h := id) (fun key _ hview => by
      obtain ⟨P, hP, rfl⟩ := Option.map_eq_some_iff.1 hview
      exact rt.keyed key P hP) (env.programOrder rt.programs.keys)
  rw [map_id] at hsub
  exact hsub.nodup ((env.programOrder_perm _).nodup_iff.2 rt.programs.keys_nodup)

lemma mem_iterViews_iff (env : Env) :
    (∃ view ∈ rt.iterViews env.programOrder, view.reference = r) ↔ ∃ P, rt.program r = some P := by
  constructor
  · rintro ⟨_, hview, rfl⟩
    obtain ⟨P, hP, -⟩ := mem_iterViews hview
    exact ⟨P, hP⟩
  rintro ⟨P, hP⟩
  obtain ⟨hlookup, href⟩ := program_eq_some.1 hP
  refine ⟨rt.viewOf P, mem_filterMap.2 ⟨r.key, ?_, by rw [hlookup]; rfl⟩, href⟩
  exact (env.programOrder_perm _).mem_iff.2 ((mem_keys_iff _ _).2 ⟨P, hlookup⟩)

lemma nodup_affectedPrograms (env s pool ids removed) :
    ((affectedPrograms env s pool ids removed).map AffectedProgram.program).Nodup := by
  have hsub := map_filterMap_sublist (g := AffectedProgram.program)
    (h := reference) (f := fun program =>
      ((s.decisions.lookup program.reference).filter (needsRebinding ids)).map fun decision =>
        ({ program := program.reference
           expectedResume := program.expectedResume
           waitingRequests := program.waitingRequests
           targetDisappeared := decision.lastTarget.any fun target => removed.contains target
           placementKey := decision.placementKey
           placementHashKey := decision.placementHashKey } : AffectedProgram))
    (fun _ _ h => by
      obtain ⟨d, -, rfl⟩ := Option.map_eq_some_iff.1 h
      rfl)
    ((s.runtime.iterViews env.programOrder).filter fun program =>
      decide (program.reference.modelPool = pool))
  refine hsub.nodup (List.Nodup.sublist ?_ (nodup_iterViews s.runtime env))
  exact filter_sublist.map _

/-- The affected Programs are the Programs of the pool without a target in the
snapshot, as they are now. -/
lemma mem_affectedPrograms {env : Env} {pool : ModelPool} {affected : AffectedProgram}
    (h : affected ∈ affectedPrograms env s pool ids removed) :
    affected.program.modelPool = pool ∧ ∃ P d, (s.facts affected.program).program = some P ∧
      (s.facts affected.program).decision = some d ∧ needsRebinding ids d = true ∧
      affected.waitingRequests = (s.facts affected.program).pending.length := by
  obtain ⟨_, hview, haffected⟩ := mem_filterMap.1 h
  obtain ⟨hmem, hpool⟩ := mem_filter.1 hview
  obtain ⟨d, hd, rfl⟩ := Option.map_eq_some_iff.1 haffected
  obtain ⟨hd, hneeds⟩ := Option.filter_eq_some_iff.1 hd
  obtain ⟨P, hP, hviewOf⟩ := mem_iterViews hmem
  refine ⟨of_decide_eq_true hpool, P, d, hP, hd, hneeds, ?_⟩
  rw [← hviewOf]
  rfl

lemma affectedPrograms_of_needs (env removed) (hP : (s.facts r).program = some P)
    (hd : (s.facts r).decision = some d) (hneeds : needsRebinding ids d = true) :
    r ∈ (affectedPrograms env s r.modelPool ids removed).map AffectedProgram.program := by
  obtain ⟨view, hview, rfl⟩ := (mem_iterViews_iff env).2 ⟨P, hP⟩
  refine mem_map.2 ⟨_, mem_filterMap.2 ⟨view, mem_filter.2 ⟨hview,
    decide_eq_true rfl⟩, Option.map_eq_some_iff.2 ⟨d, ?_, rfl⟩⟩, rfl⟩
  exact Option.filter_eq_some_iff.2 ⟨hd, hneeds⟩

/-! ## The section -/

/-- What a snapshot of `pool` with the targets `ids` does to the facts of the
Program `r`. -/
inductive Syncs (sched : ProgramScheduler) (r : ProgramRef) (pool : ModelPool)
    (removed ids : List TargetId) : Facts → Facts → Prop
  | other {f : Facts} (hpool : r.modelPool ≠ pool) :
      Syncs sched r pool removed ids f (f.retargeted removed f.home)
  | kept {f : Facts} (hpool : r.modelPool = pool)
      (hkeeps : ∀ d, f.decision = some d → needsRebinding ids d = false) :
      Syncs sched r pool removed ids f (f.retargeted removed ids)
  | rebound {f f' : Facts} (hpool : r.modelPool = pool)
      (h : Rebinds sched pool (f.retargeted removed ids) f') :
      Syncs sched r pool removed ids f f'

/-- What a snapshot with the targets `ids` does to the state. -/
structure SyncStep (sched : ProgramScheduler) (pool : ModelPool) (ids : List TargetId)
    (s s' : ProgramSchedulerState) : Prop where
  syncs : ∀ r, Syncs sched r pool (s.removedTargets pool ids) ids (s.facts r) (s'.facts r)
  policy : PolicyOk sched s'.bindings.policy
  ledger : ∀ t, s'.ledger t = if t ∈ s.removedTargets pool ids then 0 else s.ledger t
  request : s'.runtime.requestPool.nextRequestId = s.runtime.requestPool.nextRequestId
  epoch : s.runtime.nextPlacementEpoch ≤ s'.runtime.nextPlacementEpoch
  program : ∀ r Q, (s'.facts r).program = some Q → (s.facts r).program = some Q ∨
    Displaced s.runtime.nextPlacementEpoch s'.runtime.nextPlacementEpoch Q

/-- A Program that has to be bound again has lost the target it is placed on. -/
lemma lost_of_needs (hlive : Live sched (s.facts r) P d) (hneeds : needsRebinding ids d = true)
    (ht : P.placement = some t) :
    t ∈ s.removedTargets r.modelPool ids := by
  have hactive : P.state = .active := hlive.placed.2 (by rw [ht]; rfl)
  have hlast : d.lastTarget = some t := (hlive.last hactive).trans ht
  have hgone : t ∉ ids := by
    unfold needsRebinding at hneeds
    rw [hlast] at hneeds
    simpa using hneeds
  refine mem_filter.2 ⟨hlive.home t hlast, ?_⟩
  simpa using hgone

lemma changeTargets_syncs (env pool) (targets : TargetSnapshot) (now)
    (hsound : ∀ r, Sound sched (s.facts r)) (hpolicy : PolicyOk sched s.bindings.policy) :
    SyncStep sched pool (sortedKeys (incomingTargets targets.items)) s
      (sched.changeTargets env s pool targets now) := by
  obtain ⟨ids, hids⟩ : ∃ ids, ids = sortedKeys (incomingTargets targets.items) := ⟨_, rfl⟩
  have hfacts := facts_retargetedState s pool targets
  have hledger := ledger_retargetedState s pool targets
  obtain ⟨s2, hs2⟩ : ∃ s2, s2 = retargetedState s pool targets := ⟨_, rfl⟩
  have hchange : sched.changeTargets env s pool targets now = ((affectedPrograms env s2 pool ids
      (s.removedTargets pool ids)).foldl
        (sched.failOver env now (s.removedTargets pool ids)) s2).dropUnreferenced := by
    rw [hs2, hids]
    rfl
  have hruntime : s2.runtime = s.runtime ∧ s2.bindings.policy = s.bindings.policy := by
    rw [hs2]
    unfold retargetedState
    rw [foldl_forgetTarget]
    exact ⟨rfl, policy_foldl_removeTarget _ _⟩
  rw [← hids, ← hs2] at hfacts hledger
  have hready : ∀ affected ∈ affectedPrograms env s2 pool ids (s.removedTargets pool ids),
      Ready (s.removedTargets pool ids) affected (s2.facts affected.program) := by
    intro affected hmem
    obtain ⟨rfl, P, d, hP, hd, hneeds, hwait⟩ := mem_affectedPrograms hmem
    refine ⟨P, d, hP, hd, ?_⟩
    have hhome : (s2.facts affected.program).home = ids := by
      rw [hfacts]
      exact if_pos rfl
    rw [hhome]
    rw [hfacts] at hP hd
    have hlive := (hsound affected.program).live_of hP hd
    exact ⟨hlive.placed, fun t ht => lost_of_needs hlive hneeds ht, hneeds, hwait⟩
  have hrun := failOver_run env now (s.removedTargets pool ids) _ s2
    (nodup_affectedPrograms env s2 pool ids (s.removedTargets pool ids)) hready
    (hruntime.2.symm ▸ hpolicy)
  rw [hchange, ← hids]
  refine ⟨fun r => ?_, hrun.policy, fun t => ?_, ?_, ?_, fun r Q hQ => ?_⟩
  · by_cases hmem : r ∈ (affectedPrograms env s2 pool ids (s.removedTargets pool ids)).map
        AffectedProgram.program
    · obtain ⟨_, haffected, rfl⟩ := mem_map.1 hmem
      obtain ⟨rfl, -⟩ := mem_affectedPrograms haffected
      have hrebinds := hrun.rebound _ hmem
      rw [hfacts, homeAfter, if_pos rfl] at hrebinds
      exact .rebound rfl hrebinds
    refine (hrun.kept r hmem).trans (hfacts r) ▸ ?_
    unfold homeAfter
    split
    · rename_i hpool
      refine .kept hpool fun d hd => ?_
      by_contra hneeds
      rw [Bool.not_eq_false] at hneeds
      have hsome := (hsound r).decision_isSome
      rw [hd] at hsome
      obtain ⟨P, hP⟩ := Option.isSome_iff_exists.1 hsome.symm
      subst hpool
      refine hmem (affectedPrograms_of_needs (P := P) (d := d) env _ ?_ ?_ hneeds)
      · rw [hfacts]
        exact hP
      · rw [hfacts]
        exact hd
    · rename_i hpool
      exact .other hpool
  · rw [← hledger]
    exact congrArg (fun observations =>
      ((observations.lookup t).getD .default).activeProgramTokenDelta) hrun.observations
  · rw [← hruntime.1]
    exact hrun.request
  · rw [← hruntime.1]
    exact hrun.epoch
  have := hrun.program r Q hQ
  rw [hfacts, hruntime.1] at this
  exact this

end VllmRouter.ProgramScheduling
