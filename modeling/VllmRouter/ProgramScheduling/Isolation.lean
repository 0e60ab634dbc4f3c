import VllmRouter.ProgramScheduling.Steps

/-!
# What a snapshot of one pool does to the other pools

`Share` is what the scheduler keeps for one model pool: the Programs it has queued
and bound and where they are placed, and the factors and the ledger of the targets.

- Binding the Programs of a pool again does not reach the share of another pool
  (`share_failOver`).
- Forgetting the removed targets does. `share_changeTargets` says what a snapshot
  leaves of the share of another pool, and `run_pools_isolated` that the share is left
  alone exactly when every removed target that the other pool still has is `Vacant`
  in it.
-/

namespace VllmRouter.ProgramScheduling

open ProgramSchedulerState Dict List
open ProgramScheduler (AffectedProgram affectedPrograms failedOver detach sortedKeys)

variable {sched : ProgramScheduler} {s : ProgramSchedulerState} {pool other : ModelPool}

/-! ## The share of a pool -/

/-- What is kept for the Programs of a pool and for the targets. -/
structure Share (pool : ModelPool) where
  targets : List TargetId
  /-- Programs of the pool in the queue of a rank. -/
  queuedOn : TargetId → List ProgramRef
  /-- Programs of the pool in its global queue. -/
  queuedIn : List ProgramRef
  bound : { r : ProgramRef // r.modelPool = pool } → Option TargetId
  placed : { r : ProgramRef // r.modelPool = pool } → Option TargetId
  factors : TargetId → ProgressTtlFactors
  ledger : TargetId → Rat

/-- The Programs of a pool in a queue. -/
def ofPool (pool : ModelPool) (queue : List ProgramRef) : List ProgramRef :=
  queue.filter fun p => decide (p.modelPool = pool)

def ProgramSchedulerState.share (s : ProgramSchedulerState) (pool : ModelPool) : Share pool where
  targets := (s.modelTargets.lookup pool).getD []
  queuedOn t := ofPool pool ((s.rankQueues.lookup t).getD [])
  queuedIn := ofPool pool ((s.globalQueues.lookup pool).getD [])
  bound r := s.bindings.bindings.lookup r.1.key
  placed r := (s.runtime.program r.1).bind RuntimeProgram.placement
  factors t := (s.rankFactors.lookup t).getD .default
  ledger t := s.ledger t

/-- The share without what is kept under these targets. -/
def Share.without (removed : List TargetId) (a : Share pool) : Share pool :=
  { a with
    queuedOn := fun t => if t ∈ removed then [] else a.queuedOn t
    bound := fun r => (a.bound r).filter fun t => decide (t ∉ removed)
    factors := fun t => if t ∈ removed then .default else a.factors t
    ledger := fun t => if t ∈ removed then 0 else a.ledger t }

/-- The share `b` is the share `a` on the targets that the pool has. -/
structure Share.Agrees (a b : Share pool) : Prop where
  targets : b.targets = a.targets
  queuedOn : ∀ t ∈ a.targets, b.queuedOn t = a.queuedOn t
  queuedIn : b.queuedIn = a.queuedIn
  bound : ∀ t ∈ a.targets, ∀ r, b.bound r = some t ↔ a.bound r = some t
  placed : b.placed = a.placed
  factors : ∀ t ∈ a.targets, b.factors t = a.factors t
  ledger : ∀ t ∈ a.targets, b.ledger t = a.ledger t

/-- Nothing is kept under the target: no Program of the pool is queued on it or bound
to it, it has no sample and no token is accounted. -/
structure Share.Vacant (a : Share pool) (t : TargetId) : Prop where
  queuedOn : a.queuedOn t = []
  bound : ∀ r, a.bound r ≠ some t
  factors : a.factors t = .default
  ledger : a.ledger t = 0

lemma Share.agrees_without (a : Share pool) :
    a.Agrees (a.without removed) ↔ ∀ t ∈ removed, t ∈ a.targets → a.Vacant t := by
  constructor
  · intro h t ht hhome
    have hqueue := h.queuedOn t hhome
    have hfactors := h.factors t hhome
    have hledger := h.ledger t hhome
    simp only [Share.without, if_pos ht] at hqueue hfactors hledger
    refine ⟨hqueue.symm, fun r hr => ?_, hfactors.symm, hledger.symm⟩
    -- a binding to the removed target does not survive
    have hkept := (h.bound t hhome r).2 hr
    simp only [Share.without, Option.filter_eq_some_iff, decide_eq_true_eq] at hkept
    exact hkept.2 ht
  · intro h
    refine ⟨rfl, fun t hhome => ?_, rfl, fun t hhome r => ?_, rfl, fun t hhome => ?_,
      fun t hhome => ?_⟩
    · by_cases ht : t ∈ removed
      · exact (if_pos ht).trans (h t ht hhome).queuedOn.symm
      · exact if_neg ht
    · simp only [Share.without, Option.filter_eq_some_iff, decide_eq_true_eq]
      exact ⟨fun hr => hr.1, fun hr => ⟨hr, fun ht => (h t ht hhome).bound r hr⟩⟩
    · by_cases ht : t ∈ removed
      · exact (if_pos ht).trans (h t ht hhome).factors.symm
      · exact if_neg ht
    by_cases ht : t ∈ removed
    · exact (if_pos ht).trans (h t ht hhome).ledger.symm
    · exact if_neg ht

lemma Share.agrees_refl (a : Share pool) : a.Agrees a :=
  ⟨rfl, fun _ _ => rfl, rfl, fun _ _ _ => Iff.rfl, rfl, fun _ _ => rfl, fun _ _ => rfl⟩

/-! ## Failover -/

variable {p : ProgramRef}

lemma ofPool_filter_ne (hp : p.modelPool ≠ other) (queue) :
    ofPool other (queue.filter fun q => decide (q ≠ p)) = ofPool other queue := by
  unfold ofPool
  rw [filter_filter]
  refine filter_congr fun q _ => ?_
  by_cases hq : q.modelPool = other
  · have hne : q ≠ p := fun heq => hp (heq ▸ hq)
    simp [hne]
  · simp [hq]

lemma ofPool_append_other (hp : p.modelPool ≠ other) (queue) :
    ofPool other (queue ++ [p]) = ofPool other queue := by
  unfold ofPool
  simp [hp]

/-- A queue in a table of queues, after every queue lost one Program. -/
lemma ofPool_mapVal {K : Type} [DecidableEq K] (hp : p.modelPool ≠ other)
    (queues : Dict K (List ProgramRef)) (k : K) :
    ofPool other (((queues.mapVal fun queue => queue.filter fun q => decide (q ≠ p)).lookup
      k).getD []) = ofPool other ((queues.lookup k).getD []) := by
  rw [lookup_mapVal]
  cases queues.lookup k with
  | none => rfl
  | some queue => exact ofPool_filter_ne hp queue

/-- A queue in a table of queues, after one Program was appended to a queue. -/
lemma ofPool_upsert {K : Type} [DecidableEq K] (hp : p.modelPool ≠ other)
    (queues : Dict K (List ProgramRef)) (k k' : K) :
    ofPool other (((queues.upsert k [] fun queue => queue ++ [p]).lookup k').getD [])
      = ofPool other ((queues.lookup k').getD []) := by
  rw [lookup_upsert]
  split
  · rename_i hk
    rw [hk]
    exact ofPool_append_other hp _
  · rfl

lemma program_invalidatePlacement_other {rt : ProgramRuntime} (removed) (hr : r ≠ p) :
    ((rt.invalidatePlacement p removed).getD rt).program r = rt.program r := by
  unfold ProgramRuntime.invalidatePlacement
  cases hP : rt.program p with
  | none => rfl
  | some P =>
    simp only
    split
    · rfl
    have hupdate := program_update (Q := P.invalidated (rt.nextPlacementEpoch + 1)) hP rfl r
    rw [if_neg hr] at hupdate
    exact hupdate

/-- Taking a Program off its target does not reach the share of another pool. -/
lemma share_detach (removed) (hp : p.modelPool ≠ other) :
    (detach s removed p).share other = s.share other := by
  have hne : ∀ r : { r : ProgramRef // r.modelPool = other }, r.1.key ≠ p.key :=
    fun r heq => hp ((congrArg RuntimeKey.modelPool heq).symm.trans r.2)
  unfold share
  congr 1
  · exact funext fun t => ofPool_mapVal hp s.rankQueues t
  · exact ofPool_mapVal hp s.globalQueues other
  · exact funext fun r => (lookup_erase_eq _ _ _).trans (if_neg (hne r))
  funext r
  have hprogram : ((s.runtime.invalidatePlacement p removed).getD s.runtime).program r.1
      = s.runtime.program r.1 :=
    program_invalidatePlacement_other removed fun heq => hne r (congrArg ProgramRef.key heq)
  exact congrArg (·.bind RuntimeProgram.placement) hprogram

lemma share_requeue (waiting : Nat) (replacement) (hp : p.modelPool ≠ other) :
    (sched.requeue s p waiting replacement).share other = s.share other := by
  unfold ProgramScheduler.requeue
  split
  · rfl
  split
  · unfold share
    congr 1
    exact ofPool_upsert hp s.globalQueues p.modelPool other
  split
  · unfold share
    congr 1
    exact funext fun t => ofPool_upsert hp s.rankQueues _ t
  · rfl

/-- Binding a Program again does not reach the share of another pool. -/
lemma share_failOver (env now removed) (h : affected.program.modelPool ≠ other) :
    (sched.failOver env now removed s affected).share other = s.share other := by
  unfold ProgramScheduler.failOver
  rw [share_requeue _ _ h]
  refine Eq.trans ?_ (share_detach removed h)
  unfold share
  congr 1
  funext r
  refine ProgramBindings.lookup_bind_other _ _ _ fun heq => h ?_
  exact (congrArg RuntimeKey.modelPool heq).symm.trans r.2

/-! ## The section -/

lemma lookup_foldl_removeTarget (key) (removed : List TargetId) :
    ∀ b, (removed.foldl ProgramBindings.removeTarget b).bindings.lookup key
      = (b.bindings.lookup key).filter fun t => decide (t ∉ removed) := by
  induction removed with
  | nil =>
    intro b
    cases hbound : b.bindings.lookup key with
    | none => simp [hbound]
    | some =>
      rw [foldl_nil, hbound]
      exact (Option.filter_eq_some_iff.2 ⟨rfl, by simp⟩).symm
  | cons target _ ih =>
    intro b
    rw [foldl_cons, ih]
    show ((b.bindings.retain fun _ bound => decide (bound ≠ target)).lookup key).filter _ = _
    rw [lookup_retain, Option.filter_filter]
    congr 1
    funext t
    by_cases ht : t = target
    · simp [ht]
    · simp [ht]

/-- Forgetting the removed targets, as another pool sees it. -/
lemma share_retargetedState (targets : TargetSnapshot) (hother : other ≠ pool) :
    (retargetedState s pool targets).share other = (s.share other).without
          (s.removedTargets pool (sortedKeys (incomingTargets targets.items))) := by
  have hledger := ledger_retargetedState s pool targets
  unfold retargetedState at hledger ⊢
  rw [foldl_forgetTarget] at hledger ⊢
  unfold share
  congr 1
  · simp only [installTargets]
    rw [lookup_insert_eq, if_neg hother]
  · funext t
    simp only [installTargets, lookup_foldl_erase]
    split
    · rfl
    · rw [getD_foldl_upsert]
  · simp only [installTargets]
    rw [lookup_upsert, if_neg hother]
  · exact funext fun r => lookup_foldl_removeTarget _ _ _
  · funext t
    simp only [installTargets, lookup_foldl_erase]
    split
    · rfl
    · rw [getD_foldl_upsert]
  · exact funext hledger

/-- What a snapshot that changes the targets of a pool leaves of the share of another
pool. -/
lemma share_changeTargets (env targets now) (hother : other ≠ pool) :
    (sched.changeTargets env s pool targets now).share other
      = (s.share other).without
          (s.removedTargets pool (sortedKeys (incomingTargets targets.items))) := by
  rw [← share_retargetedState targets hother]
  -- the affected Programs are of the pool, and the loop over them keeps the share
  have hfold : ∀ (removed : List TargetId) (l : List AffectedProgram)
      (s1 : ProgramSchedulerState), (∀ affected ∈ l, affected.program.modelPool = pool) →
      (l.foldl (sched.failOver env now removed) s1).share other = s1.share other := by
    intro removed l
    induction l with
    | nil => exact fun s1 _ => rfl
    | cons affected l ih =>
      intro s1 hl
      rw [foldl_cons, ih _ fun a ha => hl a (mem_cons_of_mem _ ha)]
      refine share_failOver env now removed fun heq => hother ?_
      exact heq.symm.trans (hl affected mem_cons_self)
  exact hfold _ _ _ fun _ hmem => (mem_affectedPrograms hmem).1

/-- A synchronization of the pool takes from it no target that holds anything of another
pool that has the target. -/
def Isolates (s : ProgramSchedulerState) (pool : ModelPool) (targets : TargetSnapshot) : Prop :=
  s.installs pool targets = true → ∀ other, other ≠ pool →
    ∀ t ∈ s.removedTargets pool targets.ids, t ∈ (s.share other).targets →
      (s.share other).Vacant t

lemma share_syncTargetSnapshotLocked (sched : ProgramScheduler) (env) (s : ProgramSchedulerState)
    (pool targets now) :
    (∀ other, other ≠ pool → (s.share other).Agrees
        ((sched.syncTargetSnapshotLocked env s pool targets now).share other)) ↔
      Isolates s pool targets := by
  by_cases hinstalls : s.installs pool targets = true
  · rw [sync_of_installs sched env now hinstalls]
    have hshare : ∀ other, other ≠ pool →
        ((s.share other).Agrees ((sched.changeTargets env s pool targets now).share other) ↔
          ∀ t ∈ s.removedTargets pool targets.ids, t ∈ (s.share other).targets →
            (s.share other).Vacant t) := by
      intro _ hother
      rw [share_changeTargets env targets now hother]
      exact Share.agrees_without _
    exact ⟨fun h _ other hother => (hshare other hother).1 (h other hother),
      fun h other hother => (hshare other hother).2 (h hinstalls other hother)⟩
  · obtain ⟨_, hsync⟩ := sync_of_not_installs sched env now hinstalls
    rw [hsync]
    exact ⟨fun _ h => absurd h hinstalls, fun _ _ _ => Share.agrees_refl _⟩

/-- Whatever the run, synchronizing a pool leaves the shares of the other pools alone if
and only if the snapshot isolates it. -/
theorem run_pools_isolated (sched : ProgramScheduler) (events : List (Instant × Action)) (env : Env)
    (pool : ModelPool) (targets : TargetSnapshot) (now : Instant) :
    let s := ((System.empty sched.config).run sched events).state
    (∀ other, other ≠ pool → (s.share other).Agrees
        ((sched.syncTargetSnapshotLocked env s pool targets now).share other)) ↔
      Isolates s pool targets :=
  share_syncTargetSnapshotLocked sched env _ pool targets now

/-- The pools `m` and `all` share the target `a`. `p` and `q` of the pool `all` have run
on it and `r` of that pool waits for it. -/
def overlappingRun : List (Instant × Action) :=
  [(1, syncOf "m" 0 ["a"]), (1, syncOf "all" 1 ["a"]), (2, arrivalOf "all" "p" ["a"] 2),
    (3, arrivalOf "all" "q" ["a"] 3), (4, .claim 0),
    (5, .complete .plain 0 true false ⟨some 20, some 5, some 0⟩ (some 1)),
    (6, arrivalOf "all" "r" ["a"] 6)]

/-- The state after a snapshot of `m` without `a`. -/
def overlappingSync : ProgramSchedulerState :=
  smallScheduler.syncTargetSnapshotLocked .plain (smallRun overlappingRun).state "m"
    (snapshot 2 ["b"]) 7

/-- The pool `all` still has `a` and loses its queue, its bindings, the samples and the
ledger of `a`. -/
theorem overlappingRun_disturbed : (overlappingSync.share "all").targets = ["a"] ∧
      (((smallRun overlappingRun).state.share "all").queuedOn "a").map ProgramRef.programId
        = ["r"] ∧ (overlappingSync.share "all").queuedOn "a" = [] ∧
      ((smallRun overlappingRun).state.share "all").bound ⟨⟨"all", "r", 0⟩, rfl⟩ = some "a" ∧
      (overlappingSync.share "all").bound ⟨⟨"all", "r", 0⟩, rfl⟩ = none ∧
      ((smallRun overlappingRun).state.share "all").factors "a" ≠ .default ∧
      (overlappingSync.share "all").factors "a" = .default ∧
      ((smallRun overlappingRun).state.share "all").ledger "a" = 110 ∧
      (overlappingSync.share "all").ledger "a" = 0 := by
  decide +kernel

end VllmRouter.ProgramScheduling
