import VllmRouter.ProgramScheduling.PlacementAffinity
import VllmRouter.ProgramScheduling.RankLocal

/-!
# Relocation only after local resumes

`schedule_global_waiting` resumes the Programs of a pool on the targets they are bound
to until none has a plan there, and only then moves Programs. A move opens no local
plan: the moved Program leaves the queue, a plan on another target reads nothing that
changed, and no other waiter of the pool is bound to the destination, for such a waiter
would have closed it (`destination_has_local_waiter`). The queue of a pool holds only
Programs of that pool (`Pooled`), so the waiters that gate looks at are all of them.
-/

namespace VllmRouter.ProgramScheduling

open Option ProgramScheduler List

variable {sched : ProgramScheduler} {env : Env} {now : Instant} {s s' : ProgramSchedulerState}
  {p q : ProgramRef} {t : TargetId} {pool : ModelPool}

/-! ## The queue of a pool -/

/-- The Programs queued in a pool. -/
def ProgramSchedulerState.poolQueue (s : ProgramSchedulerState) (pool : ModelPool) :
    List ProgramRef :=
  (s.globalQueues.lookup pool).getD []

lemma poolQueue_commit (h : sched.commitAdmission s p t now = some s') (pool) :
    s'.poolQueue pool = (s.poolQueue pool).filter fun q => decide (q ≠ p) := by
  obtain ⟨P, d, rt, -, -, -, -, -, rfl⟩ := commitAdmission_eq_some h
  show ((s.globalQueues.mapVal _).lookup pool).getD [] = _
  unfold ProgramSchedulerState.poolQueue
  rw [Dict.lookup_mapVal]
  cases s.globalQueues.lookup pool with
  | none => rfl
  | some => rfl

/-- A Program is queued only in its own pool. -/
def Pooled (r : ProgramRef) (f : Facts) : Prop := ∀ pool, f.inPool pool ≠ 0 → pool = r.modelPool

lemma Pooled.tail (htail : Tail sched f f') (h : Pooled r f) : Pooled r f' := by
  cases htail with
  | retouch
  | wake
  | pause => exact h
  | admission
  | release
  | leave => exact fun _ hne => absurd rfl hne

lemma Pooled.arrive (harrives : Arrives sched r identity request f f') (h : Pooled r f) :
    Pooled r f' := by
  cases harrives with
  | known
  | fresh => exact h

lemma pooledRule (now) : SectionRule sched sys now action Pooled where
  permit := fun _ _ _ _ _ _ hf => hf
  claim := by
    intro _ _ _ f' _ _ _ _ hclaims hf
    cases hclaims with
    | front
    | behind
    | unplaced => exact hf
  cancel := by
    intro _ _ _ f' _ _ hcancels hf
    cases hcancels with
    | waiting => exact hf
    | running
    | paused
    | active => exact fun _ hne => absurd rfl hne
  complete := by
    intro _ f' _ hcompletes hf
    cases hcompletes with
    | runs
    | pauses => exact hf
  retain := by
    intro _ _ _ _ _ _ r _ _ _ _ _ hretains hf
    cases hretains with
    | placed harrives
    | unbound harrives => exact hf.arrive harrives
    | @queued f1 _ _ t _ harrives =>
      intro pool hne
      by_contra hpool
      refine hne (not_not.1 fun hcount => hpool (hf.arrive harrives pool fun hzero => hcount ?_))
      show (f1.enqueuedOnce sched r.modelPool t).inPool pool = 0
      unfold Facts.enqueuedOnce
      split
      · exact (if_neg fun hand => hpool hand.1).trans hzero
      · exact hzero
  sync := by
    intro _ pool _ r _ _ _ hsyncs hf
    have hrequeued : ∀ (f0 : Facts) (replacement : Option TargetId) pool',
        (f0.requeued sched pool replacement).inPool pool' ≠ 0 → pool' = pool := by
      intro _ _ _ hne
      unfold Facts.requeued at hne
      split at hne
      · exact absurd rfl hne
      split at hne
      · exact of_not_not fun hother => hne (if_neg hother)
      · exact absurd rfl hne
    cases hsyncs with
    | other
    | kept => exact hf
    | rebound hpool hrebinds =>
      intro pool' hne
      rw [hpool]
      cases hrebinds with
      | @paused _ _ replacement => exact hrequeued _ replacement pool' hne
      | @active _ _ replacement => exact hrequeued _ replacement pool' hne

/-- Every queue holds only Programs of its pool. -/
def PoolsOwn (s : ProgramSchedulerState) : Prop :=
  ∀ pool, ∀ q ∈ s.poolQueue pool, q.modelPool = pool

lemma Reached.poolsOwn (h : Reached sched s) : PoolsOwn s := by
  intro pool q hq
  have hpooled := (h.facts (I := Pooled) (fun _ _ hne => absurd rfl hne)
    (fun _ now _ _ => pooledRule now) fun _ _ _ => Pooled.tail).2 q
  refine (hpooled pool ?_).symm
  show (s.poolQueue pool).count q ≠ 0
  rw [ne_eq, count_eq_zero, not_not]
  exact hq

lemma PoolsOwn.commit (h : PoolsOwn s) (hcommit : sched.commitAdmission s p t now = some s') :
    PoolsOwn s' := by
  intro pool q hq
  rw [poolQueue_commit hcommit] at hq
  exact h pool q (mem_filter.1 hq).1

/-! ## Local plans -/

/-- The plan of a Program on the target it is bound to. -/
def ownPlan (sched : ProgramScheduler) (env : Env) (s : ProgramSchedulerState) (p : ProgramRef)
    (now : Instant) : Option RankAdmissionPlan :=
  ((s.decisions.lookup p).bind ProgramDecisionState.lastTarget).bind fun t =>
    sched.rankAdmissionPlan env s p t now

/-- The Program is queued in the pool with a plan on its own target, and is in the
resume order not behind any other such Program. -/
structure FirstInPool (sched : ProgramScheduler) (env : Env) (s : ProgramSchedulerState)
    (pool : ModelPool) (p : ProgramRef) (now : Instant) : Prop where
  queued : p ∈ s.poolQueue pool
  planned : (ownPlan sched env s p now).isSome = true
  before : ∀ q ∈ s.poolQueue pool, (ownPlan sched env s q now).isSome = true →
    sched.localResumeCmp s now p q ≠ .gt

/-- No Program queued in the pool has a plan on its own target. -/
def PoolExhausted (sched : ProgramScheduler) (now : Instant) (pool : ModelPool)
    (s : ProgramSchedulerState) : Prop :=
  ∀ q ∈ s.poolQueue pool, ∀ env, ownPlan sched env s q now = none

lemma mem_globalReasoningWaiters (hq : q ∈ s.poolQueue pool)
    (h : (ownPlan sched env s q now).isSome = true) : q ∈ globalReasoningWaiters s pool := by
  obtain ⟨_, hplan⟩ := isSome_iff_exists.1 h
  obtain ⟨t, -, hplan⟩ := bind_eq_some_iff.1 hplan
  exact mem_filter.2 ⟨hq, isWaiter_of_plan hplan⟩

lemma globalLocalCandidate_first (h : sched.globalLocalCandidate env s pool now = some (p, t)) :
    FirstInPool sched env s pool p now ∧
      (s.decisions.lookup p).bind ProgramDecisionState.lastTarget = some t := by
  obtain ⟨p', hp, hfound, hfirst⟩ := first_of_findSome?_sortBy h
  obtain ⟨t', hlast, hplan⟩ := bind_eq_some_iff.1 hfound
  obtain ⟨plan, hplan, hpair⟩ := map_eq_some_iff.1 hplan
  cases hpair
  have hown : ownPlan sched env s p now = some plan := bind_eq_some_iff.2 ⟨t, hlast, hplan⟩
  refine ⟨⟨(mem_filter.1 hp).1, isSome_of_eq_some hown, fun q hq hsome => ?_⟩, hlast⟩
  refine hfirst q (mem_globalReasoningWaiters hq hsome) ?_
  obtain ⟨_, hplan'⟩ := isSome_iff_exists.1 hsome
  obtain ⟨u, hu, hplan'⟩ := bind_eq_some_iff.1 hplan'
  rw [hu, bind_some, hplan']
  rfl

lemma globalLocalCandidate_none (h : sched.globalLocalCandidate env s pool now = none) :
    PoolExhausted sched now pool s := by
  intro q hq env'
  by_contra hne
  obtain ⟨_, hplan⟩ := ne_none_iff_exists'.1 hne
  obtain ⟨t, hlast, hrank⟩ := bind_eq_some_iff.1 hplan
  have hnone := findSome?_eq_none_iff.1 h q
    (mem_sortBy.2 (mem_globalReasoningWaiters hq (isSome_of_eq_some hplan)))
  rw [hlast, bind_some, rankAdmissionPlan_congr (.refl t s) rfl env' env, hrank] at hnone
  cases hnone

/-! ## Rounds -/

/-- The body of the loop that resumes the Programs of a pool. -/
def ProgramScheduler.resumeRound (sched : ProgramScheduler) (env : Env) (now : Instant)
    (pool : ModelPool) : ProgramSchedulerState → Option ProgramSchedulerState :=
  sched.propose (fun s => sched.globalLocalCandidate env s pool now) now

/-- The body of the loop that moves the Programs of a pool. -/
def ProgramScheduler.moveRound (sched : ProgramScheduler) (env : Env) (now : Instant)
    (pool : ModelPool) : ProgramSchedulerState → Option ProgramSchedulerState :=
  sched.propose (fun s => sched.globalCrossCandidate env s pool now) now

lemma resumeRound_some (h : sched.resumeRound env now pool s = some s') :
    ∃ p ∈ s.poolQueue pool, ∃ t, sched.commitAdmission s p t now = some s' ∧
      s'.poolQueue pool = (s.poolQueue pool).filter fun q => decide (q ≠ p) := by
  obtain ⟨⟨p, t⟩, hchoice, rfl⟩ := map_eq_some_iff.1 h
  obtain ⟨s1, hcommit⟩ := (sched.globalLocalCandidate_elects env pool now s _ _ hchoice).2
  rw [hcommit]
  exact ⟨p, (globalLocalCandidate_first hchoice).1.queued, t, hcommit, poolQueue_commit hcommit
    pool⟩

lemma globalCrossCandidate_select (h : sched.globalCrossCandidate env s pool now = some (p, t)) :
    p ∈ s.poolQueue pool ∧ ∃ plan, sched.selectCrossRankAdmission env s p now = some (t, plan) := by
  obtain ⟨p', hp, hfound⟩ := exists_of_findSome?_eq_some h
  obtain ⟨⟨t', plan⟩, hselect, hpair⟩ := map_eq_some_iff.1 hfound
  cases hpair
  exact ⟨(mem_filter.1 (mem_filter.1 (mem_sortBy.1 hp)).1).1, plan, hselect⟩

lemma moveRound_some (h : sched.moveRound env now pool s = some s') :
    ∃ p ∈ s.poolQueue pool, ∃ t, (sched.commitAdmission s p t now = some s' ∧
      s'.poolQueue pool = (s.poolQueue pool).filter fun q => decide (q ≠ p)) ∧
      ∃ plan, sched.selectCrossRankAdmission env s p now = some (t, plan) := by
  obtain ⟨⟨p, t⟩, hchoice, rfl⟩ := map_eq_some_iff.1 h
  obtain ⟨hp, plan, hselect⟩ := globalCrossCandidate_select hchoice
  obtain ⟨s1, hcommit⟩ := commit_of_plan (selectCrossRankAdmission_plan hselect)
  rw [hcommit]
  exact ⟨p, hp, t, ⟨hcommit, poolQueue_commit hcommit pool⟩, plan, hselect⟩

/-- A move leaves the pool exhausted. -/
lemma moveRound_exhausted (hown : PoolsOwn s) (h : PoolExhausted sched now pool s)
    (hround : sched.moveRound env now pool s = some s') : PoolExhausted sched now pool s' := by
  obtain ⟨p, hp, t, ⟨hcommit, hqueue⟩, _, hselect⟩ := moveRound_some hround
  obtain ⟨_, _, -, hrelocation⟩ := relocation_of_select (a := ⟨s, p, t, now⟩) hselect
  intro q hq env'
  rw [hqueue, mem_filter, decide_eq_true_iff] at hq
  have hfacts := facts_commit_ne hcommit hq.2
  have hdecision : s'.decisions.lookup q = s.decisions.lookup q := congrArg Facts.decision hfacts
  by_contra hne
  obtain ⟨_, hplan'⟩ := ne_none_iff_exists'.1 hne
  obtain ⟨u, hu, hplan'⟩ := bind_eq_some_iff.1 hplan'
  rw [hdecision] at hu
  by_cases hut : u = t
  · -- a waiter that is bound to the destination would have closed it
    have hwaiter : isWaiter s q = true := by
      have hafter := isWaiter_of_plan hplan'
      unfold isWaiter at hafter ⊢
      rwa [view_congr hfacts] at hafter
    refine hrelocation.free q (mem_filter.2 ⟨?_, hwaiter⟩) hq.2 (hut ▸ hu)
    rw [hown pool p hp]
    exact hq.1
  rw [rankAdmissionPlan_congr (sameRank_commit hcommit hut) hfacts env' env'] at hplan'
  have hnone := h q hq.1 env'
  unfold ownPlan at hnone
  rw [hu, bind_some, hplan'] at hnone
  cases hnone

/-! ## The loops -/

variable (sched : ProgramScheduler) (env : Env) (now : Instant) (s : ProgramSchedulerState)
  (pool : ModelPool)

lemma poolResumed_ends : let s' := sched.poolResumed env now s pool
    sched.resumeRound env now pool s' = none ∧ Ends (sched.resumeRound env now pool) s s' :=
  scheduleBy_ends (fun s => s.poolQueue pool) (fun _ _ h => resumeRound_some h) s

lemma schedulePool_ends : Ends (sched.moveRound env now pool) (sched.poolResumed env now s pool)
      (sched.schedulePool env now s pool) := by
  refine (scheduleBy_ends (fun s => s.poolQueue pool) (fun s s' h => ?_) _).2
  obtain ⟨p, hp, t, hcommit, -⟩ := moveRound_some h
  exact ⟨p, hp, t, hcommit⟩

variable {sched env now s pool}

lemma PoolsOwn.poolResumed (h : PoolsOwn s) : PoolsOwn (sched.poolResumed env now s pool) := by
  rw [ProgramScheduler.poolResumed, sched.scheduleBy_eq]
  refine repeatWhile_invariant (fun s s' hown hround => ?_) _ s h
  obtain ⟨p, -, t, hcommit, -⟩ := resumeRound_some hround
  exact hown.commit hcommit

lemma PoolsOwn.schedulePool (h : PoolsOwn s) : PoolsOwn (sched.schedulePool env now s pool) := by
  show PoolsOwn (sched.scheduleBy _ now _ (sched.poolResumed env now s pool))
  rw [sched.scheduleBy_eq]
  refine repeatWhile_invariant (fun s s' hown hround => ?_) _ _ h.poolResumed
  obtain ⟨p, -, t, ⟨hcommit, -⟩, -⟩ := moveRound_some hround
  exact hown.commit hcommit

/-- A resume takes the first Program of its pool that has a local plan; a move finds none
that has. -/
def LocalFirst (sched : ProgramScheduler) (env : Env) (a : Admission) : Prop :=
  (a.lastTarget = some a.target ∧
      FirstInPool sched env a.before a.program.modelPool a.program a.now) ∨
    (a.lastTarget ≠ some a.target ∧
      PoolExhausted sched a.now a.program.modelPool a.before)

lemma poolAdmissions_localFirst (hown : PoolsOwn s) :
    ∀ a ∈ sched.poolAdmissions env now s pool, a.now = now ∧ LocalFirst sched env a := by
  intro a ha
  rcases mem_append.1 ha with hresume | hmove
  · obtain ⟨head, hhead, hchoice⟩ := mem_filterMap.1 hresume
    obtain ⟨⟨p, t⟩, hcandidate, rfl⟩ := map_eq_some_iff.1 hchoice
    obtain ⟨hfirst, hlast⟩ := globalLocalCandidate_first hcandidate
    have hheadOwn : PoolsOwn head := by
      refine heads_invariant (fun s s' hown hround => ?_) _ s hown head hhead
      obtain ⟨p, -, t, hcommit, -⟩ := resumeRound_some hround
      exact hown.commit hcommit
    obtain rfl : p.modelPool = pool := hheadOwn pool p hfirst.queued
    exact ⟨rfl, .inl ⟨hlast, hfirst⟩⟩
  · obtain ⟨head, hhead, hchoice⟩ := mem_filterMap.1 hmove
    obtain ⟨⟨p, t⟩, hcandidate, rfl⟩ := map_eq_some_iff.1 hchoice
    obtain ⟨hp, plan, hselect⟩ := globalCrossCandidate_select hcandidate
    -- the first loop has exhausted the pool, and no move opens a plan
    have hstops := (poolResumed_ends sched env now s pool).1
    have hheadOwn : PoolsOwn head ∧ PoolExhausted sched now pool head := by
      refine heads_invariant (I := fun s => PoolsOwn s ∧ PoolExhausted sched now pool s)
        (fun s s' hI hround => ?_) _ _
        ⟨hown.poolResumed, globalLocalCandidate_none (map_eq_none_iff.1 hstops)⟩ head hhead
      obtain ⟨p, -, t, ⟨hcommit, -⟩, -⟩ := moveRound_some hround
      exact ⟨hI.1.commit hcommit, moveRound_exhausted hI.1 hI.2 hround⟩
    obtain rfl : p.modelPool = pool := hheadOwn.1 pool p hp
    obtain ⟨_, _, hne, hrelocation⟩ := relocation_of_select (a := ⟨head, p, t, now⟩) hselect
    refine ⟨rfl, .inr ⟨fun hlast => hne ?_, hheadOwn.2⟩⟩
    rw [Admission.lastTarget, hrelocation.known, bind_some, hrelocation.bound] at hlast
    exact some.inj hlast

/-- For every state in which the scheduler can be with the global queue, the loops of
`schedule_global_waiting` end, for each pool first the resumes and then the moves. What
they admit is a local resume of the first Program of its pool that has a local plan, or
a move at a time at which no queued Program of the pool has one. -/
theorem scheduleGlobalWaiting_localFirst (sched : ProgramScheduler)
    (hglobal : sched.config.globalQueue = true) (s : ProgramSchedulerState) (hs : Reached sched s)
    (env : Env) (now : Instant) :
    let s' := sched.scheduleGlobalWaiting env s now
    let log := sched.waitingAdmissions env s now
    Passes (fun pool s s' => ∃ resumed, Ends (sched.resumeRound env now pool) s resumed ∧
      Ends (sched.moveRound env now pool) resumed s') (env.nameOrder s.globalQueues.keys) s s' ∧
    sched.Admits s log s' ∧ ∀ a ∈ log, a.now = now ∧ LocalFirst sched env a := by
  intro s' log
  refine ⟨?_, ?_, ?_⟩
  · refine passes_foldl (I := fun _ => True) (fun s pool _ => ?_) (fun _ _ _ => trivial) _ s trivial
    exact ⟨_, (poolResumed_ends sched env now s pool).2, schedulePool_ends sched env now s pool⟩
  · have hadmits := sched.scheduleWaiting_admits env s now
    unfold scheduleWaiting at hadmits
    rw [if_pos hglobal] at hadmits
    exact hadmits
  have hstep : ∀ s (log : List Admission) pool,
      PoolsOwn s ∧ (∀ a ∈ log, a.now = now ∧ LocalFirst sched env a) →
      PoolsOwn (sched.schedulePool env now s pool) ∧
        ∀ a ∈ log ++ sched.poolAdmissions env now s pool,
          a.now = now ∧ LocalFirst sched env a := by
    intro _ _ _ hI
    refine ⟨hI.1.schedulePool, fun a ha => ?_⟩
    rcases mem_append.1 ha with hold | hnew
    · exact hI.2 a hold
    · exact poolAdmissions_localFirst hI.1 a hnew
  have hrun := foldl_logged hstep (env.nameOrder s.globalQueues.keys) s [] ⟨hs.poolsOwn, nofun⟩
  rw [show log = _ from if_pos hglobal]
  exact hrun.2

/-- When `p` returns in `relocatedRun`, it moves to `b`, and nothing could resume. -/
theorem scheduleGlobalWaiting_localFirst_moved :
    let sys := (System.empty globalScheduler.config).run globalScheduler (relocatedRun.take 8)
    let body := sys.body globalScheduler 9 (arrivalOf "m" "p" ["a", "b"] 9)
    ∃ scheduling, globalScheduler.scheduling body.1 body.2 = some scheduling ∧
      ∃ a ∈ globalScheduler.waitingAdmissions scheduling.env scheduling.start scheduling.now,
        a.lastTarget = some "a" ∧ a.target = "b" ∧
          PoolExhausted globalScheduler a.now a.program.modelPool a.before := by
  intro _ body
  have hany : ((globalScheduler.scheduling body.1 body.2).any fun scheduling =>
      (globalScheduler.waitingAdmissions scheduling.env scheduling.start scheduling.now).any
        fun a => decide (a.lastTarget = some "a" ∧ a.target = "b")) = true := by
    decide +kernel
  obtain ⟨scheduling, hscheduling, hmoved⟩ := (any_eq_true _ _).1 hany
  obtain ⟨a, ha, hpair⟩ := any_eq_true.1 hmoved
  obtain ⟨hlast, htarget⟩ := decide_eq_true_iff.1 hpair
  refine ⟨scheduling, hscheduling, a, ha, hlast, htarget, ?_⟩
  have hlocal := ((scheduleGlobalWaiting_localFirst globalScheduler rfl _
    (.within _ hscheduling) scheduling.env scheduling.now).2.2 a ha).2
  rcases hlocal with ⟨hown, -⟩ | ⟨-, hexhausted⟩
  · rw [hlast, htarget] at hown
    exact absurd hown (by decide)
  · exact hexhausted

end VllmRouter.ProgramScheduling
