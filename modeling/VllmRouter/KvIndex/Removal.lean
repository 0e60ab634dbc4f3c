import VllmRouter.Lib.Machine
import VllmRouter.KvIndex.Restart
import VllmRouter.KvIndex.Supervisor

/-!
# A removed worker is forgotten

A removal clears the worker's own claims, rank by rank. It leaves the claims of
a pool that the worker fed, and a signalled task may still store after it.

- `forgetsGuard`: neither happens. What is cleared has no pool-owned claim, and
  a signalled task makes no further index call (`mutedGuard`).
- `Remembers`: the invariant. Every claim in an index is one of a tracked
  worker, or of a removal that has still to clear its rank.
- Under the guard, a target that no tracked worker and no running removal has
  is reported by no query.
-/

namespace VllmRouter.KvIndex

open KvIndexSupervisor GroupShard List Option Subscriber Dict

/-! ## Who has a target -/

/-- The worker has this source and rank, on this index. -/
def WorkerSubs.Serves (subs : WorkerSubs) (ref : IndexRef) (target : RoutableTarget) : Prop :=
  subs.indexer = ref ∧ subs.sourceId = target.instanceId ∧ target.dpRank ∈ subs.ranks

instance (subs : WorkerSubs) (ref : IndexRef) (target : RoutableTarget) :
    Decidable (subs.Serves ref target) :=
  inferInstanceAs (Decidable (_ ∧ _ ∧ _))

namespace KvIndexSupervisor

/-- A tracked worker has the target. -/
def Tracked (s : KvIndexSupervisor) (ref : IndexRef) (target : RoutableTarget) : Prop :=
  ∃ url subs, s.workers.lookup url = some subs ∧ subs.Serves ref target

/-- A removal in progress has still to clear the target. -/
def Leaving (s : KvIndexSupervisor) (ref : IndexRef) (target : RoutableTarget) : Prop :=
  ∃ rm ∈ s.removals, rm.subs.indexer = ref ∧ rm.subs.sourceId = target.instanceId ∧
    target.dpRank ∈ rm.left

end KvIndexSupervisor

/-! ## The condition -/

/-- A pool holds a block that is attributed to the target. -/
def KvBlockIndexer.poolHolds (idx : KvBlockIndexer) (target : RoutableTarget) : Bool :=
  idx.shards.values.any fun sh => sh.reverse.entries.any fun e =>
    decide (e.1.1.domain = .cacheOwner) && decide (e.1.1.target = target) && !e.2.isEmpty

/-- The steps considered: a signalled task makes no index call, a worker is not
added over a tracked one, and a rank is cleared when no pool holds a block of
it. -/
def forgetsGuard (env : SupervisorEnv) (s : KvIndexSupervisor) (e : SupervisorEvent) : Bool :=
  mutedGuard env s e &&
    match e with
    | .addFinish url _ => (s.workers.lookup url).isNone
    | .removeClear i =>
      match s.removals[i]? with
      | some ⟨subs, rank :: _⟩ =>
        match s.indexes[subs.indexer]? with
        | some idx => !idx.poolHolds ⟨subs.sourceId, rank⟩
        | none => true
      | _ => true
    | _ => true

/-- The batches of an event respect the contract on keys. -/
def SupervisorEvent.Respects (codec : Codec) (path : GroupPaths) : SupervisorEvent → Prop
  | .recv _ _ r => ∀ src batch, r.Carries codec src batch →
      batch.Respects codec src.source src.dpRank path
  | .replay _ r => ∀ src batch, r.Carries codec src batch →
      batch.Respects codec src.source src.dpRank path
  | _ => True

/-! ## The invariant -/

variable {t : Subscriber} {i : Nat} {subs : WorkerSubs}

section Invariant

variable (env : SupervisorEnv) (path : GroupPaths)

/-- The batches the task may apply: of its own rank, under the contract. -/
def Subscriber.Accepts (t : Subscriber) (batch : KVEventBatch) : Prop :=
  batch.Respects env.codec t.src.source t.src.dpRank path ∧
    (batch.dataParallelRank = none ∨ batch.dataParallelRank = some t.src.dpRank)

structure TaskSound (t : Subscriber) : Prop where
  pending : ∀ a ∈ t.pending, ActionOf env.codec t.src (t.Accepts env path) a
  aside : ∀ high through batch, t.task.phase = .replaying high through (some batch) →
    t.Accepts env path batch
  floored : t.task.Floored

/-- Every claim of the index belongs to a worker that is still to be removed. -/
def Accounted (s : KvIndexSupervisor) (ref : IndexRef) (idx : KvBlockIndexer) : Prop :=
  ∃ obs, Holds path idx obs ∧ ∀ g k seq, (k, seq) ∈ (obs g).active →
    s.Tracked ref k.1.target ∨ s.Leaving ref k.1.target

structure Remembers (s : KvIndexSupervisor) : Prop where
  indexes : ∀ (ref : IndexRef) idx, s.indexes[ref]? = some idx → Accounted path s ref idx
  tasks : ∀ (i : Nat) t, s.tasks[i]? = some t → TaskSound env path t
  tracked : ∀ (i : Nat) t, s.tasks[i]? = some t → t.signalled = false →
    ∃ url subs, s.workers.lookup url = some subs ∧ i ∈ subs.handles ∧
      subs.Serves t.indexer t.target

variable {env path} {s : KvIndexSupervisor}

lemma remembers_new : Remembers env path new where
  indexes ref idx h := by cases h
  tasks i t h := by cases h
  tracked i t h := by cases h

/-- A decoded batch is of the rank it was decoded for. -/
lemma decodeRanked_rank (h : decodeRanked codec dpRank payload = some batch) :
    batch.dataParallelRank = none ∨ batch.dataParallelRank = some dpRank := by
  obtain ⟨-, hrank⟩ := filter_eq_some_iff.1 h
  cases hr : batch.dataParallelRank with
  | none => exact .inl rfl
  | some =>
    simp only [hr, decide_eq_true_eq] at hrank
    exact .inr (congrArg some hrank)

/-- The calls of a task are on claims of its own target. -/
lemma TaskSound.touches (h : TaskSound env path t) (hc : .call c ∈ t.pending) (hk : c.Touches k) :
    k.1.target = t.target := by
  cases h.pending _ hc with
  | event hb hcall =>
    obtain ⟨ev, -, rfl⟩ := mem_map.1 hcall
    have htarget := eventCall_touches hk
    rcases hb.2 with hr | hr
    · rw [hr] at htarget
      exact htarget
    · rw [hr] at htarget
      exact htarget
  | discard => exact hk

/-! ## Steps of the tasks -/

/-- A task is replaced by one of the same worker. -/
lemma Remembers.setTask (h : Remembers env path s) (ht : s.tasks[i]? = some t)
    (hsound : TaskSound env path t') (hsrc : t'.src = t.src) (hidx : t'.indexer = t.indexer)
    (hsig : t'.signalled = t.signalled) :
    Remembers env path { s with tasks := s.tasks.set i t' } where
  indexes := h.indexes
  tasks j u hu := by
    rcases getElem?_set_cases hu with ⟨-, rfl⟩ | ⟨-, hu⟩
    · exact hsound
    · exact h.tasks j u hu
  tracked j u hu hu' := by
    rcases getElem?_set_cases hu with ⟨rfl, rfl⟩ | ⟨-, hu⟩
    · obtain ⟨url, subs, hsubs, hmem, _⟩ := h.tracked j t ht (hsig ▸ hu')
      refine ⟨url, subs, hsubs, hmem, ?_⟩
      rwa [hidx, target, hsrc]
    · exact h.tracked j u hu hu'

lemma TaskSound.begin (hfrom : plan.From env.codec t.src (t.Accepts env path))
    (hfloor : plan.task.Floored) : TaskSound env path (t.begin plan) where
  pending := hfrom.actions
  aside := hfrom.aside
  floored := hfloor

lemma Remembers.recv (h : Remembers env path s) (ht : s.tasks[i]? = some t)
    (hpoll : t.task.phase = .polling) (opening)
    (hkeys : (SupervisorEvent.recv i opening r).Respects env.codec path) :
    Remembers env path { s with
      tasks := s.tasks.set i (t.begin (receivePlan env.codec t.src t.task opening r)) } := by
  refine h.setTask ht (TaskSound.begin ?_ ?_) rfl rfl rfl
  · refine (receivePlan_from hpoll opening r).mono fun b hb => ⟨hkeys t.src b hb, ?_⟩
    obtain ⟨_, _, _, _, _, _, hdec⟩ := hb
    exact decodeRanked_rank hdec
  · exact receivePlan_floored (h.tasks i t ht).floored opening r

lemma Remembers.replay (h : Remembers env path s) (ht : s.tasks[i]? = some t)
    (hphase : t.task.phase = .replaying high through batch)
    (hkeys : (SupervisorEvent.replay i r).Respects env.codec path) : Remembers env path { s with
      tasks := s.tasks.set i
        (t.begin (replayReceivePlan env.codec t.src t.task high through batch r)) } := by
  have hsound := h.tasks i t ht
  refine h.setTask ht (TaskSound.begin ?_ ?_) rfl rfl rfl
  · refine (replayReceivePlan_from hphase (hsound.floored.2 _ _ _ hphase).1 r).mono ?_
    rintro b (hb | hb)
    · exact hsound.aside high through b (hb ▸ hphase)
    refine ⟨hkeys t.src b hb, ?_⟩
    obtain ⟨_, _, _, _, _, hdec⟩ := hb
    exact decodeRanked_rank hdec
  · exact replayReceivePlan_floored hsound.floored hphase r

variable {idx' idx : KvBlockIndexer} {url : String} {target : RoutableTarget}

section

variable (h : Remembers env path s)
include h

/-- An index is replaced by one whose claims are accounted for. -/
lemma Remembers.setIndex (hidx' : Accounted path s ref idx') :
    Remembers env path { s with indexes := s.indexes.set ref idx' } where
  indexes ref' idx hidx := by
    rcases getElem?_set_cases hidx with ⟨rfl, rfl⟩ | ⟨-, hidx⟩
    · exact hidx'
    · exact h.indexes ref' idx hidx
  tasks := h.tasks
  tracked := h.tracked

/-- A task of a tracked worker performs an action. -/
lemma Remembers.act (ht : s.tasks[i]? = some t) (hsig : t.signalled = false)
    (hpend : t.pending = a :: rest) (hidx : s.indexes[t.indexer]? = some idx)
    (hact : a.perform t.src idx = some idx') :
    Remembers env path { s with
      indexes := s.indexes.set t.indexer idx'
      tasks := s.tasks.set i (t.performed a rest) } := by
  have hsound := h.tasks i t ht
  have hmem : a ∈ t.pending := hpend ▸ mem_cons_self
  obtain ⟨obs, hobs, hclaims⟩ := h.indexes _ idx hidx
  obtain ⟨_, hrun, hobs'⟩ := hobs.perform t.src
    (actionOf_respects (fun _ hb => hb.1) (hsound.pending a hmem))
  obtain rfl := some.inj (hact.symm.trans hrun)
  have hacc : Accounted path s t.indexer idx' := by
    refine ⟨_, hobs', fun g k seq hk => ?_⟩
    cases a with
    | suspend
    | resume => exact hclaims g k seq hk
    | call c =>
      rcases (obs.mem_apply c g k seq).1 hk with ⟨hold, -⟩ | ⟨hst, -⟩
      · exact hclaims g k seq hold
      -- a stored claim is one of the task's own target
      rw [hsound.touches hmem hst.touches]
      obtain ⟨url, subs, hsubs, -, hserves⟩ := h.tracked i t ht hsig
      exact .inl ⟨url, subs, hsubs, hserves⟩
  have hsound' : TaskSound env path (t.performed a rest) :=
    ⟨fun b hb => hsound.pending b (hpend ▸ mem_cons_of_mem _ hb), hsound.aside, hsound.floored⟩
  exact (h.setIndex hacc).setTask ht hsound' rfl rfl rfl

/-! ## Steps of the supervisor -/

/-- A removal takes over what the worker had. -/
lemma Remembers.retire (hsubs : s.workers.lookup url = some subs) :
    Remembers env path { s with
      workers := s.workers.erase url
      tasks := signal s.tasks subs.handles
      removals := s.removals ++ [⟨subs, subs.ranks⟩] } where
  indexes ref idx hidx := by
    obtain ⟨obs, hobs, hclaims⟩ := h.indexes ref idx hidx
    refine ⟨obs, hobs, fun g k seq hk => ?_⟩
    rcases hclaims g k seq hk with ⟨url', subs', hsubs', hserves⟩ | ⟨rm, hrm, hleft⟩
    · by_cases hurl : url' = url
      · subst hurl
        obtain rfl := some.inj (hsubs.symm.trans hsubs')
        exact .inr ⟨_, mem_append_right _ (mem_singleton.2 rfl), hserves⟩
      refine .inl ⟨url', subs', ?_, hserves⟩
      rw [lookup_erase_eq, if_neg hurl]
      exact hsubs'
    · exact .inr ⟨rm, mem_append_left _ hrm, hleft⟩
  tasks j u hu := by
    obtain ⟨t, ht, rfl⟩ := getElem?_signal hu
    have hsound := h.tasks j t ht
    split
    · exact ⟨hsound.pending, hsound.aside, hsound.floored⟩
    · exact hsound
  tracked j u hu hsig := by
    obtain ⟨t, ht, rfl⟩ := getElem?_signal hu
    by_cases hj : j ∈ subs.handles
    · simp [if_pos hj] at hsig
    rw [if_neg hj] at hsig ⊢
    obtain ⟨url', subs', hsubs', hmem, hserves⟩ := h.tracked j t ht hsig
    refine ⟨url', subs', ?_, hmem, hserves⟩
    rw [lookup_erase_eq, if_neg]
    · exact hsubs'
    · rintro rfl
      exact hj (some.inj (hsubs.symm.trans hsubs') ▸ hmem)

/-- An identity is acquired; a fresh index has no claims. -/
lemma Remembers.acquire (hacq : s.acquireIdentity key = (s1, ref)) :
    Remembers env path s1 := by
  obtain ⟨hworkers, htasks, hremovals, hindexes⟩ := acquireIdentity_spec hacq
  have hsame : ∀ ref target, (s.Tracked ref target → s1.Tracked ref target) ∧
      (s.Leaving ref target → s1.Leaving ref target) := by
    intro _ _
    unfold Tracked Leaving
    rw [hworkers, hremovals]
    exact ⟨id, id⟩
  refine ⟨fun ref idx hidx => ?_, fun i t ht => h.tasks i t (htasks ▸ ht), fun i t ht hsig => ?_⟩
  · have hold : s.indexes[ref]? = some idx → Accounted path s1 ref idx := by
      intro hidx
      obtain ⟨obs, hobs, hclaims⟩ := h.indexes ref idx hidx
      exact ⟨obs, hobs, fun g k seq hk => (hclaims g k seq hk).imp (hsame _ _).1 (hsame _ _).2⟩
    rcases hindexes with heq | heq
    · exact hold (heq ▸ hidx)
    rw [heq] at hidx
    rcases getElem?_append_cases hidx with hidx | ⟨n, -, hnew⟩
    · exact hold hidx
    · obtain rfl := mem_singleton.1 (mem_of_getElem? hnew)
      exact ⟨_, holds_new path, fun g k seq hk => hk.elim⟩
  · rw [htasks] at ht
    rw [hworkers]
    exact h.tracked i t ht hsig

end

lemma tasks_track (hurl : s.workers.lookup url = none) (key sourceId ref sources) :
    (s.track url key sourceId ref sources).tasks
      = s.tasks ++ sources.map (spawn ref) := by
  simp only [KvIndexSupervisor.track, hurl]
  exact signal_nil _

/-- A task is an old one, or the fresh task of a source. -/
lemma getElem?_track (hurl : s.workers.lookup url = none)
    (ht : (s.track url key sourceId ref sources).tasks[i]? = some t) : s.tasks[i]? = some t ∨
      ∃ n src, i = s.tasks.length + n ∧ sources[n]? = some src ∧ t = spawn ref src := by
  rw [tasks_track hurl] at ht
  rcases getElem?_append_cases ht with hold | ⟨n, hn, hnew⟩
  · exact .inl hold
  rw [getElem?_map] at hnew
  obtain ⟨src, hsrc, rfl⟩ := map_eq_some_iff.1 hnew
  exact .inr ⟨n, src, hn, hsrc, rfl⟩

/-- A worker that was not tracked is tracked, with its fresh tasks. -/
lemma Remembers.track (h : Remembers env path s) (hurl : s.workers.lookup url = none)
    (key sourceId ref) (hsources : ∀ src ∈ sources, src.source = sourceId) :
    Remembers env path (s.track url key sourceId ref sources) := by
  have hlookup : ∀ url' subs, s.workers.lookup url' = some subs →
      (s.track url key sourceId ref sources).workers.lookup url' = some subs := by
    intro url' _ hsubs
    have hne : url' ≠ url := by
      rintro rfl
      rw [hurl] at hsubs
      cases hsubs
    simp only [KvIndexSupervisor.track]
    rw [lookup_insert_eq, if_neg hne]
    exact hsubs
  refine ⟨fun ref' idx hidx => ?_, fun i t ht => ?_, fun i t ht hsig => ?_⟩
  · obtain ⟨obs, hobs, hclaims⟩ := h.indexes ref' idx hidx
    refine ⟨obs, hobs, fun g k seq hk => ?_⟩
    rcases hclaims g k seq hk with ⟨url', subs, hsubs, hserves⟩ | hleft
    · exact .inl ⟨url', subs, hlookup url' subs hsubs, hserves⟩
    · exact .inr hleft
  · rcases getElem?_track hurl ht with hold | ⟨_, _, -, -, rfl⟩
    · exact h.tasks i t hold
    · exact ⟨fun a ha => absurd ha List.not_mem_nil, nofun, le_rfl, nofun⟩
  rcases getElem?_track hurl ht with hold | ⟨n, src, rfl, hsrc, rfl⟩
  · obtain ⟨url', subs, hsubs, hmem, hserves⟩ := h.tracked i t hold hsig
    exact ⟨url', subs, hlookup url' subs hsubs, hmem, hserves⟩
  have hmem := List.mem_of_getElem? hsrc
  have hlt : n < sources.length := (List.getElem?_eq_some_iff.1 hsrc).1
  refine ⟨url, _, AList.lookup_insert _, ?_, rfl, (hsources src hmem).symm, ?_⟩
  · exact List.mem_map.2 ⟨n, List.mem_range.2 hlt, rfl⟩
  · exact List.mem_map.2 ⟨src, hmem, rfl⟩

lemma poolHolds_false (h : idx.poolHolds target = false) (hact : (idx.shard g).Active k seq)
    (hk : k.1.target = target) : k.1.domain = .worker := by
  unfold KvBlockIndexer.shard at hact
  cases hsh : idx.shards.lookup g with
  | none =>
    rw [hsh] at hact
    cases hact
  | some sh =>
    rw [hsh] at hact
    cases hrev : sh.reverse.lookup k with
    | none => simp [Active, hrev] at hact
    | some seqs =>
      have hne : seqs.isEmpty = false := by
        simp only [Active, getD_some, hrev] at hact
        cases seqs with
        | nil => cases hact
        | cons => rfl
      have hall := any_eq_false.1 h sh ((mem_values_iff _ sh).2 ⟨g, hsh⟩)
      have hentry := any_eq_false.1 (Bool.eq_false_iff.2 hall) ⟨k, seqs⟩
        ((mem_entries_iff _ k seqs).2 hrev)
      cases howner : k.1 with
      | worker => rfl
      | cacheOwner =>
        rw [howner] at hk
        simp [howner, ResidencyOwner.domain, hk, hne] at hentry

/-- Clearing a rank that no pool holds leaves no claim of it. -/
lemma Remembers.clear (h : Remembers env path s)
    (hrm : s.removals[i]? = some ⟨subs, rank :: left⟩) (hidx : s.indexes[subs.indexer]? = some idx)
    (hpool : idx.poolHolds ⟨subs.sourceId, rank⟩ = false)
    (hcall : idx.call (.clear (.worker subs.sourceId rank 0) .worker) = some idx') :
    Remembers env path { s with
      indexes := s.indexes.set subs.indexer idx'
      removals := s.removals.set i ⟨subs, left⟩ } := by
  -- what is left to clear, but for the rank just cleared
  have hleaving : ∀ ref target, s.Leaving ref target →
      (ref = subs.indexer ∧ target = ⟨subs.sourceId, rank⟩) ∨
      (∃ rm ∈ s.removals.set i ⟨subs, left⟩, rm.subs.indexer = ref ∧
        rm.subs.sourceId = target.instanceId ∧ target.dpRank ∈ rm.left) := by
    rintro _ target ⟨rm, hmem, href, hsource, hrank⟩
    obtain ⟨j, hj⟩ := List.mem_iff_getElem?.1 hmem
    by_cases hji : j = i
    · subst hji
      obtain rfl := some.inj (hrm.symm.trans hj)
      rcases List.mem_cons.1 hrank with heq | hin
      · refine .inl ⟨href.symm, ?_⟩
        cases target
        simp only at hsource heq
        rw [hsource, heq]
      · have hlt := (List.getElem?_eq_some_iff.1 hrm).1
        exact .inr ⟨⟨subs, left⟩, List.mem_set hlt _, href, hsource, hin⟩
    · refine .inr ⟨rm, List.mem_iff_getElem?.2 ⟨j, ?_⟩, href, hsource, hrank⟩
      rw [List.getElem?_set_ne (Ne.symm hji)]
      exact hj
  refine ⟨fun ref idx1 hidx1 => ?_, h.tasks, h.tracked⟩
  rcases getElem?_set_cases hidx1 with ⟨rfl, rfl⟩ | ⟨hne, hold⟩
  · obtain ⟨obs, hobs, hclaims⟩ := h.indexes _ idx hidx
    obtain ⟨_, hrun, -, hobs'⟩ := hobs.call (c := .clear (.worker subs.sourceId rank 0) .worker)
      trivial
    obtain rfl := some.inj (hcall.symm.trans hrun)
    refine ⟨_, hobs', fun g k seq hk => ?_⟩
    rcases (obs.mem_apply _ g k seq).1 hk with ⟨hactive, hkept⟩ | ⟨hst, -⟩
    · rcases hclaims g k seq hactive with htracked | hleft
      · exact .inl htracked
      rcases hleaving _ _ hleft with ⟨-, htarget⟩ | hleft
      · -- a claim of the cleared rank is the worker's own, so it is gone
        refine absurd ?_ hkept
        have hact := ((hobs.observes.observes g).active k seq).2 hactive
        have hdomain := poolHolds_false hpool hact htarget
        obtain ⟨owner, _⟩ := k
        cases owner with
        | worker =>
          obtain ⟨rfl, rfl⟩ := RoutableTarget.mk.inj htarget
          exact ⟨rfl, rfl, by decide⟩
        | cacheOwner => cases hdomain
      · exact .inr hleft
    · exact hst.elim
  · obtain ⟨obs, hobs, hclaims⟩ := h.indexes ref idx1 hold
    refine ⟨obs, hobs, fun g k seq hk => ?_⟩
    rcases hclaims g k seq hk with htracked | hleft
    · exact .inl htracked
    rcases hleaving _ _ hleft with ⟨href, -⟩ | hleft
    · exact absurd href hne
    · exact .inr hleft

/-- A removal with nothing left to clear ends. -/
lemma Remembers.finish (h : Remembers env path s) (hrm : s.removals[i]? = some ⟨subs, []⟩) :
    Remembers env path { s.releaseIdentity subs.key with removals := s.removals.eraseIdx i } := by
  obtain ⟨hworkers, htasks, -, hindexes⟩ := releaseIdentity_spec s subs.key
  refine ⟨fun ref idx hidx => ?_, fun j t ht => h.tasks j t (htasks ▸ ht), fun j t ht hsig => ?_⟩
  · obtain ⟨obs, hobs, hclaims⟩ := h.indexes ref idx (hindexes ▸ hidx)
    refine ⟨obs, hobs, fun g k seq hk => ?_⟩
    rcases hclaims g k seq hk with ⟨url, subs', hsubs', hserves⟩ | ⟨rm, hmem, href, hsrc, hrank⟩
    · exact .inl ⟨url, subs', by rw [hworkers]; exact hsubs', hserves⟩
    refine .inr ⟨rm, ?_, href, hsrc, hrank⟩
    obtain ⟨j, hj⟩ := mem_iff_getElem?.1 hmem
    refine mem_eraseIdx_iff_getElem?.2 ⟨j, ?_, hj⟩
    rintro rfl
    obtain rfl := some.inj (hrm.symm.trans hj)
    cases hrank
  · rw [htasks] at ht
    rw [hworkers]
    exact h.tracked j t ht hsig

/-- **One step** under the guard keeps the invariant. -/
lemma step_remembers (hkeys : e.Respects env.codec path) (hguard : forgetsGuard env s e = true)
    (h : Remembers env path s) :
    Remembers env path (s.step env e) := by
  unfold forgetsGuard at hguard
  rw [Bool.and_eq_true] at hguard
  have hsup := step_supervises env s e
  generalize s.step env e = s' at hsup
  cases hsup with
  | idle => exact h
  | retire he hsubs => exact h.retire hsubs
  | acquire hacq => exact h.acquire hacq
  | track hsettle hacq =>
    rename_i url _ key sourceId entries ref s1
    have hurl : s1.workers.lookup url = none := by
      rw [(acquireIdentity_spec hacq).1]
      exact isNone_iff_eq_none.1 hguard.2
    exact (h.acquire hacq).track hurl key sourceId ref fun src hsrc => eventSources_source hsrc
  | clear hrm hidx hcall =>
    have hpool := hguard.2
    simp only [hrm, hidx, Bool.not_eq_true'] at hpool
    exact h.clear hrm hidx hpool hcall
  | finish hrm => exact h.finish hrm
  | connect ht hrun hconn
  | stop ht hrun hconn hsig
  | poll ht hrun hconn hsig =>
    have hsound := h.tasks _ _ ht
    exact h.setTask ht ⟨hsound.pending, hsound.aside, hsound.floored⟩ rfl rfl rfl
  | recv ht hrun hpolled hidle hpoll => exact h.recv ht hpoll _ hkeys
  | replay ht hrun hidle hphase => exact h.replay ht hphase hkeys
  | act ht hrun hpend hidx hact =>
    have hmuted := hguard.1
    simp only [mutedGuard, ht, Bool.not_eq_true'] at hmuted
    exact h.act ht hmuted hpend hidx hact

/-- **A removed worker is forgotten.** In every history whose steps meet the
condition and whose batches respect the contract on keys, a target that no
tracked worker has and no removal has still to clear is in no answer of the
index it was on. -/
theorem removed_worker_forgotten {es : List SupervisorEvent}
    (hkeys : ∀ e ∈ es, e.Respects env.codec path)
    (hguard : guardedRun (step env) (forgetsGuard env) new es = true) {ref : IndexRef}
    (hidx : (run env es).indexes[ref]? = some idx) (htracked : ¬ (run env es).Tracked ref target)
    (hleaving : ¬ (run env es).Leaving ref target) (query : MatchQuery) :
    ∃ ms, idx.findMatches query = some ms ∧ ∀ m ∈ ms, m.target ≠ target := by
  have hstep : ∀ s e, e.Respects env.codec path → forgetsGuard env s e = true →
      Remembers env path s → Remembers env path (s.step env e) :=
    fun s e hk hg hs => step_remembers hk hg hs
  have h : Remembers env path (run env es) :=
    foldl_guarded_of_forall hstep es new hkeys hguard remembers_new
  obtain ⟨_, hobs, hclaims⟩ := h.indexes ref idx hidx
  obtain ⟨ms, -, -, hfind⟩ := hobs.findMatches query
  refine ⟨_, hfind, hobs.findMatches_unclaimed hfind fun k seq hk hmem => ?_⟩
  rcases hclaims _ k seq hmem with ht | hl
  · exact htracked (hk ▸ ht)
  · exact hleaving (hk ▸ hl)

end Invariant

/-! ## A worker that lingers

Two workers of one identity share an index; one of them is removed. -/

/-- Block 1, stored for a pool. -/
def pooledEvent : KVEvent :=
  .blockStored ⟨[.int 1], none, [1], 1, none, none, none, some "pool"⟩

/-- Payload `0` stores for a pool, payload `1` for the worker itself. -/
def sharedEnv : SupervisorEnv where
  codec := {
    fromSlice := fun payload => match payload with
      | [0] => some ⟨[pooledEvent], none⟩
      | [1] => some ⟨[storedEvent none 1], none⟩
      | _ => none
    sha256 := id }
  hashMode := .sha256
  workerHost := fun _ => none

/-- A worker with one rank, of the one model. -/
def discovered (instanceId : String) : WorkerDiscovery :=
  ⟨some ⟨some instanceId, some 1, none⟩,
    some [("0", ⟨"tcp://*:5557", none, some "zmq", some "msgpack", some 1, none⟩)],
    some (some "m")⟩

/-- The workers `v` and `w` are added, and the task of `w` receives the payload
at position 0. -/
def sharedStart (payload : UInt8) : List SupervisorEvent :=
  [.addBegin "v", .addFinish "v" (discovered "v"), .addBegin "w", .addFinish "w" (discovered "w"),
    .connect 1 true, .check 1, .recv 1 .opened (.frames [[], seqBytes 0, [payload]])]

/-- The removal of `w`. -/
def removeW : List SupervisorEvent := [.removeBegin "w", .removeClear 0, .removeFinish 0]

/-- `w` is removed and its task has stopped. -/
def Departed (s : KvIndexSupervisor) : Prop :=
  (∀ subs ∈ s.workers.values, ¬ subs.Serves 0 ⟨"w", 0⟩) ∧ s.removals = [] ∧
    ∀ t ∈ s.tasks, t.target = ⟨"w", 0⟩ → t.stopped = true

instance (s : KvIndexSupervisor) : Decidable (Departed s) :=
  inferInstanceAs (Decidable (_ ∧ _ ∧ _))

/-- A query for block 1, at every tier. -/
def blockQuery : MatchQuery := ⟨0, ["01000000"], [.device, .hostPinned, .disk, .external]⟩

/-- The answer of the shared index. -/
def sharedAnswer (s : KvIndexSupervisor) : Option (List TierMatch) :=
  s.indexes[0]?.bind fun idx => idx.findMatches blockQuery

/-- The block of a pool stays attributed to the removed worker, and a batch that
the task was applying is stored after the clear. In both runs `v` keeps the
index alive. -/
theorem removed_worker_lingers :
    (Departed (run sharedEnv (sharedStart 0 ++ [.act 1] ++ removeW ++ [.check 1])) ∧
      sharedAnswer (run sharedEnv (sharedStart 0 ++ [.act 1] ++ removeW ++ [.check 1]))
        = some [⟨⟨"w", 0⟩, .external, [(0, 1)], .remote⟩]) ∧
    (Departed (run sharedEnv (sharedStart 1 ++ removeW ++ [.act 1, .check 1])) ∧
      sharedAnswer (run sharedEnv (sharedStart 1 ++ removeW ++ [.act 1, .check 1]))
        = some [⟨⟨"w", 0⟩, .device, [(0, 1)], .local⟩]) := by
  decide +kernel

/-- The batch is applied before the removal, and the task then finds its socket
empty and stops. -/
def quietHistory : List SupervisorEvent :=
  sharedStart 1 ++ [.act 1, .check 1] ++ removeW ++ [.recv 1 .opened .eagain, .check 1]

def quietPath : GroupPaths := fun _ s => if s = "i:1" then ["01000000"] else []

lemma quietHistory_respects : ∀ e ∈ quietHistory, e.Respects sharedEnv.codec quietPath := by
  intro e he
  simp only [quietHistory, sharedStart, removeW, cons_append, nil_append, mem_cons,
    not_mem_nil, or_false] at he
  rcases he with rfl | rfl | rfl | rfl | rfl | rfl | rfl | rfl | rfl | rfl | rfl | rfl | rfl | rfl
  case inr.inr.inr.inr.inr.inr.inl =>
    rintro _ _ ⟨_, _, _, hframes, hframe, -, hdec⟩
    obtain rfl := LiveRecv.frames.inj hframes
    rw [liveFrame_seqBytes] at hframe
    cases hframe
    obtain ⟨hslice, -⟩ := filter_eq_some_iff.1 hdec
    obtain rfl := some.inj hslice
    intro _ _ hc
    obtain ⟨ev, hev, rfl⟩ := mem_map.1 hc
    obtain rfl := mem_singleton.1 hev
    exact storedEvent_respects rfl (by decide +kernel)
  case inr.inr.inr.inr.inr.inr.inr.inr.inr.inr.inr.inr.inl =>
    rintro _ _ ⟨_, _, _, hframes, -⟩
    cases hframes
  all_goals trivial

/-- The block of `w` is reported while it is tracked, and not after. -/
theorem removed_worker_forgotten_quiet : sharedAnswer (run sharedEnv (sharedStart 1 ++ [.act 1]))
        = some [⟨⟨"w", 0⟩, .device, [(0, 1)], .local⟩] ∧
      guardedRun (step sharedEnv) (forgetsGuard sharedEnv) new quietHistory = true ∧
      Departed (run sharedEnv quietHistory) ∧
      ∃ idx, (run sharedEnv quietHistory).indexes[0]? = some idx ∧
        ∀ query, ∃ ms, idx.findMatches query = some ms ∧ ∀ m ∈ ms, m.target ≠ ⟨"w", 0⟩ := by
  have hguard : guardedRun (step sharedEnv) (forgetsGuard sharedEnv) new quietHistory = true := by
    decide +kernel
  have hdeparted : Departed (run sharedEnv quietHistory) := by decide +kernel
  obtain ⟨idx, hidx⟩ := isSome_iff_exists.1
    (show ((run sharedEnv quietHistory).indexes[0]?).isSome by decide +kernel)
  refine ⟨by decide +kernel, hguard, hdeparted, idx, hidx, fun query => ?_⟩
  refine removed_worker_forgotten quietHistory_respects hguard hidx ?_ ?_ query
  · rintro ⟨url, subs, hsubs, hserves⟩
    exact hdeparted.1 subs ((mem_values_iff _ subs).2 ⟨url, hsubs⟩) hserves
  · rintro ⟨rm, hrm, -⟩
    cases hrm

end VllmRouter.KvIndex
