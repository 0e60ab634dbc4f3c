import VllmRouter.KvIndex.Removal

/-!
# Suspension and the subscriber's flag

A suspended source is recorded twice: in the `suspended` variable of its task,
which resumes the source when the gap is repaired, and in the index, which
hides the source's hits until then. The variable dies with the task, the entry
in the index does not.

- `alignsGuard`: a worker leaves only while none of its tasks is suspended, a
  signalled task makes no index call, and a worker is added only when no task
  of its sources still runs on the index.
- `Aligned`: the invariant. A source is suspended in an index exactly when the
  variable of its running task says so (`Agree`).
- Under the guard, a task whose variable is false has its hits reported, and a
  contiguous batch leaves the variable false.
-/

namespace VllmRouter.KvIndex

open KvIndexSupervisor List KvBlockIndexer EventSource Bool

/-! ## What an action does to the suspended sources -/

variable {workers : Dict String WorkerSubs} {idx' : KvBlockIndexer}

section Suspended

variable {idx idx' : KvBlockIndexer}

lemma onShard_suspendedSources (h : idx.onShard groupIdx op = some idx') :
    idx'.suspendedSources = idx.suspendedSources := by
  obtain ⟨sh, -, heq⟩ := Option.bind_eq_some_iff.1 h
  obtain rfl := Option.some.inj heq
  rfl

lemma onShards_suspendedSources (h : idx.onShards op = some idx') :
    idx'.suspendedSources = idx.suspendedSources := by
  have hstep : ∀ (b : KvBlockIndexer) (g : Nat) b', b.onShard g op = some b' →
      b.suspendedSources = idx.suspendedSources → b'.suspendedSources = idx.suspendedSources :=
    fun _ _ _ hrun heq => (onShard_suspendedSources hrun).trans heq
  exact foldlM_invariant hstep _ idx idx' h rfl

/-- Calls on the shards suspend and resume nothing. -/
lemma call_suspendedSources (h : idx.call c = some idx') :
    idx'.suspendedSources = idx.suspendedSources := by
  cases c with
  | store groupIdx owner tier parentSeq blocks =>
    have h : idx.onShard groupIdx (fun sh => sh.store owner tier parentSeq blocks) = some idx' := h
    exact onShard_suspendedSources h
  | remove groupIdx owner tier seqHashes =>
    have h : idx.onShard groupIdx (fun sh => sh.remove owner tier seqHashes) = some idx' := h
    exact onShard_suspendedSources h
  | clear owner scope
  | clearSource => exact onShards_suspendedSources h

/-- An action changes the entry of its own source as it changes the task's
variable. -/
lemma perform_isSuspended {a : TaskAction} (h : a.perform src idx = some idx')
    (target : RoutableTarget) :
    idx'.isSuspended target.instanceId target.dpRank = if target = ⟨src.source, src.dpRank⟩
        then a.flag (idx.isSuspended target.instanceId target.dpRank)
        else idx.isSuspended target.instanceId target.dpRank := by
  have hkey : (target.instanceId, target.dpRank) = (src.source, src.dpRank) ↔
      target = ⟨src.source, src.dpRank⟩ := by
    cases target
    simp
  cases a with
  | call => simp [isSuspended, call_suspendedSources h, TaskAction.flag]
  | suspend =>
    obtain rfl := Option.some.inj h
    simp only [isSuspended, suspendSource, Dict.lookup_insert_eq, hkey]
    split <;> rfl
  | resume =>
    obtain rfl := Option.some.inj h
    simp only [isSuspended, resumeSource, Dict.lookup_erase_eq, hkey]
    split <;> rfl

end Suspended

/-! ## The condition -/

/-- The task runs on the index for this target. -/
def Subscriber.RunsOn (t : Subscriber) (ref : IndexRef) (target : RoutableTarget) : Prop :=
  t.stopped = false ∧ t.indexer = ref ∧ t.target = target

instance (t : Subscriber) (ref : IndexRef) (target : RoutableTarget) :
    Decidable (t.RunsOn ref target) :=
  inferInstanceAs (Decidable (_ ∧ _ ∧ _))

/-- The steps considered: a signalled task makes no index call, a worker leaves
while none of its tasks is suspended, and it is added with distinct ranks when
it is not tracked and no task of its sources runs on the index it gets. -/
def alignsGuard (env : SupervisorEnv) (s : KvIndexSupervisor) (e : SupervisorEvent) : Bool :=
  mutedGuard env s e &&
    match e with
    | .addBegin url => leaves url
    | .removeBegin url => leaves url
    | .addFinish url d =>
      (s.workers.lookup url).isNone &&
        match settle env url d with
        | .inl _ => true
        | .inr (key, sourceId, entries) =>
          match (s.acquireIdentity key).2 with
          | none => true
          | some ref =>
            let sources := eventSources env url sourceId entries
            decide (sources.map dpRank).Nodup &&
              sources.all fun src =>
                s.tasks.all fun t => !decide (t.RunsOn ref ⟨src.source, src.dpRank⟩)
    | _ => true
where
  leaves (url : String) : Bool :=
    match s.workers.lookup url with
    | some subs => subs.handles.all fun i => (s.tasks[i]?.map fun t => !t.task.suspended).getD true
    | none => true

/-! ## The invariant -/

/-- What a running task answers for: its target on its index, and its variable. -/
def Subscriber.entry (t : Subscriber) : Option ((IndexRef × RoutableTarget) × Bool) :=
  if t.stopped then none else some ((t.indexer, t.target), t.task.suspended)

def entriesOf (tasks : List Subscriber) (i : Nat) : Option ((IndexRef × RoutableTarget) × Bool) :=
  tasks[i]?.bind Subscriber.entry

/-- A source is suspended exactly when the variable of its running task says so, and no
two running tasks have one source. -/
structure Agree (entries : Nat → Option ((IndexRef × RoutableTarget) × Bool))
    (indexes : List KvBlockIndexer) : Prop where
  shown : ∀ (k : IndexRef × RoutableTarget) idx, indexes[k.1]? = some idx →
    (idx.isSuspended k.2.instanceId k.2.dpRank = true ↔ ∃ i, entries i = some (k, true))
  unique : ∀ i j k b c, entries i = some (k, b) → entries j = some (k, c) → i = j

/-- A signalled task is not suspended, one without a connection has done nothing, and the
index is one of `n`. -/
structure Subscriber.Ok (n : Nat) (t : Subscriber) : Prop where
  muted : t.signalled = true → t.task.suspended = false
  fresh : t.connected = false → t.task = Task.init ∧ t.pending = [] ∧ t.polled = false
  bound : t.indexer < n

structure Aligned (s : KvIndexSupervisor) : Prop where
  agree : Agree (entriesOf s.tasks) s.indexes
  tasks : ∀ t ∈ s.tasks, t.Ok s.indexes.length
  heaped : s.Heaped

variable {i : Nat} {removals : List Removal} {idx : KvBlockIndexer} {ref : IndexRef}

section Agree

variable {entries : Nat → Option ((IndexRef × RoutableTarget) × Bool)}
  {indexes indexes' : List KvBlockIndexer} {k : IndexRef × RoutableTarget} {b : Bool}
  {tasks : List Subscriber} {t : Subscriber}

lemma Agree.flag (h : Agree entries indexes) (hi : entries i = some (k, b))
    (hidx : indexes[k.1]? = some idx) : idx.isSuspended k.2.instanceId k.2.dpRank = b := by
  have hshown := h.shown k idx hidx
  cases b with
  | true => exact hshown.2 ⟨i, hi⟩
  | false =>
    refine eq_false_iff.2 fun htrue => ?_
    obtain ⟨j, hj⟩ := hshown.1 htrue
    obtain rfl := h.unique i j k _ _ hi hj
    cases hi.symm.trans hj

/-- One task changes its variable or stops, and the entry of its source with it. -/
lemma Agree.update (h : Agree entries indexes) (hi : entries i = some (k, b))
    (hentry : ∀ k' c, entry = some (k', c) → k' = k)
    (hindexes : ∀ k' idx', indexes'[k'.1]? = some idx' →
      ∃ idx, indexes[k'.1]? = some idx ∧ idx'.isSuspended k'.2.instanceId k'.2.dpRank
        = if k' = k then decide (entry = some (k, true))
          else idx.isSuspended k'.2.instanceId k'.2.dpRank) :
    Agree (Function.update entries i entry) indexes' := by
  have hother : ∀ j k' c, k' ≠ k →
      (Function.update entries i entry j = some (k', c) ↔ entries j = some (k', c)) := by
    intro j k' c hk
    by_cases hj : j = i
    · subst hj
      rw [Function.update_self, hi]
      exact iff_of_false (fun h => hk (hentry k' c h))
        fun h => hk (Prod.mk.inj (Option.some.inj h)).1.symm
    · rw [Function.update_of_ne hj]
  have hown : ∀ j c, Function.update entries i entry j = some (k, c) → j = i := by
    intro j c hc
    by_contra hj
    rw [Function.update_of_ne hj] at hc
    exact hj (h.unique j i k c b hc hi)
  constructor
  · intro k' idx' hidx'
    obtain ⟨idx, hidx, heq⟩ := hindexes k' idx' hidx'
    rw [heq]
    split
    · rename_i hk
      subst hk
      rw [decide_eq_true_iff]
      constructor
      · exact fun h => ⟨i, by rw [Function.update_self, h]⟩
      rintro ⟨j, hj⟩
      obtain rfl := hown j true hj
      rw [Function.update_self] at hj
      exact hj
    · rename_i hk
      rw [h.shown k' idx hidx]
      exact exists_congr fun j => (hother j k' true hk).symm
  · intro j j' k' c c' hj hj'
    by_cases hk : k' = k
    · subst hk
      exact (hown j c hj).trans (hown j' c' hj').symm
    · exact h.unique j j' k' c c' ((hother j k' c hk).1 hj) ((hother j' k' c' hk).1 hj')

lemma entry_running (hrun : t.stopped = false) :
    t.entry = some ((t.indexer, t.target), t.task.suspended) := by
  unfold Subscriber.entry
  rw [hrun]
  rfl

lemma entriesOf_eq (ht : tasks[i]? = some t) : entriesOf tasks i = t.entry := by
  unfold entriesOf
  rw [ht]
  rfl

lemma runsOn_of_entry (h : entriesOf tasks i = some (k, b)) : ∃ t ∈ tasks, t.RunsOn k.1 k.2 := by
  obtain ⟨t, ht, hentry⟩ := Option.bind_eq_some_iff.1 h
  unfold Subscriber.entry at hentry
  split at hentry
  · cases hentry
  rename_i hrun
  cases hentry
  exact ⟨t, mem_of_getElem? ht, eq_false_iff.2 hrun, rfl, rfl⟩

lemma entriesOf_set (ht : tasks[i]? = some t) (t' : Subscriber) :
    entriesOf (tasks.set i t') = Function.update (entriesOf tasks) i t'.entry := by
  funext j
  by_cases hj : j = i
  · subst hj
    rw [Function.update_self]
    exact entriesOf_eq (List.getElem?_set_self (List.getElem?_eq_some_iff.1 ht).1)
  rw [Function.update_of_ne hj]
  unfold entriesOf
  rw [List.getElem?_set_ne (Ne.symm hj)]

end Agree

section Steps

variable {env : SupervisorEnv} {s : KvIndexSupervisor} {t t' : Subscriber}

lemma aligned_new : Aligned new where
  agree := ⟨nofun, nofun⟩
  tasks t h := by cases h
  heaped key ref h := by cases h

section

variable (h : Aligned s)
include h

section

variable (ht : s.tasks[i]? = some t)
include ht

lemma Aligned.flag (hrun : t.stopped = false) (hidx : s.indexes[t.indexer]? = some idx) :
    idx.isSuspended t.src.source t.src.dpRank = t.task.suspended :=
  h.agree.flag ((entriesOf_eq ht).trans (entry_running hrun)) hidx

lemma Aligned.task : t.Ok s.indexes.length := h.tasks t (mem_of_getElem? ht)

/-- One task changes, but not its source or its variable. -/
lemma Aligned.setTask (hsame : t'.entry = t.entry) (hok : t'.Ok s.indexes.length) :
    Aligned { s with tasks := s.tasks.set i t' } := by
  refine ⟨?_, forall_mem_set h.tasks hok, h.heaped⟩
  show Agree (entriesOf (s.tasks.set i t')) s.indexes
  rw [entriesOf_set ht, hsame, ← entriesOf_eq ht, Function.update_eq_self]
  exact h.agree

/-- A connected task begins a plan; its variable changes with the actions. -/
lemma Aligned.begin (hconn : t.connected ≠ false) (plan : Plan) :
    Aligned { s with tasks := s.tasks.set i (t.begin plan) } :=
  h.setTask ht rfl ⟨(h.task ht).muted, fun hc => absurd hc hconn, (h.task ht).bound⟩

/-- A task that is not suspended stops: its source is free again. -/
lemma Aligned.stopTask (hrun : t.stopped = false) (hsusp : t.task.suspended = false)
    (ht' : t' = { t with stopped := true }) :
    Aligned { s with tasks := s.tasks.set i t' } := by
  subst ht'
  refine ⟨?_, forall_mem_set h.tasks ⟨(h.task ht).muted, (h.task ht).fresh, (h.task ht).bound⟩,
    h.heaped⟩
  show Agree (entriesOf (s.tasks.set i _)) s.indexes
  rw [entriesOf_set ht]
  refine h.agree.update ((entriesOf_eq ht).trans (entry_running hrun)) (fun _ _ hnone => ?_)
    fun k idx hidx => ⟨idx, hidx, ?_⟩
  · cases hnone
  split
  · rename_i hk
    subst hk
    exact (h.flag ht hrun hidx).trans hsusp
  · rfl

/-- A running task performs an action: its variable and its entry move together. -/
lemma Aligned.act (hrun : t.stopped = false) (hsig : t.signalled = false)
    (hpend : t.pending = a :: rest) (hidx : s.indexes[t.indexer]? = some idx)
    (hact : a.perform t.src idx = some idx') :
    Aligned { s with
      indexes := s.indexes.set t.indexer idx'
      tasks := s.tasks.set i (t.performed a rest) } := by
  have hentry : (t.performed a rest).entry
      = some ((t.indexer, t.target), a.flag t.task.suspended) := entry_running hrun
  refine ⟨?_, ?_, fun key r hr => ?_⟩
  · show Agree (entriesOf (s.tasks.set i _)) (s.indexes.set t.indexer idx')
    rw [entriesOf_set ht]
    refine h.agree.update ((entriesOf_eq ht).trans (entry_running hrun)) (fun k c hk => ?_) ?_
    · cases hentry.symm.trans hk
      rfl
    rintro ⟨_, target⟩ idx1 hidx1
    rcases getElem?_set_cases hidx1 with ⟨rfl, rfl⟩ | ⟨hne, hold⟩
    · refine ⟨idx, hidx, (perform_isSuspended hact target).trans ?_⟩
      by_cases htarget : target = t.target
      · subst htarget
        rw [hentry]
        refine (if_pos rfl).trans ((congrArg a.flag (h.flag ht hrun hidx)).trans ?_)
        simp
      · rw [if_neg fun heq => htarget (Prod.mk.inj heq).2]
        exact if_neg htarget
    · exact ⟨idx1, hold, (if_neg fun heq => hne (Prod.mk.inj heq).1).symm⟩
  · rw [length_set]
    refine forall_mem_set h.tasks ⟨fun hus => ?_, fun huc => ?_, (h.task ht).bound⟩
    · cases hsig.symm.trans hus
    · cases hpend.symm.trans ((h.task ht).fresh huc).2.1
  · rw [length_set]
    exact h.heaped key r hr

end

/-- An index is replaced by one with the same suspended sources. -/
lemma Aligned.setIndex (hidx : s.indexes[ref]? = some idx)
    (hsame : idx'.suspendedSources = idx.suspendedSources) :
    Aligned { s with indexes := s.indexes.set ref idx', removals := removals } := by
  refine ⟨⟨fun k idx1 hidx1 => ?_, h.agree.unique⟩, ?_, fun key r hr => ?_⟩
  · rcases getElem?_set_cases hidx1 with ⟨hk, rfl⟩ | ⟨-, hold⟩
    · rw [← h.agree.shown k idx (hk ▸ hidx), isSuspended, isSuspended, hsame]
    · exact h.agree.shown k idx1 hold
  · rw [length_set]
    exact h.tasks
  · rw [length_set]
    exact h.heaped key r hr

/-- A worker without suspended tasks leaves. -/
lemma Aligned.retire (hleaves : ∀ i ∈ handles, ∀ t, s.tasks[i]? = some t → t.task.suspended =
    false) :
    Aligned { s with
      workers := workers
      tasks := signal s.tasks handles
      removals := removals } := by
  have hentries : entriesOf (signal s.tasks handles) = entriesOf s.tasks := by
    funext i
    unfold entriesOf signal
    rw [getElem?_mapIdx]
    cases s.tasks[i]? with
    | none => rfl
    | some =>
      split
      · rfl
      · rfl
  refine ⟨?_, fun u hu => ?_, h.heaped⟩
  · show Agree (entriesOf (signal s.tasks handles)) s.indexes
    rw [hentries]
    exact h.agree
  obtain ⟨i, hi⟩ := mem_iff_getElem?.1 hu
  obtain ⟨t, ht, rfl⟩ := getElem?_signal hi
  have hok := h.task ht
  split
  · rename_i hmem
    exact ⟨fun _ => hleaves i hmem t ht, hok.fresh, hok.bound⟩
  · exact hok

/-- Nothing that the tasks see has changed. -/
lemma Aligned.congr (htasks : s'.tasks = s.tasks) (hindexes : s'.indexes = s.indexes)
    (hheap : s'.Heaped) : Aligned s' := by
  refine ⟨?_, ?_, hheap⟩
  · rw [htasks, hindexes]
    exact h.agree
  · rw [htasks, hindexes]
    exact h.tasks

/-- An identity is acquired; in a fresh index nothing is suspended. -/
lemma Aligned.acquire {ref : Option IndexRef} (hacq : s.acquireIdentity key = (s1, ref)) :
    Aligned s1 := by
  obtain ⟨-, htasks, -, hindexes⟩ := acquireIdentity_spec hacq
  have hheap := (acquireIdentity_heaped h.heaped hacq).1
  rcases hindexes with heq | heq
  · exact h.congr htasks heq hheap
  refine ⟨⟨fun k idx hidx => ?_, ?_⟩, fun t ht => ?_, hheap⟩
  · rw [htasks]
    rw [heq] at hidx
    rcases getElem?_append_cases hidx with hold | ⟨n, hk, hnew⟩
    · exact h.agree.shown k idx hold
    obtain rfl := mem_singleton.1 (mem_of_getElem? hnew)
    refine iff_of_false nofun ?_
    rintro ⟨i, hi⟩
    obtain ⟨t, ht, -, href, -⟩ := runsOn_of_entry hi
    have hbound := (h.tasks t ht).bound
    rw [href, hk] at hbound
    exact Nat.not_lt.2 (Nat.le_add_right _ _) hbound
  · rw [htasks]
    exact h.agree.unique
  rw [htasks] at ht
  obtain ⟨hmuted, hfresh, hbound⟩ := h.tasks t ht
  rw [heq, length_append]
  exact ⟨hmuted, hfresh, Nat.lt_add_right _ hbound⟩

/-- A worker is tracked whose sources have no running task on the index. -/
lemma Aligned.track (hurl : s.workers.lookup url = none) (key) (href : ref < s.indexes.length)
    (hranks : (sources.map dpRank).Nodup)
    (hfree : ∀ src ∈ sources, ∀ t ∈ s.tasks, ¬ t.RunsOn ref ⟨src.source, src.dpRank⟩) :
    Aligned (s.track url key sourceId ref sources) := by
  have htasks := tasks_track hurl key sourceId ref sources
  have hcases : ∀ {i k b}, entriesOf (s.track url key sourceId ref sources).tasks i = some (k, b) →
      entriesOf s.tasks i = some (k, b) ∨ ∃ n src, i = s.tasks.length + n ∧
        sources[n]? = some src ∧ k = (ref, ⟨src.source, src.dpRank⟩) ∧ b = false := by
    intro i k b hi
    obtain ⟨t, ht, hentry⟩ := Option.bind_eq_some_iff.1 hi
    rcases getElem?_track hurl ht with hold | ⟨n, src, hn, hsrc, rfl⟩
    · exact .inl ((entriesOf_eq hold).trans hentry)
    · cases hentry
      exact .inr ⟨n, src, hn, hsrc, rfl, rfl⟩
  have hnew : ∀ {i src b}, src ∈ sources →
      entriesOf s.tasks i ≠ some ((ref, ⟨src.source, src.dpRank⟩), b) := by
    intro i src b hsrc hi
    obtain ⟨t, ht, hruns⟩ := runsOn_of_entry hi
    exact hfree src hsrc t ht hruns
  refine ⟨⟨fun k idx hidx => (h.agree.shown k idx hidx).trans ?_, ?_⟩, ?_, h.heaped⟩
  · constructor
    · rintro ⟨i, hi⟩
      obtain ⟨t, ht, hentry⟩ := Option.bind_eq_some_iff.1 hi
      refine ⟨i, (entriesOf_eq ?_).trans hentry⟩
      rw [htasks, List.getElem?_append_left (List.getElem?_eq_some_iff.1 ht).1, ht]
    rintro ⟨i, hi⟩
    rcases hcases hi with hold | ⟨-, -, -, -, -, hfalse⟩
    · exact ⟨i, hold⟩
    · cases hfalse
  · intro i j k b c hi hj
    rcases hcases hi with hi | ⟨n, src, rfl, hsrc, rfl, -⟩
    · rcases hcases hj with hj | ⟨_, _, rfl, hsrc', rfl, -⟩
      · exact h.agree.unique i j k b c hi hj
      · exact absurd hi (hnew (List.mem_of_getElem? hsrc'))
    rcases hcases hj with hj | ⟨m, src', rfl, hsrc', heq, -⟩
    · exact absurd hj (hnew (List.mem_of_getElem? hsrc))
    -- two fresh tasks of one target would have the same rank
    have hrank : src.dpRank = src'.dpRank := (RoutableTarget.mk.inj (Prod.mk.inj heq).2).2
    have hlt : n < (sources.map dpRank).length := by
      rw [List.length_map]
      exact (List.getElem?_eq_some_iff.1 hsrc).1
    have hnm : n = m := by
      refine (List.getElem?_inj hlt hranks).1 ?_
      rw [List.getElem?_map, List.getElem?_map, hsrc, hsrc', Option.map_some, Option.map_some,
        hrank]
    rw [hnm]
  · rw [htasks, List.forall_mem_append, List.forall_mem_map]
    exact ⟨h.tasks, fun src _ => ⟨fun _ => rfl, fun _ => ⟨rfl, rfl, rfl⟩, href⟩⟩

end

lemma leaves_iff (hsubs : s.workers.lookup url = some subs)
    (h : alignsGuard.leaves s url = true) :
    ∀ i ∈ subs.handles, ∀ t, s.tasks[i]? = some t → t.task.suspended = false := by
  intro i hi t ht
  simp only [alignsGuard.leaves, hsubs] at h
  have hone := all_eq_true.1 h i hi
  rw [ht] at hone
  simpa using hone

/-- **One step** under the guard keeps the agreement. -/
lemma step_aligned (hguard : alignsGuard env s e = true) (h : Aligned s) :
    Aligned (s.step env e) := by
  unfold alignsGuard at hguard
  rw [and_eq_true] at hguard
  obtain ⟨hmuted, hguard⟩ := hguard
  have hsup := step_supervises env s e
  generalize s.step env e = s' at hsup
  cases hsup with
  | idle => exact h
  | retire he hsubs =>
    rcases he with rfl | rfl
    · exact h.retire (leaves_iff hsubs hguard)
    · exact h.retire (leaves_iff hsubs hguard)
  | acquire hacq => exact h.acquire hacq
  | track hsettle hacq =>
    rename_i url _ key _ _ ref s1
    rw [and_eq_true] at hguard
    obtain ⟨hworkers, htasks, -, -⟩ := acquireIdentity_spec hacq
    have hurl : s1.workers.lookup url = none := by
      rw [hworkers]
      exact Option.isNone_iff_eq_none.1 hguard.1
    have hsources := hguard.2
    simp only [hsettle, hacq, and_eq_true, decide_eq_true_eq, all_eq_true,
      not_eq_true', decide_eq_false_iff_not] at hsources
    refine (h.acquire hacq).track hurl key ((acquireIdentity_heaped h.heaped hacq).2 ref rfl)
      hsources.1 fun src hsrc t ht => ?_
    rw [htasks] at ht
    exact hsources.2 src hsrc t ht
  | clear _ hidx hcall => exact h.setIndex hidx (call_suspendedSources hcall)
  | finish =>
    obtain ⟨-, htasks, -, hindexes⟩ := releaseIdentity_spec s _
    exact h.congr htasks hindexes (releaseIdentity_heaped h.heaped _)
  | connect ht hrun hconn =>
    rename_i i ok t
    have hok := h.task ht
    cases ok with
    | true =>
      refine h.setTask ht ?_ ⟨hok.muted, nofun, hok.bound⟩
      rw [entry_running hrun]
      rfl
    | false =>
      refine h.stopTask ht hrun ?_ ?_
      · rw [(hok.fresh hconn).1]
        rfl
      · rw [hconn]
        rfl
  | stop ht hrun _ hsig => exact h.stopTask ht hrun ((h.task ht).muted hsig) rfl
  | poll ht _ hconn =>
    exact h.setTask ht rfl ⟨(h.task ht).muted, fun hc => (by cases hconn.symm.trans hc),
      (h.task ht).bound⟩
  | recv ht _ hpolled =>
    refine h.begin ht (fun hc => ?_) _
    cases hpolled.symm.trans ((h.task ht).fresh hc).2.2
  | replay ht _ _ hphase =>
    refine h.begin ht (fun hc => ?_) _
    rw [((h.task ht).fresh hc).1] at hphase
    cases hphase
  | act ht hrun hpend hidx hact =>
    simp only [mutedGuard, ht, not_eq_true'] at hmuted
    exact h.act ht hrun hmuted hpend hidx hact

end Steps

/-! ## A contiguous batch -/

section Contiguous

variable {env : SupervisorEnv} {s : KvIndexSupervisor}

/-- Every index of the heap is well formed, so its calls return. -/
def Sound (s : KvIndexSupervisor) : Prop :=
  ∀ (ref : IndexRef) idx, s.indexes[ref]? = some idx → ∃ obs, IndexObserves idx obs

lemma perform_sound (h : ∃ obs, IndexObserves idx obs) (src) (a : TaskAction) :
    ∃ idx', a.perform src idx = some idx' ∧ ∃ obs, IndexObserves idx' obs := by
  obtain ⟨obs, hobs⟩ := h
  cases a with
  | call c =>
    obtain ⟨idx', hrun, -, hobs'⟩ := call_observes hobs c
    exact ⟨idx', hrun, _, hobs'⟩
  | suspend => exact ⟨_, rfl, obs, suspendSource_observes hobs src.source src.dpRank⟩
  | resume => exact ⟨_, rfl, obs, resumeSource_observes hobs src.source src.dpRank⟩

lemma Sound.setIndex (h : Sound s) (hidx' : ∃ obs, IndexObserves idx' obs)
    (heq : s'.indexes = s.indexes.set ref idx') : Sound s' := by
  intro r idx hidx
  rw [heq] at hidx
  rcases getElem?_set_cases hidx with ⟨-, rfl⟩ | ⟨-, hold⟩
  · exact hidx'
  · exact h r idx hold

lemma Sound.acquire (h : Sound s) {ref : Option IndexRef}
    (hacq : s.acquireIdentity key = (s1, ref)) : Sound s1 := by
  intro r idx hidx
  rcases (acquireIdentity_spec hacq).2.2.2 with heq | heq
  · exact h r idx (heq ▸ hidx)
  rw [heq] at hidx
  rcases getElem?_append_cases hidx with hold | ⟨n, -, hnew⟩
  · exact h r idx hold
  · obtain rfl := mem_singleton.1 (mem_of_getElem? hnew)
    exact ⟨_, indexObserves_new⟩

lemma step_sound (e) (h : Sound s) : Sound (s.step env e) := by
  have hsup := step_supervises env s e
  generalize s.step env e = s' at hsup
  cases hsup with
  | idle
  | retire he hsubs
  | connect ht hrun hconn
  | stop ht hrun hconn hsig
  | poll ht hrun hconn hsig
  | recv ht hrun hpolled hidle hpoll
  | replay => exact h
  | acquire hacq => exact h.acquire hacq
  | track _ hacq =>
    have hnew := h.acquire hacq
    exact hnew
  | clear _ hidx hcall =>
    obtain ⟨_, hobs⟩ := h _ _ hidx
    obtain ⟨_, hrun, -, hobs'⟩ := call_observes hobs _
    obtain rfl := Option.some.inj (hcall.symm.trans hrun)
    exact h.setIndex ⟨_, hobs'⟩ rfl
  | finish =>
    intro r idx hidx
    exact h r idx ((releaseIdentity_spec s _).2.2.2 ▸ hidx)
  | act _ _ _ hidx hact =>
    obtain ⟨_, hrun', hobs'⟩ := perform_sound (h _ _ hidx) _ _
    obtain rfl := Option.some.inj (hact.symm.trans hrun')
    exact h.setIndex hobs' rfl

/-- A task that runs unsignalled performs its whole plan, and its variable
takes the value the plan ends with. -/
lemma acts_pending (actions : List TaskAction) :
    ∀ s t, Aligned s → Sound s →
      s.tasks[i]? = some t → t.stopped = false → t.signalled = false → t.pending = actions →
      ∃ t', ((List.replicate actions.length (.act i)).foldl (step env) s).tasks[i]? = some t' ∧
        t'.pending = [] ∧ t'.src = t.src ∧ t'.stopped = false ∧
        t'.task.suspended = actions.foldl TaskAction.flag t.task.suspended ∧
        Aligned ((List.replicate actions.length (.act i)).foldl (step env) s) := by
  induction actions with
  | nil =>
    intro s t hal _ ht hrun _ hpend
    exact ⟨t, ht, hpend, rfl, hrun, rfl, hal⟩
  | cons a rest ih =>
    intro s t hal hsound ht hrun hsig hpend
    obtain ⟨idx, hidx⟩ : ∃ idx, s.indexes[t.indexer]? = some idx :=
      ⟨_, List.getElem?_eq_getElem (hal.task ht).bound⟩
    obtain ⟨idx', hact, -⟩ := perform_sound (hsound _ _ hidx) t.src a
    have hstep : s.step env (.act i) = { s with
        indexes := s.indexes.set t.indexer idx'
        tasks := s.tasks.set i (t.performed a rest) } := by
      simp [step, KvIndexSupervisor.act, onTask, ht, hrun, hpend, onIndex, hidx, hact]
    have hlt : i < s.tasks.length := (List.getElem?_eq_some_iff.1 ht).1
    have hal' : Aligned (s.step env (.act i)) := hstep ▸ hal.act ht hrun hsig hpend hidx hact
    have hget : (s.step env (.act i)).tasks[i]? = some (t.performed a rest) := by
      rw [hstep]
      exact List.getElem?_set_self hlt
    obtain ⟨t', ht', hnil, hsrc, hrun', hflag, hal''⟩ :=
      ih (s.step env (.act i)) (t.performed a rest) hal' (step_sound _ hsound) hget hrun hsig rfl
    exact ⟨t', ht', hnil, hsrc, hrun', hflag, hal''⟩

/-- A contiguous batch leaves the variable false. -/
lemma receivePlan_contiguous (hframe : liveFrame frames = some (seq, payload))
    (hend : seq ≠ endSeq) (hnext : seq = task.lastSeq + 1)
    (hdec : decodeRanked codec src.dpRank payload = some batch) :
    (receivePlan codec src task opening (.frames frames)).task.suspended = false := by
  have hrestart : ¬ (task.lastSeq ≠ -1 ∧ seq < task.lastSeq) := by omega
  have hold : ¬ seq ≤ task.lastSeq := by omega
  have hgap : ¬ (task.lastSeq + 1 < seq ∨ decodeRanked codec src.dpRank payload = none) := by
    rw [hdec]
    simp [hnext]
  simp only [receivePlan, hframe, if_neg hend, if_neg hrestart, receiveSeqPlan, if_neg hold,
    if_neg hgap]
  rw [hdec]
  rfl

end Contiguous

/-! ## Visible sources -/

/-- What the shards find for the target, queries report. -/
def Visible (idx : KvBlockIndexer) (target : RoutableTarget) : Prop :=
  ∀ query ms, (idx.shard query.groupIdx).findMatches query = some ms →
    ∃ reported, idx.findMatches query = some reported ∧
      ∀ m ∈ ms, m.target = target → m ∈ reported

lemma visible_of_not_suspended (h : idx.isSuspended target.instanceId target.dpRank = false) :
    Visible idx target := by
  intro query ms hms
  have hfind : idx.findMatches query = some (ms.filter fun hit =>
      !idx.isSuspended hit.target.instanceId hit.target.dpRank) := by
    simp only [findMatches, hms, Option.bind_eq_bind, Option.bind_some]
  refine ⟨_, hfind, fun m hm htarget => mem_filter.2 ⟨hm, ?_⟩⟩
  rw [htarget, h]
  rfl

/-- **Suspension ends with the flag.** In every history whose steps meet the
condition, a source whose task runs with a false `suspended` variable is not
suspended in the index. So once a contiguous batch has been applied, what the
shards hold for the source is reported. -/
theorem suspension_follows_flag {env : SupervisorEnv} {es : List SupervisorEvent}
    (hguard : guardedRun (step env) (alignsGuard env) new es = true) :
    (∀ (i : Nat) t idx, (run env es).tasks[i]? = some t → t.stopped = false →
      (run env es).indexes[t.indexer]? = some idx → t.task.suspended = false →
      idx.isSuspended t.src.source t.src.dpRank = false) ∧
    ∀ (i : Nat) t opening frames seq payload batch, (run env es).tasks[i]? = some t →
      t.stopped = false → t.signalled = false → t.polled = true → t.pending = [] →
      t.task.phase = .polling → liveFrame frames = some (seq, payload) → seq ≠ endSeq →
      seq = t.task.lastSeq + 1 → decodeRanked env.codec t.src.dpRank payload = some batch →
      ∃ n t' idx, (run env (es ++ .recv i opening (.frames frames)
            :: List.replicate n (.act i))).tasks[i]? = some t' ∧
        t'.pending = [] ∧ t'.src = t.src ∧ t'.task.suspended = false ∧
        (run env (es ++ .recv i opening (.frames frames)
            :: List.replicate n (.act i))).indexes[t'.indexer]? = some idx ∧
        Visible idx t.target := by
  have hal : Aligned (run env es) :=
    foldl_guarded (fun s e hg hs => step_aligned hg hs) es new hguard aligned_new
  have hsound : Sound (run env es) := foldl_invariant (fun s e hs => step_sound e hs) es new nofun
  refine ⟨fun i t idx ht hrun hidx hflag => (hal.flag ht hrun hidx).trans hflag, ?_⟩
  intro i t opening frames _ _ _ ht hrun hsig hpolled hidle hpoll hframe hend hnext hdec
  let plan := receivePlan env.codec t.src t.task opening (.frames frames)
  let s1 := (run env es).step env (.recv i opening (.frames frames))
  have hstep : s1 = { run env es with tasks := (run env es).tasks.set i (t.begin plan) } := by
    simp only [s1, step, KvIndexSupervisor.recv, onTask, ht, hrun, hpolled, hidle, hpoll]
    rfl
  have hlt : i < (run env es).tasks.length := (List.getElem?_eq_some_iff.1 ht).1
  have hget : s1.tasks[i]? = some (t.begin plan) := by
    rw [hstep]
    exact List.getElem?_set_self hlt
  have hal1 : Aligned s1 := by
    rw [hstep]
    refine hal.begin ht (fun hc => ?_) _
    cases hpolled.symm.trans ((hal.task ht).fresh hc).2.2
  obtain ⟨t', ht', hnil, hsrc, hrun', hflag, hal'⟩ := acts_pending plan.actions s1 (t.begin plan)
    hal1 (step_sound _ hsound) hget hrun hsig rfl
  -- the plan ends with a false variable
  have hdone : t'.task.suspended = false := by
    rw [hflag]
    have hflags : plan.Flags t.task.suspended := receivePlan_flags t.task opening _
    exact hflags.trans (receivePlan_contiguous hframe hend hnext hdec)
  have hrunEq : run env (es ++ .recv i opening (.frames frames)
      :: List.replicate plan.actions.length (.act i))
      = (List.replicate plan.actions.length (.act i)).foldl (step env) s1 := by
    simp [run, s1]
  obtain ⟨idx, hidx⟩ : ∃ idx, ((List.replicate plan.actions.length (SupervisorEvent.act i)).foldl
      (step env) s1).indexes[t'.indexer]? = some idx :=
    ⟨_, List.getElem?_eq_getElem (hal'.task ht').bound⟩
  refine ⟨plan.actions.length, t', idx, hrunEq ▸ ht', hnil, hsrc, hdone, hrunEq ▸ hidx, ?_⟩
  refine visible_of_not_suspended ?_
  have hfinal := (hal'.flag ht' hrun' hidx).trans hdone
  rw [hsrc] at hfinal
  exact hfinal

/-! ## A suspension that outlives its task -/

/-- `w` is removed, its task stops, and `w` is added again. Its new task
receives the worker's own batch at position 0. -/
def readdW : List SupervisorEvent :=
  removeW ++ [.check 1, .addBegin "w", .addFinish "w" (discovered "w"), .connect 2 true,
    .check 2, .recv 2 .opened (.frames [[], seqBytes 0, [1]]), .act 2]

/-- The first task of `w` has a message it cannot decode and no replay, so it
leaves the source suspended until the next batch. -/
def leftSuspended : List SupervisorEvent := sharedStart 9 ++ [.act 1, .act 1, .act 1] ++ readdW

/-- The new task of `w` has applied a contiguous batch and is not suspended, but
the entry of the old task hides the block that the shard holds. -/
theorem suspension_outlives_task : ((run sharedEnv leftSuspended).tasks[2]?.map fun t =>
        (t.src.source, t.src.dpRank, t.stopped, t.pending.isEmpty, t.task.lastSeq,
          t.task.suspended)) = some ("w", 0, false, true, 0, false) ∧
      ((run sharedEnv leftSuspended).indexes[0]?.map fun idx => idx.isSuspended "w" 0) = some true ∧
      ((run sharedEnv leftSuspended).indexes[0]?.bind fun idx =>
          (idx.shard 0).findMatches blockQuery) = some [⟨⟨"w", 0⟩, .device, [(0, 1)], .local⟩] ∧
      sharedAnswer (run sharedEnv leftSuspended) = some [] := by
  decide +kernel

/-- The first task of `w` applies a batch and leaves the source unsuspended. -/
def leftVisible : List SupervisorEvent := sharedStart 1 ++ [.act 1] ++ readdW

theorem suspension_follows_flag_readded :
    guardedRun (step sharedEnv) (alignsGuard sharedEnv) new leftVisible = true ∧
      sharedAnswer (run sharedEnv leftVisible) = some [⟨⟨"w", 0⟩, .device, [(0, 1)], .local⟩] ∧
      ∀ (i : Nat) t idx, (run sharedEnv leftVisible).tasks[i]? = some t → t.stopped = false →
        (run sharedEnv leftVisible).indexes[t.indexer]? = some idx → t.task.suspended = false →
        idx.isSuspended t.src.source t.src.dpRank = false := by
  have hguard : guardedRun (step sharedEnv) (alignsGuard sharedEnv) new leftVisible = true := by
    decide +kernel
  exact ⟨hguard, by decide +kernel, (suspension_follows_flag hguard).1⟩

end VllmRouter.KvIndex
