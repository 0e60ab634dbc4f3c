import VllmRouter.ProgramScheduling.System

/-!
# What the scheduler knows of one Program

The scheduler spreads its knowledge of a Program generation over the runtime,
the request pool, the decision table and the admission queues. `Facts`
collects it, so that the effect of an operation can be stated for one Program
and nothing said about the others: every operation below changes the facts of
the Program it names and of no other one.

The occurrences of a Program in the queues are counted per queue, which makes
"exactly once in exactly one queue" a statement about the facts.
-/

namespace VllmRouter.ProgramScheduling

open List Dict

/-- Everything that the scheduler state says about one Program generation. -/
structure Facts where
  program : Option RuntimeProgram
  pending : List PendingProgramRequest
  decision : Option ProgramDecisionState
  inRank : TargetId → Nat
  inPool : ModelPool → Nat
  /-- The targets of its model pool. -/
  home : List TargetId

namespace Facts

/-- The Program in no queue. -/
def unqueued (f : Facts) : Facts := { f with inRank := fun _ => 0, inPool := fun _ => 0 }

/-- The Program is in some queue. -/
def Queued (f : Facts) : Prop := (∃ target, f.inRank target ≠ 0) ∨ ∃ pool, f.inPool pool ≠ 0

lemma not_queued_unqueued (f : Facts) : ¬ f.unqueued.Queued := by
  rintro (⟨_, h⟩ | ⟨_, h⟩)
  · exact h rfl
  · exact h rfl

/-- The target that the Program is bound to. -/
def lastTarget (f : Facts) : Option TargetId :=
  f.decision.bind ProgramDecisionState.lastTarget

lemma lastTarget_eq {f : Facts} (hd : f.decision = some d) : f.lastTarget = d.lastTarget := by
  unfold lastTarget
  rw [hd, Option.bind_some]

end Facts

variable (s : ProgramSchedulerState)

def ProgramSchedulerState.facts (r : ProgramRef) : Facts where
  program := s.runtime.program r
  pending := s.runtime.requestPool.queue r
  decision := s.decisions.lookup r
  inRank := fun target => ((s.rankQueues.lookup target).getD []).count r
  inPool := fun pool => ((s.globalQueues.lookup pool).getD []).count r
  home := (s.modelTargets.lookup r.modelPool).getD []

/-! ## The runtime -/

variable {p : RuntimeProgram} {r : ProgramRef} {rt : ProgramRuntime}

namespace ProgramRuntime

lemma program_eq_some :
    rt.program r = some p ↔ rt.programs.lookup r.key = some p ∧ p.reference = r := by
  unfold program
  rw [Option.filter_eq_some_iff, decide_eq_true_iff]

lemma program_reference (h : rt.program r = some p) : p.reference = r := (program_eq_some.1 h).2

/-- A stored Program is the live Program of its reference. -/
lemma program_of_lookup (h : rt.programs.lookup key = some p) :
    rt.program p.reference = some p := by
  refine program_eq_some.2 ⟨?_, rfl⟩
  rw [rt.keyed key p h]
  exact h

/-- Storing a Program changes what is live under its own reference only, when
no other generation is stored under its key. -/
lemma program_setProgram
    (hp : ∀ q, rt.programs.lookup p.reference.key = some q → q.reference = p.reference) (r) :
    (rt.setProgram p).program r = if r = p.reference then some p else rt.program r := by
  have hlookup : (rt.setProgram p).programs.lookup r.key
      = if r.key = p.reference.key then some p else rt.programs.lookup r.key :=
    lookup_insert_eq _ _ _ _
  unfold program
  rw [hlookup]
  by_cases hr : r = p.reference
  · subst hr
    simp
  split
  · rename_i hk
    -- another generation under the same key is live neither before nor after
    rw [hk]
    have hnew : ¬ p.reference = r := Ne.symm hr
    cases hq : rt.programs.lookup p.reference.key with
    | none => simp [Option.filter, hnew]
    | some q =>
      have hold : ¬ q.reference = r := hp q hq ▸ hnew
      simp [Option.filter, hnew, hold]
  · rfl

/-- Updating a live Program. -/
lemma program_setProgram_live (hq : rt.program p.reference = some q) (r) :
    (rt.setProgram p).program r = if r = p.reference then some p else rt.program r := by
  refine program_setProgram (fun q' hq' => ?_) r
  obtain ⟨hl, href⟩ := program_eq_some.1 hq
  rw [hl] at hq'
  cases hq'
  exact href

lemma program_eraseProgram (hq : rt.program r0 = some q) (r) :
    (rt.eraseProgram r0.key).program r = if r = r0 then none else rt.program r := by
  have hlookup : (rt.eraseProgram r0.key).programs.lookup r.key
      = if r.key = r0.key then none else rt.programs.lookup r.key :=
    lookup_erase_eq _ _ _
  unfold program
  rw [hlookup]
  by_cases hr : r = r0
  · subst hr
    simp
  rw [if_neg hr]
  by_cases hk : r.key = r0.key
  · obtain ⟨hl, href⟩ := program_eq_some.1 hq
    have hne : ¬ q.reference = r := href ▸ Ne.symm hr
    rw [hk, hl]
    simp [Option.filter, hne]
  · rw [if_neg hk]

lemma view_eq_some : rt.view r = some v ↔ ∃ p, rt.program r = some p ∧ rt.viewOf p = v :=
  Option.map_eq_some_iff

/-- The views of an iteration are those of live Programs. -/
lemma mem_iterViews {view : RuntimeProgramView} (h : view ∈ rt.iterViews order) :
    ∃ p, rt.program view.reference = some p ∧ rt.viewOf p = view := by
  obtain ⟨_, -, hview⟩ := mem_filterMap.1 h
  obtain ⟨p, hp, rfl⟩ := Option.map_eq_some_iff.1 hview
  exact ⟨p, program_of_lookup hp, rfl⟩

end ProgramRuntime

/-! ## The request pool -/

/-- The front request with its permit stored. -/
def wakeFront : List PendingProgramRequest → List PendingProgramRequest
  | [] => []
  | front :: rest => { front with permit := true } :: rest

lemma wakeFront_eq_nil : wakeFront l = [] ↔ l = [] := by
  cases l with
  | nil => exact Iff.rfl
  | cons => simp [wakeFront]

section

variable {β : Type} {label : PendingProgramRequest → β}
  (hlabel : ∀ request permit, label { request with permit := permit } = label request)

include hlabel

/-- Permits change nothing else of the requests. -/
lemma map_wakeFront (l) : (wakeFront l).map label = l.map label := by
  cases l with
  | nil => rfl
  | cons front rest => exact congrArg (· :: rest.map label) (hlabel front true)

lemma map_dropPermit (requestId) (l : List PendingProgramRequest) :
    (l.map (System.dropPermit requestId)).map label = l.map label := by
  rw [map_map]
  refine map_congr_left fun request _ => ?_
  show label (System.dropPermit requestId request) = label request
  unfold System.dropPermit
  split
  · exact hlabel request false
  · rfl

end

namespace RequestPool

lemma queue_setQueue (pool : RequestPool) (p q r) :
    (pool.setQueue p q).queue r = if r = p then q else pool.queue r := by
  unfold setQueue queue
  by_cases hq : q = []
  · subst hq
    simp only [if_true, lookup_erase_eq]
    by_cases hr : r = p
    · simp [hr]
    · simp [hr]
  simp only [if_neg hq, lookup_insert_eq]
  by_cases hr : r = p
  · simp [hr]
  · simp [hr]

lemma queue_notifyFront (pool : RequestPool) (p r) :
    (pool.notifyFront p).queue r = if r = p then wakeFront (pool.queue p) else pool.queue r := by
  unfold notifyFront
  cases hq : pool.queue p with
  | nil =>
    by_cases hr : r = p
    · rw [if_pos hr, hr]
      exact hq
    · rw [if_neg hr]
  | cons => exact queue_setQueue pool p _ r

lemma nextRequestId_notifyFront (pool : RequestPool) (p) :
    (pool.notifyFront p).nextRequestId = pool.nextRequestId := by
  unfold notifyFront
  cases pool.queue p with
  | nil => rfl
  | cons => rfl

lemma takeFront_eq_some {pool pool' : RequestPool}
    (h : pool.takeFront handle = some (pool', request)) :
    ∃ rest, pool.queue handle.program = request :: rest ∧ request.id = handle.requestId ∧
      (∀ r, pool'.queue r = if r = handle.program then rest else pool.queue r) ∧
      pool'.nextRequestId = pool.nextRequestId := by
  unfold takeFront at h
  cases hq : pool.queue handle.program with
  | nil =>
    rw [hq] at h
    cases h
  | cons front rest =>
    rw [hq] at h
    by_cases hid : front.id = handle.requestId
    · simp only [hid, ne_eq] at h
      cases h
      exact ⟨rest, rfl, hid, fun r => queue_setQueue pool _ rest r, rfl⟩
    · simp only [ne_eq, hid] at h
      cases h

lemma takeFront_eq_none {pool : RequestPool} (h : pool.takeFront handle = none) (front)
    (hfront : (pool.queue handle.program).head? = some front) :
    front.id ≠ handle.requestId := by
  intro hid
  unfold takeFront at h
  cases hq : pool.queue handle.program with
  | nil =>
    rw [hq] at hfront
    cases hfront
  | cons =>
    rw [hq] at h hfront
    cases hfront
    simp only [hid, ne_eq] at h
    cases h

/-- The FIFO after the request at `position` was cancelled. -/
def cancelAt (queue : List PendingProgramRequest) (position : Nat) :
    List PendingProgramRequest :=
  if position = 0 then wakeFront (queue.eraseIdx position) else queue.eraseIdx position

lemma cancel_eq_some {pool pool' : RequestPool}
    (h : pool.cancel handle = some (pool', wasFront)) :
    ∃ position, (∃ request, (pool.queue handle.program)[position]? = some request ∧
        request.id = handle.requestId) ∧ wasFront = decide (position = 0) ∧
      (∀ r, pool'.queue r = if r = handle.program
        then (pool.queue handle.program).eraseIdx position else pool.queue r) ∧
      pool'.nextRequestId = pool.nextRequestId := by
  unfold cancel at h
  cases hpos : (pool.queue handle.program).findIdx? fun request =>
      decide (request.id = handle.requestId) with
  | none =>
    simp only [hpos] at h
    cases h
  | some position =>
    simp only [hpos] at h
    cases h
    obtain ⟨hlt, hid, -⟩ := findIdx?_eq_some_iff_getElem.1 hpos
    refine ⟨position, ⟨_, getElem?_eq_getElem hlt, of_decide_eq_true hid⟩, rfl, ?_, rfl⟩
    exact fun r => queue_setQueue pool _ _ r

end RequestPool

/-! ## The state -/

namespace ProgramSchedulerState

lemma facts_runtime (rt : ProgramRuntime) (r : ProgramRef) :
    ({ s with runtime := rt } : ProgramSchedulerState).facts r
      = { s.facts r with program := rt.program r, pending := rt.requestPool.queue r } := rfl

@[simp] lemma facts_adjustUsage (t delta r) :
    (s.adjustUsage t delta).facts r = s.facts r := rfl

lemma facts_modifyDecision (p) (f : ProgramDecisionState → ProgramDecisionState) (r) :
    (s.modifyDecision p f).facts r
      = if r = p then { s.facts r with decision := (s.facts r).decision.map f } else s.facts r := by
  have h : (s.modifyDecision p f).decisions.lookup r
      = if r = p then (s.decisions.lookup p).map f else s.decisions.lookup r :=
    lookup_modify _ _ _ _
  unfold facts
  rw [h]
  by_cases hr : r = p
  · subst hr
    simp [modifyDecision]
  · simp [hr, modifyDecision]

/-- Filtering a Program out of a queue removes it and nothing else. -/
lemma count_filter_ne (queue : List ProgramRef) (p r) :
    (queue.filter fun q => decide (q ≠ p)).count r = if r = p then 0 else queue.count r := by
  split
  · rename_i hr
    subst hr
    rw [count_eq_zero]
    simp
  · rename_i hr
    rw [count_filter]
    simpa using hr

lemma facts_dequeue (p r) :
    (s.dequeue p).facts r = if r = p then (s.facts r).unqueued else s.facts r := by
  have hcount : ∀ queue : Option (List ProgramRef),
      ((queue.map fun q => q.filter fun q => decide (q ≠ p)).getD []).count r
        = if r = p then 0 else (queue.getD []).count r := by
    intro queue
    cases queue with
    | none => simp
    | some queue => exact count_filter_ne queue p r
  unfold facts dequeue
  simp only [lookup_mapVal, hcount]
  by_cases hr : r = p
  · simp [hr, Facts.unqueued]
  · simp [hr]

/-- A queue that gets one more entry at its end. -/
lemma count_upsert_append {K : Type} [DecidableEq K] (queues : Dict K (List ProgramRef))
    (k k' : K) (p r) :
    (((queues.upsert k [] fun queue => queue ++ [p]).lookup k').getD []).count r
      = ((queues.lookup k').getD []).count r + if k' = k ∧ r = p then 1 else 0 := by
  rw [lookup_upsert]
  by_cases hk : k' = k
  · subst hk
    by_cases hr : r = p
    · subst hr
      simp
    · have hpr : ¬ p = r := fun h => hr h.symm
      simp [hr, hpr]
  · simp [hk]

lemma facts_enqueueRank (p t r) :
    (s.enqueueRank p t).facts r = if r = p then { s.facts r with
        inRank := fun t' => (s.facts r).inRank t' + if t' = t then 1 else 0 } else s.facts r := by
  unfold facts enqueueRank
  simp only [count_upsert_append]
  by_cases hr : r = p
  · simp [hr]
  · simp [hr]

lemma facts_enqueueGlobal (p r : ProgramRef) : (s.enqueueGlobal p).facts r = if r = p
      then { s.facts r with
        inPool := fun pool => (s.facts r).inPool pool + if pool = p.modelPool then 1 else 0 }
      else s.facts r := by
  unfold facts enqueueGlobal
  simp only [count_upsert_append]
  by_cases hr : r = p
  · simp [hr]
  · simp [hr]

end ProgramSchedulerState

end VllmRouter.ProgramScheduling
