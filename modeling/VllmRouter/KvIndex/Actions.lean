import VllmRouter.KvIndex.LogReplay

/-!
# An iteration as a list of index actions

The subscriber writes to the index and never reads it back, so what one
iteration of its loop does to the index is settled by the task and the message
alone. A `Plan` is that list of actions with the task it leaves.

- `receive_eq`, `replayReceive_eq`: an iteration is the plan, performed.
- `Plan.Flags`: the task's `suspended` variable follows the actions.
- `ActionOf`: the actions a plan can hold.

Other tasks and the supervisor run between two actions of a plan; the modules
on removal and re-addition interleave them.
-/

namespace VllmRouter.KvIndex

open List Option Phase

/-- One action of a subscriber task on its index. -/
inductive TaskAction where
  | call (c : IndexCall)
  | suspend
  | resume

namespace TaskAction

def perform (src : EventSource) (idx : KvBlockIndexer) : TaskAction → Option KvBlockIndexer
  | .call c => idx.call c
  | .suspend => some (idx.suspendSource src.source src.dpRank)
  | .resume => some (idx.resumeSource src.source src.dpRank)

/-- The `suspended` variable after the action. -/
def flag (suspended : Bool) : TaskAction → Bool
  | .call _ => suspended
  | .suspend => true
  | .resume => false

end TaskAction

/-- What an iteration will do, and the task it leaves. -/
structure Plan where
  actions : List TaskAction
  task : Task
  signals : List IngestionSignal
  invalidated : Bool

section Plans

variable (codec : Codec) (src : EventSource)

def Plan.perform (plan : Plan) (idx : KvBlockIndexer) : Option Outcome :=
  (plan.actions.foldlM (TaskAction.perform src) idx).map fun idx =>
    ⟨plan.task, idx, plan.signals, plan.invalidated⟩

/-- Put actions in front of a plan. -/
def Plan.after (before : List TaskAction) (plan : Plan) : Plan :=
  { plan with actions := before ++ plan.actions }

/-- `invalidate_source`: suspend, then clear every shard. -/
def invalidateActions : List TaskAction :=
  [.suspend, .call (.clearSource src.source src.dpRank)]

/-- A plan that does nothing to the index. -/
def idlePlan (task : Task) (signals : List IngestionSignal) (invalidated : Bool) : Plan :=
  ⟨[], task, signals, invalidated⟩

def batchActions (incarnation : Nat) (batch : KVEventBatch) : List TaskAction :=
  (batchCalls codec src.source src.dpRank incarnation batch).map .call

variable (task : Task) (seq : Int) (batch : Option KVEventBatch) (signals : List IngestionSignal)

def finishLivePlan (invalidated : Bool) : Plan :=
  match batch with
  | none => ⟨[], { task with phase := .polling }, signals, invalidated⟩
  | some batch =>
    ⟨batchActions codec src task.incarnation batch ++ (if task.suspended then [.resume] else []),
      { task with lastSeq := seq, suspended := false, phase := .polling },
      signals ++ [.advance src.source seq], invalidated⟩

def replayFailedPlan : Plan :=
  (finishLivePlan codec src task seq batch signals true).after (invalidateActions src)

def receiveSeqPlan (task : Task) (opening : ReplayOpen) (seq : Int) (payload : List UInt8)
    (signals : List IngestionSignal) (invalidated : Bool) : Plan :=
  if seq ≤ task.lastSeq then idlePlan task signals invalidated
  else
    let batch := decodeRanked codec src.dpRank payload
    if task.lastSeq + 1 < seq ∨ batch = none then
      let toSeq := if batch = none then seq else seq - 1
      let signals := signals ++ [.gap src.source (task.lastSeq + 1) toSeq]
      let task := { task with suspended := true }
      if src.replayEndpoint.isSome ∧ opening = .opened then
        ⟨[.suspend], { task with phase := .replaying task.lastSeq seq batch }, signals,
          invalidated⟩
      else (replayFailedPlan codec src task seq batch signals).after [.suspend]
    else finishLivePlan codec src task seq batch signals invalidated

/-- The plan of an iteration for what the SUB socket returned. -/
def receivePlan (task : Task) (opening : ReplayOpen) : LiveRecv → Plan
  | .eagain => idlePlan task [] false
  | .error => idlePlan task [] false
  | .frames frames =>
    match liveFrame frames with
    | none => ⟨invalidateActions src, { task with suspended := true }, [], true⟩
    | some (seq, payload) =>
      if seq = endSeq then idlePlan task [] false
      else if task.lastSeq ≠ -1 ∧ seq < task.lastSeq then
        let incarnation := task.incarnation + 1
        let task := { task with
          lastSeq := -1, incarnation := incarnation, suspended := true }
        (receiveSeqPlan codec src task opening seq payload
          [.incarnationReset src.source incarnation] true).after (invalidateActions src)
      else receiveSeqPlan codec src task opening seq payload [] false

/-- The plan of one round of the replay loop. -/
def replayReceivePlan (task : Task) (high through : Int) (batch : Option KVEventBatch) :
    ReplayRecv → Plan
  | .deadline => replayFailedPlan codec src task through batch []
  | .error => replayFailedPlan codec src task through batch []
  | .eagain => idlePlan task [] false
  | .frames frames =>
    match replayFrame frames with
    | none => replayFailedPlan codec src task through batch []
    | some (seq, payload) =>
      if seq = endSeq then replayFailedPlan codec src task through batch []
      else if seq ≤ high then idlePlan task [] false
      else if seq ≠ high + 1 then replayFailedPlan codec src task through batch []
      else
        match decodeRanked codec src.dpRank payload with
        | none => replayFailedPlan codec src task through batch []
        | some replayed =>
          let apply := batchActions codec src task.incarnation replayed
          if through ≤ seq then
            ⟨apply ++ [.resume],
              { task with lastSeq := seq, suspended := false, phase := .polling },
              [.advance src.source seq, .replayApplied src.source seq], false⟩
          else
            ⟨apply, { task with phase := .replaying seq through batch },
              [.advance src.source seq], false⟩

end Plans

/-! ## An iteration is its plan -/

section Equations

variable {codec : Codec} {src : EventSource}

lemma foldlM_calls (calls : List IndexCall) : ∀ idx,
    (calls.map TaskAction.call).foldlM (TaskAction.perform src) idx
      = calls.foldlM KvBlockIndexer.call idx := by
  intro _
  rw [foldlM_map]
  rfl

lemma perform_batchActions (incarnation batch idx) :
    (batchActions codec src incarnation batch).foldlM (TaskAction.perform src) idx
      = applyBatch codec idx src.source src.dpRank incarnation batch := by
  rw [batchActions, foldlM_calls, applyBatch_eq]

lemma perform_invalidateActions (idx) :
    (invalidateActions src).foldlM (TaskAction.perform src) idx
      = idx.invalidateSource src.source src.dpRank := by
  exact bind_fun_some _

/-- A plan after other actions is performed on what they leave. -/
lemma perform_after (before : List TaskAction) (plan : Plan) (idx) :
    (plan.after before).perform src idx
      = (before.foldlM (TaskAction.perform src) idx).bind fun idx => plan.perform src idx := by
  simp only [Plan.perform, Plan.after, foldlM_append, bind_eq_bind, map_bind]
  rfl

variable (task : Task) (idx : KvBlockIndexer)

lemma finishLive_eq (seq batch signals invalidated) :
    finishLive codec src task idx seq batch signals invalidated
      = (finishLivePlan codec src task seq batch signals invalidated).perform src idx := by
  cases batch with
  | none => rfl
  | some batch =>
    simp only [finishLive, finishLivePlan, Plan.perform, foldlM_append, perform_batchActions]
    cases applyBatch codec idx src.source src.dpRank task.incarnation batch with
    | none => rfl
    | some => cases task.suspended <;> rfl

lemma replayFailed_eq (seq batch signals) :
    replayFailed codec src task idx seq batch signals
      = (replayFailedPlan codec src task seq batch signals).perform src idx := by
  simp [replayFailed, replayFailedPlan, perform_after, perform_invalidateActions, finishLive_eq]

lemma receiveSeq_eq (opening seq payload signals invalidated) :
    receiveSeq codec src task idx opening seq payload signals invalidated
      = (receiveSeqPlan codec src task opening seq payload signals invalidated).perform src
          idx := by
  simp only [receiveSeq, receiveSeqPlan]
  split
  · rfl
  split
  · split
    · rfl
    rw [replayFailed_eq]
    rfl
  · exact finishLive_eq ..

/-- **A live iteration is its plan.** -/
lemma receive_eq (opening recv) :
    receive codec src task idx opening recv
      = (receivePlan codec src task opening recv).perform src idx := by
  cases recv with
  | eagain => rfl
  | error => rfl
  | frames frames =>
    simp only [receive, receivePlan]
    cases liveFrame frames with
    | none =>
      simp only [Plan.perform, perform_invalidateActions, map_eq_bind]
      rfl
    | some =>
      simp only
      split_ifs with hend hrestart
      · rfl
      · simp [perform_after, perform_invalidateActions, receiveSeq_eq]
      · exact receiveSeq_eq ..

/-- **A round of the replay is its plan.** -/
lemma replayReceive_eq (high through batch recv) :
    replayReceive codec src task idx high through batch recv
      = (replayReceivePlan codec src task high through batch recv).perform src idx := by
  cases recv with
  | deadline
  | error => exact replayFailed_eq ..
  | eagain => rfl
  | frames frames =>
    simp only [replayReceive, replayReceivePlan]
    cases replayFrame frames with
    | none => exact replayFailed_eq ..
    | some frame =>
      obtain ⟨seq, payload⟩ := frame
      simp only
      split
      · exact replayFailed_eq ..
      split
      · rfl
      split
      · exact replayFailed_eq ..
      cases decodeRanked codec src.dpRank payload with
      | none => exact replayFailed_eq ..
      | some =>
        simp only [← perform_batchActions]
        split
        · simp only [Plan.perform, foldlM_append, bind_eq_bind, map_bind]
          rfl
        · simp only [Plan.perform, map_eq_bind]
          rfl

/-- A round of the replay fails, waits, or applies the next message. -/
lemma replayReceivePlan_cases (task high through batch recv) :
    let plan := replayReceivePlan codec src task high through batch recv
    plan = replayFailedPlan codec src task through batch [] ∨ plan = idlePlan task [] false ∨
      ∃ frames seq payload replayed, recv = .frames frames ∧
        replayFrame frames = some (seq, payload) ∧ seq = high + 1 ∧
        decodeRanked codec src.dpRank payload = some replayed ∧
        ((plan.actions = batchActions codec src task.incarnation replayed ++ [.resume] ∧
            plan.task = { task with lastSeq := seq, suspended := false, phase := .polling }) ∨
          (plan.actions = batchActions codec src task.incarnation replayed ∧
            plan.task = { task with phase := .replaying seq through batch })) := by
  cases recv with
  | deadline => exact .inl rfl
  | error => exact .inl rfl
  | eagain => exact .inr (.inl rfl)
  | frames frames =>
    cases hframe : replayFrame frames with
    | none =>
      refine .inl ?_
      simp [replayReceivePlan, hframe]
    | some frame =>
      obtain ⟨seq, payload⟩ := frame
      simp only [replayReceivePlan, hframe]
      split
      · exact .inl rfl
      split
      · exact .inr (.inl rfl)
      split
      · exact .inl rfl
      rename_i hskip
      cases hdec : decodeRanked codec src.dpRank payload with
      | none => exact .inl rfl
      | some replayed =>
        refine .inr (.inr ⟨frames, seq, payload, replayed, rfl, hframe, not_not.1 hskip, hdec, ?_⟩)
        simp only
        split
        · exact .inl ⟨rfl, rfl⟩
        · exact .inr ⟨rfl, rfl⟩

end Equations

/-! ## The suspended variable -/

variable {task : Task} {batch : Option KVEventBatch}

section Flags

/-- Performing the plan takes the `suspended` variable from this value to the
one of the task it leaves. -/
def Plan.Flags (suspended : Bool) (plan : Plan) : Prop :=
  plan.actions.foldl TaskAction.flag suspended = plan.task.suspended

variable {codec : Codec} {src : EventSource} {suspended : Bool}

lemma Plan.Flags.after {plan : Plan} (h : plan.Flags (before.foldl TaskAction.flag suspended)) :
    (plan.after before).Flags suspended := by
  unfold Plan.Flags Plan.after
  rw [foldl_append]
  exact h

/-- Calls on the shards leave the variable. -/
lemma flag_batchActions (incarnation batch) :
    (batchActions codec src incarnation batch).foldl TaskAction.flag suspended = suspended := by
  unfold batchActions
  induction batchCalls codec src.source src.dpRank incarnation batch with
  | nil => rfl
  | cons _ _ ih => exact ih

lemma finishLivePlan_flags (task seq batch signals invalidated) :
    (finishLivePlan codec src task seq batch signals invalidated).Flags task.suspended := by
  cases batch with
  | none => rfl
  | some =>
    simp only [finishLivePlan, Plan.Flags, foldl_append, flag_batchActions]
    cases task.suspended <;> rfl

lemma replayFailedPlan_flags (hsusp : task.suspended = true) (seq batch signals suspended) :
    (replayFailedPlan codec src task seq batch signals).Flags suspended := by
  refine Plan.Flags.after ?_
  have h : (finishLivePlan codec src task seq batch signals true).Flags task.suspended :=
    finishLivePlan_flags ..
  rwa [hsusp] at h

lemma receiveSeqPlan_flags (task opening seq payload signals invalidated) :
    (receiveSeqPlan codec src task opening seq payload signals invalidated).Flags
      task.suspended := by
  simp only [receiveSeqPlan]
  split
  · rfl
  split
  · split
    · rfl
    refine Plan.Flags.after (replayFailedPlan_flags ?_ ..)
    rfl
  · exact finishLivePlan_flags ..

/-- A live iteration keeps the variable in step with its actions. -/
lemma receivePlan_flags (task opening recv) :
    (receivePlan codec src task opening recv).Flags task.suspended := by
  cases recv with
  | eagain => rfl
  | error => rfl
  | frames frames =>
    simp only [receivePlan]
    cases liveFrame frames with
    | none => rfl
    | some =>
      simp only
      split_ifs with hend hrestart
      · rfl
      · refine Plan.Flags.after ?_
        exact receiveSeqPlan_flags { task with
          lastSeq := -1, incarnation := task.incarnation + 1, suspended := true } ..
      · exact receiveSeqPlan_flags ..

end Flags

/-! ## What a plan can hold -/

section ActionOf

variable (codec : Codec) (src : EventSource)

/-- The actions an iteration can take on behalf of `src`, when the batches it
has received are those of `received`. -/
inductive ActionOf (received : KVEventBatch → Prop) : TaskAction → Prop
  | event {incarnation : Nat} {batch : KVEventBatch} {c : IndexCall} (hb : received batch)
      (hc : c ∈ batchCalls codec src.source src.dpRank incarnation batch) :
      ActionOf received (.call c)
  | discard : ActionOf received (.call (.clearSource src.source src.dpRank))
  | suspend : ActionOf received .suspend
  | resume : ActionOf received .resume

/-- The batch of a live message. -/
def LiveRecv.Carries (recv : LiveRecv) (batch : KVEventBatch) : Prop :=
  ∃ frames seq payload, recv = .frames frames ∧ liveFrame frames = some (seq, payload) ∧
    seq ≠ endSeq ∧ decodeRanked codec src.dpRank payload = some batch

/-- The batch of a replayed message. -/
def ReplayRecv.Carries (recv : ReplayRecv) (batch : KVEventBatch) : Prop :=
  ∃ frames payload, ∃ n : Nat, recv = .frames frames ∧
    replayFrame frames = some ((n : Int), payload) ∧
    decodeRanked codec src.dpRank payload = some batch

/-- What a plan does comes from `received`, and so does the batch that a replay
it enters keeps aside. -/
structure Plan.From (received : KVEventBatch → Prop) (plan : Plan) : Prop where
  actions : ∀ a ∈ plan.actions, ActionOf codec src received a
  aside : ∀ high through batch, plan.task.phase = .replaying high through (some batch) →
    received batch

variable {codec src} {received : KVEventBatch → Prop}

lemma actionOf_batchActions {batch : KVEventBatch} (hb : received batch) :
    ∀ a ∈ batchActions codec src incarnation batch, ActionOf codec src received a := by
  intro a ha
  obtain ⟨c, hc, rfl⟩ := mem_map.1 ha
  exact .event hb hc

lemma actionOf_invalidateActions :
    ∀ a ∈ invalidateActions src, ActionOf codec src received a := by
  intro a ha
  simp only [invalidateActions, mem_cons, not_mem_nil, or_false] at ha
  rcases ha with rfl | rfl
  · exact .suspend
  · exact .discard

lemma Plan.From.after {plan : Plan} (h : plan.From codec src received)
    (hb : ∀ a ∈ before, ActionOf codec src received a) :
    (plan.after before).From codec src received where
  actions a ha := (mem_append.1 ha).elim (hb a) (h.actions a)
  aside := h.aside

/-- A plan without actions that leaves the phase. -/
lemma idlePlan_from
    (haside : ∀ high through batch, task.phase = .replaying high through (some batch) →
      received batch) (signals invalidated) :
    (idlePlan task signals invalidated).From codec src received where
  actions _ ha := absurd ha not_mem_nil
  aside := haside

lemma finishLivePlan_from (task seq) (hbatch : ∀ b, batch = some b → received b)
    (signals invalidated) :
    (finishLivePlan codec src task seq batch signals invalidated).From codec src received := by
  cases batch with
  | none =>
    refine ⟨fun _ ha => absurd ha not_mem_nil, fun _ _ _ hphase => ?_⟩
    exact absurd hphase (by simp [finishLivePlan])
  | some batch =>
    refine ⟨fun a ha => ?_, fun _ _ _ hphase => absurd hphase (by simp [finishLivePlan])⟩
    rcases mem_append.1 ha with ha | ha
    · exact actionOf_batchActions (hbatch batch rfl) a ha
    cases hs : task.suspended with
    | false => simp [hs] at ha
    | true =>
      simp only [hs, if_true, mem_cons, not_mem_nil, or_false] at ha
      exact ha ▸ .resume

lemma replayFailedPlan_from (task seq) (hbatch : ∀ b, batch = some b → received b) (signals) :
    (replayFailedPlan codec src task seq batch signals).From codec src received :=
  (finishLivePlan_from task seq hbatch signals true).after actionOf_invalidateActions

lemma receiveSeqPlan_from (hpoll : task.phase = .polling) (opening seq)
    (hbatch : ∀ b, decodeRanked codec src.dpRank payload = some b → received b)
      (signals invalidated) :
    (receiveSeqPlan codec src task opening seq payload signals invalidated).From codec src
      received := by
  have hsuspend : ∀ a ∈ [TaskAction.suspend], ActionOf codec src received a := by
    intro a ha
    rw [mem_singleton] at ha
    exact ha ▸ .suspend
  simp only [receiveSeqPlan]
  split
  · refine idlePlan_from (fun _ _ _ hphase => ?_) ..
    simp [hpoll] at hphase
  split
  · split
    · refine ⟨hsuspend, fun _ _ batch hphase => hbatch batch ?_⟩
      exact (replaying.inj hphase).2.2
    · exact (replayFailedPlan_from _ seq hbatch _).after hsuspend
  · exact finishLivePlan_from task seq hbatch ..

/-- A live iteration applies what its message carries. -/
lemma receivePlan_from (hpoll : task.phase = .polling) (opening recv) :
    (receivePlan codec src task opening recv).From codec src (recv.Carries codec src) := by
  have hidle : (idlePlan task [] false).From codec src (recv.Carries codec src) :=
    idlePlan_from (fun high through batch hphase => by simp [hpoll] at hphase) ..
  cases recv with
  | eagain
  | error => exact hidle
  | frames frames =>
    cases hframe : liveFrame frames with
    | none =>
      simp only [receivePlan, hframe]
      refine ⟨actionOf_invalidateActions, fun _ _ _ hphase => ?_⟩
      simp [hpoll] at hphase
    | some frame =>
      obtain ⟨seq, payload⟩ := frame
      simp only [receivePlan, hframe]
      by_cases hend : seq = endSeq
      · rw [if_pos hend]
        exact hidle
      have hcarried : ∀ b, decodeRanked codec src.dpRank payload = some b →
          (LiveRecv.frames frames).Carries codec src b :=
        fun b hb => ⟨frames, seq, payload, rfl, hframe, hend, hb⟩
      split_ifs with hrestart
      · refine Plan.From.after (receiveSeqPlan_from ?_ opening seq hcarried ..)
          actionOf_invalidateActions
        exact hpoll
      · exact receiveSeqPlan_from hpoll opening seq hcarried ..

/-- A round of the replay applies what its message carries, or the live batch
that was kept aside. -/
lemma replayReceivePlan_from (hphase : task.phase = .replaying high through batch)
    (hhigh : -1 ≤ high) (recv) :
    (replayReceivePlan codec src task high through batch recv).From codec src
      fun b => batch = some b ∨ recv.Carries codec src b := by
  have hfailed : (replayFailedPlan codec src task through batch []).From codec src
      fun b => batch = some b ∨ recv.Carries codec src b :=
    replayFailedPlan_from task through (fun b hb => .inl hb) []
  have hidle : (idlePlan task [] false).From codec src
      fun b => batch = some b ∨ recv.Carries codec src b := by
    refine idlePlan_from (fun _ _ _ hphase' => .inl ?_) ..
    rw [hphase] at hphase'
    exact (replaying.inj hphase').2.2
  rcases replayReceivePlan_cases task high through batch recv with
    heq | heq | ⟨frames, seq, payload, replayed, hrecv, hframe, hnext, hdec, happ⟩
  · exact heq ▸ hfailed
  · exact heq ▸ hidle
  obtain ⟨n, rfl⟩ := Int.eq_ofNat_of_zero_le (show 0 ≤ seq by omega)
  have hcarried : recv.Carries codec src replayed := ⟨frames, payload, n, hrecv, hframe, hdec⟩
  rcases happ with ⟨hactions, htask⟩ | ⟨hactions, htask⟩
  · refine ⟨fun a ha => ?_, fun high' through' b hphase' => ?_⟩
    · rw [hactions] at ha
      rcases mem_append.1 ha with ha | ha
      · exact actionOf_batchActions (.inr hcarried) a ha
      · rw [mem_singleton] at ha
        exact ha ▸ .resume
    · rw [htask] at hphase'
      cases hphase'
  refine ⟨fun a ha => ?_, fun _ _ _ hphase' => .inl ?_⟩
  · rw [hactions] at ha
    exact actionOf_batchActions (.inr hcarried) a ha
  · rw [htask] at hphase'
    exact (replaying.inj hphase').2.2

end ActionOf

/-! ## Sequence numbers -/

section Floored

/-- No sequence number the task keeps is below the initial one. -/
def Task.Floored (task : Task) : Prop :=
  -1 ≤ task.lastSeq ∧
    ∀ high through batch, task.phase = .replaying high through batch →
      -1 ≤ high ∧ -1 ≤ through

variable {codec : Codec} {src : EventSource} {task : Task}

lemma finishLivePlan_floored (hlast : -1 ≤ task.lastSeq) (hseq : -1 ≤ seq)
    (batch signals invalidated) :
    (finishLivePlan codec src task seq batch signals invalidated).task.Floored := by
  cases batch with
  | none => exact ⟨hlast, nofun⟩
  | some => exact ⟨hseq, nofun⟩

lemma receiveSeqPlan_floored (h : task.Floored) (opening seq payload signals invalidated) :
    (receiveSeqPlan codec src task opening seq payload signals invalidated).task.Floored := by
  have hlast := h.1
  simp only [receiveSeqPlan]
  split
  · exact h
  have hseq : -1 ≤ seq := by omega
  split
  · split
    · refine ⟨hlast, fun _ _ _ hphase => ?_⟩
      obtain ⟨rfl, rfl, -⟩ := replaying.inj hphase
      exact ⟨hlast, hseq⟩
    refine finishLivePlan_floored ?_ hseq ..
    exact hlast
  · exact finishLivePlan_floored hlast hseq ..

lemma receivePlan_floored (h : task.Floored) (opening recv) :
    (receivePlan codec src task opening recv).task.Floored := by
  cases recv with
  | eagain => exact h
  | error => exact h
  | frames frames =>
    simp only [receivePlan]
    cases liveFrame frames with
    | none => exact h
    | some =>
      simp only
      split_ifs with hend hrestart
      · exact h
      · refine receiveSeqPlan_floored ?_ ..
        exact ⟨le_rfl, h.2⟩
      · exact receiveSeqPlan_floored h ..

lemma replayReceivePlan_floored (h : task.Floored)
    (hphase : task.phase = .replaying high through batch) (recv) :
    (replayReceivePlan codec src task high through batch recv).task.Floored := by
  obtain ⟨_, hthrough⟩ := h.2 high through batch hphase
  rcases replayReceivePlan_cases task high through batch recv with
    heq | heq | ⟨frames, seq, payload, replayed, -, -, hnext, -, happ⟩
  · rw [heq]
    exact finishLivePlan_floored h.1 hthrough ..
  · rw [heq]
    exact h
  have hseq : -1 ≤ seq := by omega
  rcases happ with ⟨-, htask⟩ | ⟨-, htask⟩
  · rw [htask]
    exact ⟨hseq, nofun⟩
  rw [htask]
  refine ⟨h.1, fun _ _ _ hphase' => ?_⟩
  obtain ⟨rfl, rfl, -⟩ := replaying.inj hphase'
  exact ⟨hseq, hthrough⟩

end Floored

end VllmRouter.KvIndex
