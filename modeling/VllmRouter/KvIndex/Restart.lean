import VllmRouter.KvIndex.Ingestion
import VllmRouter.KvIndex.Paths

/-!
# A publisher restart drops the old incarnation

A restarted publisher numbers its log from 0 again. The subscriber infers the
restart from a sequence number below its last one, discards the source and goes
on with the new log.

- `Kept`: the invariant rule for runs. What every index action of a run keeps,
  the run keeps; the batches a task may still apply are those it has received.
- `Published`: a claim that some entry of a log stores.
- After a frame below the last sequence number, every claim of the source is
  one the new log published, whatever is lost, replayed or discarded later. A
  frame at the last sequence number itself is taken for a duplicate, and the
  old claims stay.
-/

namespace VllmRouter.KvIndex

open GroupShard List KvIndex.System IngestStep

/-! ## The contract on keys, along a run -/

/-- The stores of a batch respect the contract on keys. -/
def KVEventBatch.Respects (codec : Codec) (source : SourceId) (dpRank : Nat)
    (path : GroupPaths) (batch : KVEventBatch) : Prop :=
  ∀ incarnation, ∀ c ∈ batchCalls codec source dpRank incarnation batch, c.Respects path

/-- Every batch a step delivers respects the contract. -/
def IngestStep.Respects (codec : Codec) (src : EventSource) (path : GroupPaths) :
    IngestStep → Prop
  | .live _ recv => ∀ batch, recv.Carries codec src batch →
      batch.Respects codec src.source src.dpRank path
  | .replay recv => ∀ batch, recv.Carries codec src batch →
      batch.Respects codec src.source src.dpRank path
  | .other source dpRank call => ∀ incarnation batch, call = .batch incarnation batch →
      batch.Respects codec source dpRank path

/-! ## The invariant rule -/

variable {a : TaskAction} {idx : KvBlockIndexer} {sys : System} {source : SourceId} {k : OwnerTier}

section Kept

variable (codec : Codec) (src : EventSource)

/-- Another task, as a source of its own. -/
def otherSource (source : SourceId) (dpRank : Nat) : EventSource := ⟨source, dpRank, none⟩

def OtherCall.actions (other : EventSource) : OtherCall → List TaskAction
  | .batch incarnation entries => batchActions codec other incarnation entries
  | .suspend => [.suspend]
  | .invalidate => invalidateActions other
  | .resume => [.resume]

lemma otherStep_eq (idx source dpRank call) :
    otherStep codec idx source dpRank call = (call.actions codec (otherSource source dpRank)).foldlM
          (TaskAction.perform (otherSource source dpRank)) idx := by
  cases call with
  | batch incarnation batch =>
    have h := @perform_batchActions codec (otherSource source dpRank) incarnation batch idx
    exact h.symm
  | suspend => rfl
  | invalidate =>
    have h := @perform_invalidateActions (otherSource source dpRank) idx
    exact h.symm
  | resume => rfl

/-- The batches that a step delivers to the task. -/
def IngestStep.Carries : IngestStep → KVEventBatch → Prop
  | .live _ recv, batch => recv.Carries codec src batch
  | .replay recv, batch => recv.Carries codec src batch
  | .other .., _ => False

/-- `Good` is kept by every action that the steps can take, when the task
applies batches of `received` only. -/
structure Kept (steps : List IngestStep) (received : KVEventBatch → Prop)
    (Good : KvBlockIndexer → Prop) : Prop where
  carried : ∀ step ∈ steps, ∀ batch, step.Carries codec src batch → received batch
  own : ∀ a, ActionOf codec src received a → ∀ idx, Good idx →
    ∃ idx', a.perform src idx = some idx' ∧ Good idx'
  other : ∀ source dpRank call, .other source dpRank call ∈ steps →
    ∀ a ∈ call.actions codec (otherSource source dpRank), ∀ idx, Good idx →
      ∃ idx', a.perform (otherSource source dpRank) idx = some idx' ∧ Good idx'

/-- The state of a run that has kept `Good` so far. -/
structure KeptState (received : KVEventBatch → Prop) (Good : KvBlockIndexer → Prop)
    (sys : System) : Prop where
  index : Good sys.index
  aside : ∀ high through batch, sys.task.phase = .replaying high through (some batch) →
    received batch
  floored : sys.task.Floored

variable {codec src} {steps : List IngestStep} {received : KVEventBatch → Prop}
  {Good : KvBlockIndexer → Prop}

lemma ActionOf.mono (h : ActionOf codec src received a) (hle : ∀ b, received b → received' b) :
    ActionOf codec src received' a := by
  cases h with
  | event hb hc => exact .event (hle _ hb) hc
  | discard => exact .discard
  | suspend => exact .suspend
  | resume => exact .resume

lemma Plan.From.mono {plan : Plan} (h : plan.From codec src received)
    (hle : ∀ b, received b → received' b) :
    plan.From codec src received' where
  actions a ha := (h.actions a ha).mono hle
  aside high through batch hphase := hle _ (h.aside high through batch hphase)

lemma Kept.sublist (h : Kept codec src steps received Good) (hsub : steps'.Sublist steps) :
    Kept codec src steps' received Good where
  carried step hstep := h.carried step (hsub.subset hstep)
  own := h.own
  other source dpRank call hstep := h.other source dpRank call (hsub.subset hstep)

/-- Actions that each keep `Good` return and keep it together. -/
lemma actions_keep {actions : List TaskAction}
    (hkeep : ∀ a ∈ actions, ∀ idx, Good idx → ∃ idx', a.perform actor idx = some idx' ∧ Good idx')
    (hgood : Good idx) :
    ∃ idx', actions.foldlM (TaskAction.perform actor) idx = some idx' ∧ Good idx' := by
  refine foldlM_rule (l := actions) (P := fun _ idx => Good idx) ?_ actions [] idx rfl hgood
  intro _ a _ idx hl hidx
  exact hkeep a (by simp [hl]) idx hidx

variable (hkept : Kept codec src steps received Good)
include hkept

/-- A plan of batches received so far. -/
lemma plan_keeps {plan : Plan} (hfrom : plan.From codec src received) (hfloor : plan.task.Floored)
    (hgood : Good sys.index) :
    ∃ out, plan.perform src sys.index = some out ∧ KeptState received Good (sys.after out) := by
  obtain ⟨idx', hrun, hidx'⟩ := actions_keep (fun a ha => hkept.own a (hfrom.actions a ha)) hgood
  refine ⟨⟨plan.task, idx', plan.signals, plan.invalidated⟩, ?_, hidx', hfrom.aside, hfloor⟩
  rw [Plan.perform, hrun]
  rfl

/-- **One step** of a run returns and keeps the invariant. -/
lemma step_keeps {step : IngestStep} (hstep : step ∈ steps) (h : KeptState received Good sys) :
    ∃ sys', sys.step codec src step = some sys' ∧ KeptState received Good sys' := by
  cases step with
  | live opening recv =>
    cases hphase : sys.task.phase with
    | replaying => exact ⟨sys, by simp only [step, hphase], h⟩
    | polling =>
      have hfrom : (receivePlan codec src sys.task opening recv).From codec src received :=
        (receivePlan_from hphase opening recv).mono (hkept.carried _ hstep)
      obtain ⟨out, hrun, hout⟩ := plan_keeps hkept hfrom
        (receivePlan_floored h.floored opening recv) h.index
      refine ⟨sys.after out, ?_, hout⟩
      simp [step, hphase, receive_eq, hrun]
  | replay recv =>
    cases hphase : sys.task.phase with
    | polling => exact ⟨sys, by simp only [step, hphase], h⟩
    | replaying high through batch =>
      have hfrom : (replayReceivePlan codec src sys.task high through batch recv).From codec src
          received := by
        refine (replayReceivePlan_from hphase (h.floored.2 _ _ _ hphase).1 recv).mono ?_
        rintro b (hb | hb)
        · exact h.aside high through b (hb ▸ hphase)
        · exact hkept.carried _ hstep b hb
      obtain ⟨out, hrun, hout⟩ := plan_keeps hkept hfrom
        (replayReceivePlan_floored h.floored hphase recv) h.index
      refine ⟨sys.after out, ?_, hout⟩
      simp [step, hphase, replayReceive_eq, hrun]
  | other source dpRank call =>
    obtain ⟨idx', hrun, hidx'⟩ := actions_keep (hkept.other source dpRank call hstep) h.index
    refine ⟨{ sys with index := idx' }, ?_, hidx', h.aside, h.floored⟩
    simp [step, otherStep_eq, hrun]

/-- **Whole runs** return and keep the invariant. -/
lemma steps_keep (h : KeptState received Good sys) :
    ∃ sys', steps.foldlM (step codec src) sys = some sys' ∧ KeptState received Good sys' := by
  refine foldlM_rule (l := steps) (P := fun _ sys => KeptState received Good sys) ?_ steps [] sys
    rfl h
  intro _ _ _ _ hl hsys
  exact step_keeps hkept (by simp [hl]) hsys

end Kept

/-! ## The claims of a log -/

section Published

variable (codec : Codec) (src : EventSource) (path : GroupPaths)

/-- An entry of the log stores this claim, under some incarnation. -/
def Published (log : List KVEventBatch) (g : Nat) (k : OwnerTier) (s : Hash) : Prop :=
  ∃ batch ∈ log, ∃ incarnation,
    ∃ c ∈ batchCalls codec src.source src.dpRank incarnation batch, c.Stores g k s

/-- The index answers from observations in which every claim of the source is
one that the log published. -/
def OnlyFrom (log : List KVEventBatch) (idx : KvBlockIndexer) : Prop :=
  ∃ obs, Holds path idx obs ∧
    ∀ g k s, k.1.target = ⟨src.source, src.dpRank⟩ → (k, s) ∈ (obs g).active →
      Published codec src log g k s

variable {codec src path} {log : List KVEventBatch} {steps : List IngestStep}

lemma actionOf_respects (hle : ∀ b, received b → b.Respects codec src.source src.dpRank path)
    (ha : ActionOf codec src received a) : a.Respects path := by
  cases ha with
  | event hb hc => exact hle _ hb _ _ hc
  | discard
  | suspend
  | resume => trivial

lemma otherActions_respect (h : (other source dpRank call).Respects codec src path) :
    ∀ a ∈ call.actions codec (otherSource source dpRank), a.Respects path := by
  intro a ha
  have hle : ∀ b, (∃ incarnation, call = .batch incarnation b) →
      b.Respects codec (otherSource source dpRank).source (otherSource source dpRank).dpRank path :=
    fun b ⟨incarnation, hb⟩ => h incarnation b hb
  refine actionOf_respects hle ?_
  cases call with
  | batch incarnation => exact actionOf_batchActions ⟨incarnation, rfl⟩ a ha
  | suspend => exact mem_singleton.1 ha ▸ .suspend
  | invalidate => exact actionOf_invalidateActions a ha
  | resume => exact mem_singleton.1 ha ▸ .resume

/-- The calls of another task are on claims of its own source and rank. -/
lemma otherActions_touch {call : OtherCall}
    (hrank : ∀ incarnation batch, call = .batch incarnation batch →
      batch.dataParallelRank = none ∨ batch.dataParallelRank = some dpRank)
    (hc : .call c ∈ call.actions codec (otherSource source dpRank)) (hk : c.Touches k) :
    k.1.target = ⟨source, dpRank⟩ := by
  cases call with
  | batch incarnation batch =>
    obtain ⟨c', hc', heq⟩ := mem_map.1 hc
    obtain rfl := TaskAction.call.inj heq
    obtain ⟨ev, -, rfl⟩ := mem_map.1 hc'
    have htarget := eventCall_touches hk
    rcases hrank incarnation batch rfl with hr | hr
    · rw [hr] at htarget
      exact htarget
    · rw [hr] at htarget
      exact htarget
  | suspend
  | resume => simp [OtherCall.actions] at hc
  | invalidate =>
    simp only [OtherCall.actions, invalidateActions, mem_cons, reduceCtorEq,
      TaskAction.call.injEq, not_mem_nil, or_false, false_or] at hc
    subst hc
    exact hk

/-- Every run under the contract on keys answers from its observations. -/
lemma kept_holds (hkeys : ∀ step ∈ steps, step.Respects codec src path) :
    Kept codec src steps (fun b => b.Respects codec src.source src.dpRank path)
      fun idx => ∃ obs, Holds path idx obs where
  carried step hstep batch hb := by
    cases step with
    | live opening recv
    | replay => exact hkeys _ hstep batch hb
    | other => exact hb.elim
  own a ha idx h := by
    obtain ⟨_, hobs⟩ := h
    obtain ⟨idx', hrun, h'⟩ := hobs.perform src (actionOf_respects (fun _ hb => hb) ha)
    exact ⟨idx', hrun, _, h'⟩
  other source dpRank call hstep a ha idx h := by
    obtain ⟨_, hobs⟩ := h
    obtain ⟨idx', hrun, h'⟩ := hobs.perform (otherSource source dpRank)
      (otherActions_respect (hkeys _ hstep) a ha)
    exact ⟨idx', hrun, _, h'⟩

/-- One action keeps the claims of a log: it stores nothing of the source, or
what an entry of the log stores. -/
lemma OnlyFrom.perform (h : OnlyFrom codec src path log idx) (actor) (ha : a.Respects path)
    (hstores : ∀ c g k s, a = .call c → k.1.target = ⟨src.source, src.dpRank⟩ →
      c.Stores g k s → Published codec src log g k s) :
    ∃ idx', a.perform actor idx = some idx' ∧ OnlyFrom codec src path log idx' := by
  obtain ⟨obs, hobs, hclaims⟩ := h
  obtain ⟨idx', hrun, hobs'⟩ := hobs.perform actor ha
  refine ⟨idx', hrun, _, hobs', fun g k s hk hmem => ?_⟩
  cases a with
  | suspend
  | resume => exact hclaims g k s hk hmem
  | call c =>
    rcases (obs.mem_apply c g k s).1 hmem with ⟨hold, -⟩ | ⟨hst, -⟩
    · exact hclaims g k s hk hold
    · exact hstores c g k s rfl hk hst

lemma IndexCall.Stores.touches {c : IndexCall} (h : c.Stores g k s) : c.Touches k := by
  cases c with
  | store => exact h.2.1
  | remove groupIdx owner tier seqHashes
  | clear owner scope
  | clearSource => exact h.elim

/-- A run that delivers the log keeps the claims to those of the log. -/
lemma kept_onlyFrom (hdel : Delivers codec src log steps)
    (hkeys : ∀ step ∈ steps, step.Respects codec src path) :
    Kept codec src steps (fun b => b ∈ log ∧ b.Respects codec src.source src.dpRank path)
      (OnlyFrom codec src path log) where
  carried step hstep batch hb := by
    cases step with
    | live opening =>
      refine ⟨?_, hkeys _ hstep batch hb⟩
      obtain ⟨frames, seq, payload, rfl, hframe, hend, hdec⟩ := hb
      obtain ⟨n, -, -, hentry⟩ := hdel.live opening frames seq payload hstep hframe hend
      exact mem_of_getElem? (hentry batch hdec)
    | replay =>
      refine ⟨?_, hkeys _ hstep batch hb⟩
      obtain ⟨frames, payload, n, rfl, hframe, hdec⟩ := hb
      exact mem_of_getElem? (hdel.replay frames payload n batch hstep hframe hdec)
    | other => exact hb.elim
  own a ha idx h := by
    refine h.perform src (actionOf_respects (fun _ hb => hb.2) ha) fun c g k s hac hk hst => ?_
    subst hac
    cases ha with
    | event hb hc => exact ⟨_, hb.1, _, c, hc, hst⟩
    | discard => exact hst.elim
  other source dpRank call hstep a ha idx h := by
    obtain ⟨hne, hrank⟩ := hdel.other source dpRank call hstep
    refine h.perform _ (otherActions_respect (hkeys _ hstep) a ha) fun c g k s hac hk hst => ?_
    subst hac
    -- the other source stores no claim of this one
    have htarget := otherActions_touch hrank ha hst.touches
    rw [hk] at htarget
    obtain ⟨hs, hr⟩ := RoutableTarget.mk.inj htarget
    exact absurd (Prod.ext hs.symm hr.symm) hne

end Published

/-! ## The restart -/

section Restart

variable {codec : Codec} {src : EventSource} {path : GroupPaths} {log : List KVEventBatch}

/-- Discarding the source leaves none of its claims. -/
lemma invalidate_onlyFrom (h : Holds path idx obs) (log) :
    ∃ idx', (invalidateActions src).foldlM (TaskAction.perform src) idx = some idx' ∧
      OnlyFrom codec src path log idx' := by
  obtain ⟨_, hrun1, h1⟩ := h.perform src (a := .suspend) trivial
  obtain ⟨idx2, hrun2, h2⟩ :=
    h1.perform src (a := .call (.clearSource src.source src.dpRank)) trivial
  refine ⟨idx2, ?_, _, h2, fun g k s hk hmem => ?_⟩
  · simp only [invalidateActions, foldlM_cons, hrun1, hrun2, Option.bind_eq_bind, Option.bind_some]
    rfl
  rcases (IndexObs.mem_apply _ _ g k s).1 hmem with ⟨-, hkept⟩ | ⟨hst, -⟩
  · exact absurd hk hkept
  · exact hst.elim

/-- A frame below the last sequence number leaves the claims of its own log. -/
lemma restart_step (hdel : Delivers codec src log steps)
    (hkeys : ∀ step ∈ steps, step.Respects codec src path)
    (hstep : .live opening (.frames frames) ∈ steps)
    (hframe : liveFrame frames = some (seq, payload)) (hpoll : sys.task.phase = .polling)
    (hfloor : sys.task.Floored) (hbelow : 0 ≤ seq ∧ seq < sys.task.lastSeq)
    (hobs : Holds path sys.index obs) :
    ∃ sys', sys.step codec src (.live opening (.frames frames)) = some sys' ∧
      KeptState (fun b => b ∈ log ∧ b.Respects codec src.source src.dpRank path)
        (OnlyFrom codec src path log) sys' := by
  have hend : seq ≠ endSeq := by
    unfold endSeq
    omega
  have hlast : sys.task.lastSeq ≠ -1 ∧ seq < sys.task.lastSeq := ⟨by omega, hbelow.2⟩
  have hkept := kept_onlyFrom hdel hkeys
  have hcarried : ∀ b, decodeRanked codec src.dpRank payload = some b →
      b ∈ log ∧ b.Respects codec src.source src.dpRank path := fun b hb =>
    hkept.carried _ hstep b ⟨frames, seq, payload, rfl, hframe, hend, hb⟩
  obtain ⟨idx', hclear, hidx'⟩ : ∃ idx',
      (invalidateActions src).foldlM (TaskAction.perform src) sys.index = some idx' ∧
      OnlyFrom codec src path log idx' := invalidate_onlyFrom hobs log
  -- what follows the discarded source is an iteration of a task that has seen nothing
  let task : Task := { sys.task with
    lastSeq := -1, incarnation := sys.task.incarnation + 1, suspended := true }
  let plan := receiveSeqPlan codec src task opening seq payload
    [.incarnationReset src.source (sys.task.incarnation + 1)] true
  have htask : task.phase = .polling := hpoll
  have hfrom : plan.From codec src fun b => b ∈ log ∧ b.Respects codec src.source src.dpRank path :=
    receiveSeqPlan_from htask opening seq hcarried ..
  have hfresh : task.Floored := ⟨le_rfl, hfloor.2⟩
  have hfloored : plan.task.Floored := receiveSeqPlan_floored hfresh ..
  let cleared : System := { sys with index := idx' }
  have hcleared : OnlyFrom codec src path log cleared.index := hidx'
  obtain ⟨out, hrun, hout⟩ := plan_keeps hkept hfrom hfloored hcleared
  refine ⟨cleared.after out, ?_, hout⟩
  have hiter : sys.step codec src (.live opening (.frames frames))
      = (receive codec src sys.task sys.index opening (.frames frames)).map sys.after := by
    simp [step, hpoll]
  have hplan : receivePlan codec src sys.task opening (.frames frames)
      = plan.after (invalidateActions src) := by
    simp only [receivePlan, hframe, if_neg hend, if_pos hlast]
    rfl
  rw [hiter, receive_eq, hplan, perform_after, hclear]
  exact congrArg (Option.map sys.after) hrun

/-- Every depth that the hit covers is held by a claim that the log published. -/
def ReportedFrom (codec : Codec) (src : EventSource) (path : GroupPaths)
    (log : List KVEventBatch) (query : MatchQuery) (m : TierMatch) : Prop :=
  ∀ a b, (a, b) ∈ m.segments → ∀ d, a ≤ d → d < b →
    ∃ k s, k.1.target = m.target ∧ k.2 = m.tier ∧
      path query.groupIdx s = query.localHashes.take (d + 1) ∧
      Published codec src log query.groupIdx k s

/-- **A restart drops the old incarnation.** After any run that leaves the task
polling, let a frame of the new log arrive below the last sequence number. From
then on, whatever of the new log is delivered, every claim of the source is one
that the new log published, and so is everything that queries report for it. -/
theorem restart_forgets_old_log {before rest : List IngestStep} {opening : ReplayOpen}
    {frames : Frames} {seq : Int} {payload : List UInt8} {sys : System}
    (hrun : run codec src before = some sys) (hpoll : sys.task.phase = .polling)
    (hdel : Delivers codec src log (.live opening (.frames frames) :: rest))
    (hkeys : ∀ step ∈ before ++ .live opening (.frames frames) :: rest,
      step.Respects codec src path)
    (hframe : liveFrame frames = some (seq, payload)) (hend : seq ≠ endSeq)
    (hle : seq ≤ sys.task.lastSeq) (hnew : seq ≠ sys.task.lastSeq) :
    ∃ sys', run codec src (before ++ .live opening (.frames frames) :: rest) = some sys' ∧
      (∀ g k s, k.1.target = ⟨src.source, src.dpRank⟩ → (sys'.index.shard g).Active k s →
        Published codec src log g k s) ∧ ∀ query, ∃ ms, sys'.index.findMatches query = some ms ∧
        ∀ m ∈ ms, m.target = ⟨src.source, src.dpRank⟩ →
          ReportedFrom codec src path log query m := by
  -- before the restart: the index answers from its observations
  have hinit : KeptState (fun b => b.Respects codec src.source src.dpRank path)
      (fun idx => ∃ obs, Holds path idx obs) init :=
    ⟨⟨_, holds_new path⟩, nofun, le_rfl,
      nofun⟩
  obtain ⟨_, hrun1, hsys1⟩ := steps_keep
    (kept_holds fun step hstep => hkeys step (mem_append_left _ hstep)) hinit
  obtain rfl := Option.some.inj (hrun.symm.trans hrun1)
  obtain ⟨_, hobs⟩ := hsys1.index
  -- the restart and what follows it
  have hkeysB : ∀ step ∈ live opening (.frames frames) :: rest,
      step.Respects codec src path := fun step hstep =>
    hkeys step (mem_append_right _ hstep)
  obtain ⟨n, hn, -, -⟩ := hdel.live opening frames seq payload mem_cons_self hframe hend
  have hbelow : 0 ≤ seq ∧ seq < sys.task.lastSeq := by omega
  obtain ⟨_, hrun2, hsys2⟩ := restart_step hdel hkeysB mem_cons_self hframe hpoll
    hsys1.floored hbelow hobs
  obtain ⟨sys', hrun', hsys'⟩ := steps_keep
    ((kept_onlyFrom hdel hkeysB).sublist (sublist_cons_self _ rest)) hsys2
  obtain ⟨_, hobs', hclaims⟩ := hsys'.index
  refine ⟨sys', ?_, fun g k s hk hact => ?_, fun query => ?_⟩
  · unfold run at hrun ⊢
    rw [foldlM_append, hrun, Option.bind_eq_bind, Option.bind_some, foldlM_cons, hrun2]
    exact hrun'
  · exact hclaims g k s hk (((hobs'.observes.observes g).active k s).1 hact)
  obtain ⟨_, -, -, hfind⟩ := hobs'.findMatches query
  refine ⟨_, hfind, fun m hm htarget a b hseg d ha hb => ?_⟩
  obtain ⟨owner, howner, -, s, hs, hpath⟩ := hobs'.findMatches_held hfind hm hseg ha hb
  exact ⟨(owner, m.tier), s, howner, rfl, hpath, hclaims _ _ s (howner.trans htarget) hs⟩

end Restart

/-! ## A new log that starts at the last sequence number

The same two logs with and without the coincidence: the new log's first frame
comes at the last sequence number of the old one, or below it. -/

/-- A live message with the payload `p` at position `n`. -/
def liveAt (n p : UInt8) : IngestStep := .live .opened (.frames [[], seqBytes n, [p]])

lemma liveFrame_seqBytes (n p : UInt8) :
    liveFrame [[], seqBytes n, [p]] = some ((n.toNat : Int), [p]) := by
  have hlt := n.toNat_lt
  simp only [liveFrame, seqBytes, readSeq]
  simp
  omega

section LiveAt

variable {codec : Codec} {src : EventSource}

/-- Live messages in log order deliver a log. -/
lemma delivers_liveAt (ps : List (UInt8 × UInt8))
    (hsorted : (ps.map fun p => p.1.toNat).Pairwise (· ≤ ·))
    (hentry : (ps.all fun p => decide (p.1.toNat < log.length ∧
      decodeRanked codec src.dpRank [p.2] = log[p.1.toNat]?)) = true) :
    Delivers codec src log (ps.map fun p => liveAt p.1 p.2) where
  inOrder := by
    have hseqs : liveSeqs (ps.map fun p => liveAt p.1 p.2)
        = (ps.map fun p => p.1.toNat).map Int.ofNat := by
      unfold liveSeqs
      rw [filterMap_map, map_map]
      rw [← filterMap_eq_map]
      refine filterMap_congr fun p _ => ?_
      have hend : (p.1.toNat : Int) ≠ endSeq := by
        unfold endSeq
        omega
      simp only [Function.comp, liveAt, liveSeq, liveFrame_seqBytes, Option.map_some]
      rfl
    rw [hseqs, pairwise_map]
    exact hsorted.imp fun h => Int.ofNat_le.2 h
  live := by
    intro _ _ _ _ hmem hframe _
    obtain ⟨p, hp, heq⟩ := mem_map.1 hmem
    obtain ⟨-, hframes⟩ := live.inj heq
    obtain rfl := LiveRecv.frames.inj hframes
    rw [liveFrame_seqBytes] at hframe
    cases hframe
    obtain ⟨hlt, hdecode⟩ := of_decide_eq_true (all_eq_true.1 hentry p hp)
    exact ⟨p.1.toNat, rfl, hlt, fun batch hdec => hdecode.symm.trans hdec⟩
  replay := by
    intro _ _ _ _ hmem
    obtain ⟨p, -, heq⟩ := mem_map.1 hmem
    cases heq
  other := by
    intro _ _ _ hmem
    obtain ⟨p, -, heq⟩ := mem_map.1 hmem
    cases heq

lemma liveAt_respects (h : ∀ batch, decodeRanked codec src.dpRank [p] = some batch →
      batch.Respects codec src.source src.dpRank path) : (liveAt n p).Respects codec src path := by
  rintro batch ⟨_, _, _, hframes, hframe, -, hdec⟩
  obtain rfl := LiveRecv.frames.inj hframes
  rw [liveFrame_seqBytes] at hframe
  cases hframe
  exact h batch hdec

end LiveAt

def oldLog : List KVEventBatch := [⟨[storedEvent none 1], none⟩, ⟨[], none⟩]

def newLog : List KVEventBatch := [⟨[storedEvent none 2], none⟩, ⟨[storedEvent none 3], none⟩]

/-- A payload is the position of its entry in the two logs together. -/
def restartCodec : Codec where
  fromSlice payload := match payload with
    | [i] => (oldLog ++ newLog)[i.toNat]?
    | _ => none
  sha256 := id

def restartSource : EventSource := ⟨"w", 0, none⟩

/-- The block that a key names. -/
def restartPath : GroupPaths := fun _ s =>
  (["i:1", "i:2", "i:3"].zip [["01000000"], ["02000000"], ["03000000"]]).lookup s |>.getD []

lemma eventCall_stored (hid : codec.sha256 = id) (n : Nat) (source rank incarnation) :
    eventCall codec source rank incarnation (storedEvent none n)
      = .store 0 (.worker source rank incarnation) .device none
          [(hashStr (.int n), hex (toLeBytes n.toUInt32))] := by
  simp [eventCall, storedEvent, eventOwner, eventTier, StorageTier.fromMedium, localBlockHashes,
    chunks, hid]

lemma storedEvent_respects (hid : codec.sha256 = id)
    (hpath : path 0 (hashStr (.int n)) = [hex (toLeBytes n.toUInt32)]) :
    (eventCall codec source rank incarnation (storedEvent none n)).Respects path := by
  rw [eventCall_stored hid]
  rintro (_ | i) b hb
  · obtain rfl := Option.some.inj hb
    exact hpath
  · cases hb

lemma entries_respect : ∀ batch ∈ oldLog ++ newLog,
    batch.Respects restartCodec "w" 0 restartPath := by
  intro _ hbatch _ _ hc
  simp only [oldLog, newLog, cons_append, nil_append, mem_cons, not_mem_nil, or_false] at hbatch
  obtain ⟨ev, hev, rfl⟩ := mem_map.1 hc
  rcases hbatch with rfl | rfl | rfl | rfl
  · obtain rfl := mem_singleton.1 hev
    exact storedEvent_respects rfl (by decide +kernel)
  · cases hev
  · obtain rfl := mem_singleton.1 hev
    exact storedEvent_respects rfl (by decide +kernel)
  · obtain rfl := mem_singleton.1 hev
    exact storedEvent_respects rfl (by decide +kernel)

lemma restartSteps_respect (n p) :
    (liveAt n p).Respects restartCodec restartSource restartPath := by
  refine liveAt_respects fun batch hdec => entries_respect batch ?_
  obtain ⟨hget, -⟩ := Option.filter_eq_some_iff.1 hdec
  exact mem_of_getElem? hget

/-- A query for the block that only the old log stored. -/
def oldQuery : MatchQuery := ⟨0, ["01000000"], [.device]⟩

/-- No entry of the new log stores the old block. -/
lemma old_not_published (hpath : restartPath 0 s = ["01000000"]) :
    ¬ Published restartCodec restartSource newLog 0 k s := by
  rintro ⟨_, hbatch, _, _, hc, hst⟩
  obtain ⟨ev, hev, rfl⟩ := mem_map.1 hc
  simp only [newLog, mem_cons, not_mem_nil, or_false] at hbatch
  rcases hbatch with rfl | rfl
  all_goals
    obtain rfl := mem_singleton.1 hev
    obtain rfl := mem_singleton.1 hst.2.2
    revert hpath
    decide +kernel

/-- The old log stops at position 0 and the new one starts there: its first
entry is skipped as a duplicate, its second one goes on top, and the source is
still credited with a block that only the old log stored. -/
theorem restart_at_last_seq_keeps_old_log :
    Delivers restartCodec restartSource oldLog [liveAt 0 0] ∧
      Delivers restartCodec restartSource newLog [liveAt 0 2, liveAt 1 3] ∧
      (run restartCodec restartSource [liveAt 0 0]).map (fun sys => sys.task.lastSeq) = some 0 ∧
      ∃ sys ms m, run restartCodec restartSource [liveAt 0 0, liveAt 0 2, liveAt 1 3]
          = some sys ∧ sys.task.lastSeq = 1 ∧
        sys.index.findMatches oldQuery = some ms ∧ m ∈ ms ∧ m.target = ⟨"w", 0⟩ ∧
        ¬ ReportedFrom restartCodec restartSource restartPath newLog oldQuery m := by
  refine ⟨delivers_liveAt [(0, 0)] (by decide) (by decide +kernel),
    delivers_liveAt [(0, 2), (1, 3)] (by decide) (by decide +kernel), by decide +kernel, ?_⟩
  obtain ⟨sys, hsys⟩ := Option.isSome_iff_exists.1
    (show (run restartCodec restartSource [liveAt 0 0, liveAt 0 2, liveAt 1 3]).isSome by
      decide +kernel)
  have hcheck : (run restartCodec restartSource
      [liveAt 0 0, liveAt 0 2, liveAt 1 3]).map (fun sys =>
        (sys.task.lastSeq, sys.index.findMatches oldQuery))
      = some (1, some [⟨⟨"w", 0⟩, .device, [(0, 1)], .local⟩]) := by
    decide +kernel
  rw [hsys] at hcheck
  obtain ⟨hlast, hfind⟩ := Prod.mk.inj (Option.some.inj hcheck)
  refine ⟨sys, _, _, hsys, hlast, hfind, mem_singleton.2 rfl, rfl, fun hrep => ?_⟩
  obtain ⟨k, s, -, -, hpath, hpub⟩ := hrep 0 1 (mem_singleton.2 rfl) 0 le_rfl Nat.one_pos
  exact old_not_published hpath hpub

/-- The old log stops at position 1 and the new one starts below it: the first
entry of the new log discards the source. -/
theorem restart_forgets_old_log_below :
    (run restartCodec restartSource [liveAt 0 0, liveAt 1 1]).map
        (fun sys => sys.task.lastSeq) = some 1 ∧
      ∃ sys', run restartCodec restartSource [liveAt 0 0, liveAt 1 1, liveAt 0 2] = some sys' ∧
        (∀ g k s, k.1.target = ⟨"w", 0⟩ → (sys'.index.shard g).Active k s →
          Published restartCodec restartSource newLog g k s) ∧
        ∀ query, ∃ ms, sys'.index.findMatches query = some ms ∧ ∀ m ∈ ms, m.target = ⟨"w", 0⟩ →
            ReportedFrom restartCodec restartSource restartPath newLog query m := by
  refine ⟨by decide +kernel, ?_⟩
  obtain ⟨sys, hsys⟩ := Option.isSome_iff_exists.1
    (show (run restartCodec restartSource [liveAt 0 0, liveAt 1 1]).isSome by decide +kernel)
  have hcheck : (run restartCodec restartSource [liveAt 0 0, liveAt 1 1]).map
      (fun sys => (sys.task.phase, sys.task.lastSeq)) = some (.polling, 1) := by
    decide +kernel
  rw [hsys] at hcheck
  obtain ⟨hpoll, hlast⟩ := Prod.mk.inj (Option.some.inj hcheck)
  have hkeys : ∀ step ∈ [liveAt 0 0, liveAt 1 1] ++ liveAt 0 2 :: [],
      step.Respects restartCodec restartSource restartPath := by
    intro _ hstep
    simp only [cons_append, nil_append, mem_cons, not_mem_nil, or_false] at hstep
    rcases hstep with rfl | rfl | rfl
    all_goals exact restartSteps_respect _ _
  exact @restart_forgets_old_log restartCodec restartSource restartPath newLog
    [liveAt 0 0, liveAt 1 1] [] .opened [[], seqBytes 0, [2]] 0 [2] sys hsys hpoll
    (delivers_liveAt [(0, 2)] (by decide) (by decide +kernel)) hkeys (by decide +kernel)
    (by decide) (by rw [hlast]; decide) (by rw [hlast]; decide)

end VllmRouter.KvIndex
