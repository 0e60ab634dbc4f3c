import VllmRouter.KvIndex.LogReplay

/-!
# Ingestion credits what the log says

A run interleaves one subscriber task with the other users of the index. Live
messages arrive in log order, but any of them may be lost, truncated or
undecodable, and a replay may stop anywhere.

- `System.step`: the task cut at its await points, and the other tasks' calls.
- `Delivers`: what the sockets may deliver for a given log.
- `Tracks`: the invariant. The index always holds credit for a log prefix: up
  to `lastSeq` while the task polls, up to the replay's high-water mark while
  it replays, and then the source is hidden.
- `Credited`: what the claims of a visible source are worth.
-/

namespace VllmRouter.KvIndex

open GroupShard KvBlockIndexer List Option IndexObs

/-! ## Runs -/

/-- A call of another subscriber task. -/
inductive OtherCall where
  | batch (incarnation : Nat) (batch : KVEventBatch)
  | suspend
  | invalidate
  | resume

inductive IngestStep where
  | live (opening : ReplayOpen) (recv : LiveRecv)
  | replay (recv : ReplayRecv)
  | other (source : SourceId) (dpRank : Nat) (call : OtherCall)

/-- The task and the index it shares. `invalidated` records whether the task
ever discarded its source. -/
structure System where
  task : Task
  index : KvBlockIndexer
  invalidated : Bool

namespace System

def init : System := ⟨Task.init, new, false⟩

def after (sys : System) (out : Outcome) : System :=
  ⟨out.task, out.index, sys.invalidated || out.invalidated⟩

def otherStep (codec : Codec) (idx : KvBlockIndexer) (source : SourceId) (dpRank : Nat) :
    OtherCall → Option KvBlockIndexer
  | .batch incarnation batch => applyBatch codec idx source dpRank incarnation batch
  | .suspend => some (idx.suspendSource source dpRank)
  | .invalidate => idx.invalidateSource source dpRank
  | .resume => some (idx.resumeSource source dpRank)

/-- One step. A message on the socket that the task does not await is lost. -/
def step (codec : Codec) (src : EventSource) (sys : System) : IngestStep → Option System
  | .live opening recv =>
    match sys.task.phase with
    | .polling => (receive codec src sys.task sys.index opening recv).map sys.after
    | .replaying .. => some sys
  | .replay recv =>
    match sys.task.phase with
    | .polling => some sys
    | .replaying high through batch =>
      (replayReceive codec src sys.task sys.index high through batch recv).map sys.after
  | .other source dpRank call =>
    (otherStep codec sys.index source dpRank call).map fun idx => { sys with index := idx }

def run (codec : Codec) (src : EventSource) (steps : List IngestStep) : Option System :=
  steps.foldlM (step codec src) init

end System

/-! ## What the sockets deliver -/

/-- The sequence number of a well-formed live message. -/
def IngestStep.liveSeq : IngestStep → Option Int
  | .live _ (.frames frames) => ((liveFrame frames).map Prod.fst).filter (· ≠ endSeq)
  | _ => none

def liveSeqs (steps : List IngestStep) : List Int := steps.filterMap IngestStep.liveSeq

/-- The steps deliver the log of `src`. Live messages come in order and carry
positions of the log, and a payload that decodes is the entry at its position.
Messages that are cut short, payloads that do not decode, and the order in
which a replay sends its messages are arbitrary. -/
structure Delivers (codec : Codec) (src : EventSource) (log : List KVEventBatch)
    (steps : List IngestStep) : Prop where
  inOrder : (liveSeqs steps).Pairwise (· ≤ ·)
  live : ∀ opening frames seq payload, .live opening (.frames frames) ∈ steps →
    liveFrame frames = some (seq, payload) → seq ≠ endSeq →
    ∃ n : Nat, seq = n ∧ n < log.length ∧
      ∀ batch, decodeRanked codec src.dpRank payload = some batch → log[n]? = some batch
  replay : ∀ frames payload (n : Nat) batch, .replay (.frames frames) ∈ steps →
    replayFrame frames = some ((n : Int), payload) →
    decodeRanked codec src.dpRank payload = some batch → log[n]? = some batch
  other : ∀ source dpRank call, .other source dpRank call ∈ steps →
    (source, dpRank) ≠ (src.source, src.dpRank) ∧
    ∀ incarnation batch, call = .batch incarnation batch →
      batch.dataParallelRank = none ∨ batch.dataParallelRank = some dpRank

/-- No other task used the index. -/
def Alone (steps : List IngestStep) : Prop :=
  ∀ source dpRank call, .other source dpRank call ∉ steps

/-! ## The invariant -/

variable {batch : Option KVEventBatch} {seq : Int} {payload : List UInt8}

variable {steps : List IngestStep}

section Invariant

variable (codec : Codec) (src : EventSource) (log : List KVEventBatch)

/-- The last log position whose batch the index has. -/
def Task.front (task : Task) : Int :=
  match task.phase with
  | .polling => task.lastSeq
  | .replaying high _ _ => high

/-- `seq` was received live, and `batch` is what its payload decoded to. -/
structure Received (done : List IngestStep) (seq : Int) (batch : Option KVEventBatch) :
    Prop where
  mem : seq ∈ liveSeqs done
  entry : ∃ n : Nat, seq = n ∧ ∀ b, batch = some b → log[n]? = some b

/-- The sequence number a task has applied comes from a live message. -/
def Bounded (done : List IngestStep) (lastSeq : Int) : Prop :=
  lastSeq = -1 ∨ 0 ≤ lastSeq ∧ ∃ p ∈ liveSeqs done, lastSeq ≤ p

structure Tracks (done : List IngestStep) (invalidated : Prop) (task : Task)
    (idx : KvBlockIndexer) : Prop where
  incarnation : task.incarnation = 0
  bounded : Bounded done task.lastSeq
  credit : ∃ (n : Nat) (obs : IndexObs), task.front + 1 = n ∧ IndexObserves idx obs ∧
    Credit codec src log (Alone done) invalidated n obs
  replaying : ∀ high through batch, task.phase = .replaying high through batch →
    high < through ∧ Received log done through batch ∧
    idx.isSuspended src.source src.dpRank = true

variable {codec src log} {done done' : List IngestStep} {invalidated : Prop} {task : Task}
  {idx : KvBlockIndexer} {obs : IndexObs}

lemma Bounded.ge (h : Bounded done task.lastSeq) : -1 ≤ task.lastSeq := by
  rcases h with h | h <;> omega

lemma tracks_init : Tracks codec src log [] (False) Task.init new where
  incarnation := rfl
  bounded := .inl rfl
  credit := ⟨0, empty, rfl, indexObserves_new, credit_empty⟩
  replaying _ _ _ h := by cases h

/-- Steps that deliver no other task's call extend the history. -/
lemma Tracks.mono (h : Tracks codec src log done invalidated task idx)
    (hlive : ∀ p ∈ liveSeqs done, p ∈ liveSeqs done') (halone : Alone done' → Alone done) :
    Tracks codec src log done' invalidated task idx where
  incarnation := h.incarnation
  bounded := h.bounded.imp id fun ⟨h0, p, hp, hle⟩ => ⟨h0, p, hlive p hp, hle⟩
  credit :=
    let ⟨n, obs, hn, hobs, hcr⟩ := h.credit
    ⟨n, obs, hn, hobs, hcr.weaken halone id⟩
  replaying high through batch hp :=
    let ⟨hlt, hrec, hsusp⟩ := h.replaying high through batch hp
    ⟨hlt, ⟨hlive through hrec.mem, hrec.entry⟩, hsusp⟩

/-! ## The index calls of the task -/

lemma applyBatch_observes (codec) (h : IndexObserves idx obs) (source dpRank incarnation batch) :
    ∃ idx', applyBatch codec idx source dpRank incarnation batch = some idx' ∧
      idx'.suspendedSources = idx.suspendedSources ∧
      IndexObserves idx' (obs.fold (batchCalls codec source dpRank incarnation batch)) := by
  rw [applyBatch_eq]
  exact calls_observe _ idx obs h

section

variable (h : IndexObserves idx obs)
include h

lemma suspendSource_observes (source dpRank) :
    IndexObserves (idx.suspendSource source dpRank) obs := ⟨h.wf, h.observes⟩

lemma resumeSource_observes (source dpRank) :
    IndexObserves (idx.resumeSource source dpRank) obs := ⟨h.wf, h.observes⟩

lemma invalidateSource_observes (source dpRank) :
    ∃ idx', idx.invalidateSource source dpRank = some idx' ∧
      idx'.suspendedSources = (idx.suspendSource source dpRank).suspendedSources ∧
      IndexObserves idx' (obs.apply (.clearSource source dpRank)) :=
  call_observes (suspendSource_observes h source dpRank) (.clearSource source dpRank)

end

lemma isSuspended_suspendSource (source dpRank) :
    (idx.suspendSource source dpRank).isSuspended source dpRank = true := by
  simp [isSuspended, suspendSource]

/-! ## Steps of the task -/

section

variable (hinc : task.incarnation = 0) (hbound : Bounded done task.lastSeq)
  (hobs : IndexObserves idx obs) (hrec : Received log done seq batch)
include hinc hbound hobs hrec

/-- A live iteration that ends: the batch, if any, is the next entry after what
the index has credit for. -/
lemma finishLive_tracks
    (hcredit : ∀ n : Nat, (batch = none → task.lastSeq + 1 = n) → (batch ≠ none → seq = n) →
      Credit codec src log (Alone done) invalidated n obs) (signals flag) : ∃ out, finishLive codec
        src task idx seq batch signals flag = some out ∧
      out.invalidated = flag ∧ Tracks codec src log done invalidated out.task out.index := by
  cases batch with
  | none =>
    obtain ⟨n, hn⟩ : ∃ n : Nat, task.lastSeq + 1 = n :=
      Int.eq_ofNat_of_zero_le (by have := hbound.ge; omega)
    refine ⟨_, rfl, rfl, hinc, hbound, ⟨n, obs, hn, hobs, ?_⟩, nofun⟩
    exact hcredit n (fun _ => hn) fun h => absurd rfl h
  | some b =>
    obtain ⟨n, hseq, hlog⟩ := hrec.entry
    have hcr := (hcredit n nofun fun _ => hseq).batch (hlog b rfl)
    obtain ⟨idx1, hrun, -, hobs1⟩ := applyBatch_observes codec hobs src.source src.dpRank
      task.incarnation b
    rw [hinc] at hobs1
    obtain ⟨idx2, hidx2, hfinal⟩ : ∃ idx2,
        (if task.suspended then idx1.resumeSource src.source src.dpRank else idx1) = idx2 ∧
        IndexObserves idx2 (obs.fold (batchCalls codec src.source src.dpRank 0 b)) := by
      split
      · exact ⟨_, rfl, resumeSource_observes hobs1 _ _⟩
      · exact ⟨_, rfl, hobs1⟩
    refine ⟨⟨{ task with lastSeq := seq, suspended := false, phase := .polling }, idx2,
      signals ++ [.advance src.source seq], flag⟩, ?_, rfl, ?_⟩
    · simp [finishLive, hrun, hidx2]
    refine ⟨hinc, .inr ⟨?_, seq, hrec.mem, le_refl _⟩, ⟨n + 1, _, ?_, hfinal, hcr⟩,
      nofun⟩
    · change 0 ≤ seq
      omega
    · change seq + 1 = ((n + 1 : Nat) : Int)
      omega

/-- A replay that failed: the discarded source has credit for any prefix. -/
lemma replayFailed_tracks (hinv : invalidated) (signals) :
    ∃ out, replayFailed codec src task idx seq batch signals = some out ∧
      out.invalidated = true ∧ Tracks codec src log done invalidated out.task out.index := by
  obtain ⟨_, hrun, -, hobs1⟩ := invalidateSource_observes hobs src.source src.dpRank
  have hcredit : ∀ n, Credit codec src log (Alone done) invalidated n
      (obs.apply (.clearSource src.source src.dpRank)) := fun n => Credit.discard hinv n
  obtain ⟨out, hfin, hflag, htr⟩ :=
    finishLive_tracks hinc hbound hobs1 hrec (fun n _ _ => hcredit n) signals true
  refine ⟨out, ?_, hflag, htr⟩
  simp [replayFailed, hrun, hfin]

end

section

variable (h : Tracks codec src log done invalidated task idx)
include h

/-- A live message at or past what the task has applied. -/
lemma receiveSeq_tracks (hpoll : task.phase = .polling) (opening)
    (hrec : Received log done seq (decodeRanked codec src.dpRank payload)) (signals) :
    ∃ out, receiveSeq codec src task idx opening seq payload signals false = some out ∧
      Tracks codec src log done (invalidated ∨ out.invalidated = true) out.task out.index := by
  obtain ⟨n, obs, hn, hobs, hcr⟩ := h.credit
  have hfront : task.front = task.lastSeq := by rw [Task.front, hpoll]
  rw [hfront] at hn
  by_cases hold : seq ≤ task.lastSeq
  · -- already applied
    refine ⟨⟨task, idx, signals, false⟩, if_pos hold, h.incarnation, h.bounded,
      ⟨n, obs, ?_, hobs, hcr.weaken id .inl⟩, h.replaying⟩
    rw [hfront]
    exact hn
  by_cases hgap : task.lastSeq + 1 < seq ∨ decodeRanked codec src.dpRank payload = none
  · simp only [receiveSeq, if_neg hold, if_pos hgap]
    have hobs' := suspendSource_observes hobs src.source src.dpRank
    split
    · -- a gap, and a replay starts
      refine ⟨_, rfl, h.incarnation, h.bounded,
        ⟨n, obs, hn, hobs', hcr.weaken id .inl⟩, fun _ _ _ hphase => ?_⟩
      cases hphase
      exact ⟨by omega, hrec, isSuspended_suspendSource _ _⟩
    -- a gap that cannot be replayed
    obtain ⟨out, hrun, hflag, htr⟩ := replayFailed_tracks
      (show Task.incarnation { task with suspended := true } = 0 from h.incarnation)
      h.bounded hobs' hrec trivial _
    refine ⟨out, hrun, ?_⟩
    simpa only [hflag, or_true] using htr
  · -- the next message
    simp only [receiveSeq, if_neg hold, if_neg hgap]
    rw [not_or] at hgap
    have hcredit : ∀ m : Nat, (decodeRanked codec src.dpRank payload = none →
        task.lastSeq + 1 = m) → (decodeRanked codec src.dpRank payload ≠ none → seq = m) →
        Credit codec src log (Alone done) invalidated m obs := by
      intro m _ hm
      have hseq := hm hgap.2
      obtain rfl : m = n := by omega
      exact hcr
    obtain ⟨out, hrun, hflag, htr⟩ :=
      finishLive_tracks h.incarnation h.bounded hobs hrec hcredit signals false
    refine ⟨out, hrun, ?_⟩
    simpa only [hflag, Bool.false_eq_true, or_false] using htr

/-- What the SUB socket returns, in order, keeps the invariant. -/
lemma receive_tracks (hpoll : task.phase = .polling) (opening recv)
    (hrecv : ∀ frames seq payload, recv = .frames frames →
      liveFrame frames = some (seq, payload) → seq ≠ endSeq →
      Received log done seq (decodeRanked codec src.dpRank payload) ∧ task.lastSeq ≤ seq) :
    ∃ out, receive codec src task idx opening recv = some out ∧
      Tracks codec src log done (invalidated ∨ out.invalidated = true) out.task out.index := by
  obtain ⟨n, _, hn, hobs, _⟩ := h.credit
  have hskip : Tracks codec src log done (invalidated ∨ false = true) task idx := by
    simpa only [Bool.false_eq_true, or_false] using h
  cases recv with
  | eagain
  | error => exact ⟨_, rfl, hskip⟩
  | frames frames =>
    cases hframe : liveFrame frames with
    | none =>
      -- a message cut short discards the source
      obtain ⟨idx1, hrun, -, hobs1⟩ := invalidateSource_observes hobs src.source src.dpRank
      refine ⟨⟨{ task with suspended := true }, idx1, [], true⟩, ?_, h.incarnation, h.bounded,
        ⟨n, _, hn, hobs1, Credit.discard (.inr rfl) n⟩, fun _ _ _ hphase => ?_⟩
      · simp [receive, hframe, malformed, hrun]
      · rw [hpoll] at hphase
        cases hphase
    | some msg =>
      obtain ⟨seq, payload⟩ := msg
      by_cases hend : seq = endSeq
      · exact ⟨⟨task, idx, [], false⟩, by simp only [receive, hframe, if_pos hend], hskip⟩
      obtain ⟨hrec, _⟩ := hrecv frames seq payload rfl hframe hend
      -- messages come in order, so none looks like a restart
      have hnorestart : ¬ (task.lastSeq ≠ -1 ∧ seq < task.lastSeq) := by omega
      simp only [receive, hframe, if_neg hend, if_neg hnorestart]
      exact receiveSeq_tracks h hpoll opening hrec []

/-- One round of the replay keeps the invariant. -/
lemma replayReceive_tracks (hphase : task.phase = .replaying high through batch) (recv)
    (hrecv : ∀ frames payload (n : Nat) replayed, recv = .frames frames →
      replayFrame frames = some ((n : Int), payload) →
      decodeRanked codec src.dpRank payload = some replayed → log[n]? = some replayed) :
    ∃ out, replayReceive codec src task idx high through batch recv = some out ∧
      Tracks codec src log done (invalidated ∨ out.invalidated = true) out.task out.index := by
  obtain ⟨n, _, hn, hobs, hcr⟩ := h.credit
  obtain ⟨_, hrec, hsusp⟩ := h.replaying high through batch hphase
  have hfront : task.front = high := by rw [Task.front, hphase]
  rw [hfront] at hn
  have hskip : Tracks codec src log done (invalidated ∨ false = true) task idx := by
    simpa only [Bool.false_eq_true, or_false] using h
  -- every way the replay can fail ends in the same state
  have hfail : ∃ out, replayFailed codec src task idx through batch [] = some out ∧
      Tracks codec src log done (invalidated ∨ out.invalidated = true) out.task out.index := by
    obtain ⟨out, hrun, hflag, htr⟩ :=
      replayFailed_tracks h.incarnation h.bounded hobs hrec trivial []
    refine ⟨out, hrun, ?_⟩
    simpa only [hflag, or_true] using htr
  cases recv with
  | deadline
  | error => exact hfail
  | eagain => exact ⟨_, rfl, hskip⟩
  | frames frames =>
    cases hframe : replayFrame frames with
    | none => simpa only [replayReceive, hframe] using hfail
    | some msg =>
      obtain ⟨seq, payload⟩ := msg
      simp only [replayReceive, hframe]
      split
      · exact hfail
      split
      · exact ⟨_, rfl, hskip⟩
      split
      · exact hfail
      rename_i hnext
      rw [not_not] at hnext
      cases hdec : decodeRanked codec src.dpRank payload with
      | none => exact hfail
      | some replayed =>
        have hentry : log[n]? = some replayed :=
          hrecv frames payload n replayed rfl (by rw [hframe, hnext, hn]) hdec
        have hcr' := (hcr.batch hentry).weaken id (.inl : invalidated → invalidated ∨ false = true)
        obtain ⟨idx1, hrun, hsame, hobs1⟩ := applyBatch_observes codec hobs src.source
          src.dpRank task.incarnation replayed
        rw [h.incarnation] at hobs1
        simp only [hrun]
        have hseq : seq + 1 = ((n + 1 : Nat) : Int) := by omega
        split
        · -- the gap is closed
          next _ =>
          obtain rfl : seq = through := by omega
          refine ⟨_, rfl, h.incarnation, .inr ⟨?_, seq, hrec.mem, le_refl _⟩,
            ⟨n + 1, _, hseq, resumeSource_observes hobs1 _ _, hcr'⟩, nofun⟩
          change 0 ≤ seq
          omega
        -- the gap is one entry smaller
        next _ =>
        refine ⟨_, rfl, h.incarnation, h.bounded, ⟨n + 1, _, hseq, hobs1, hcr'⟩,
          fun _ _ _ hp => ?_⟩
        cases hp
        refine ⟨by omega, hrec, ?_⟩
        change (idx1.suspendedSources.lookup _).isSome = true
        rw [hsame]
        exact hsusp

end

/-! ## Steps of the other tasks -/

/-- A call of another task moves no claim of the source and does not unhide it. -/
lemma otherStep_tracks (h : Tracks codec src log done invalidated task idx)
    (hne : (source, dpRank) ≠ (src.source, src.dpRank)) {call : OtherCall}
    (hrank : ∀ incarnation batch, call = .batch incarnation batch →
      batch.dataParallelRank = none ∨ batch.dataParallelRank = some dpRank) (hdone : ¬ Alone done) :
    ∃ idx', System.otherStep codec idx source dpRank call = some idx' ∧
      Tracks codec src log done invalidated task idx' := by
  obtain ⟨n, obs, hn, hobs, hcr⟩ := h.credit
  have hcr : Credit codec src log False invalidated n obs := hcr.weaken False.elim id
  have htarget : (⟨source, dpRank⟩ : RoutableTarget) ≠ ⟨src.source, src.dpRank⟩ := by
    intro heq
    cases heq
    exact hne rfl
  -- what is left to show for each call
  have hkeep : ∀ idx' obs', IndexObserves idx' obs' →
      Credit codec src log False invalidated n obs' →
      (idx.isSuspended src.source src.dpRank = true →
        idx'.isSuspended src.source src.dpRank = true) →
      Tracks codec src log done invalidated task idx' := by
    intro _ obs' hobs' hcr' hsusp
    refine ⟨h.incarnation, h.bounded, ⟨n, obs', hn, hobs', hcr'.weaken hdone id⟩,
      fun high through batch hphase => ?_⟩
    obtain ⟨hlt, hrec, hs⟩ := h.replaying high through batch hphase
    exact ⟨hlt, hrec, hsusp hs⟩
  have hinsert : ∀ {idx' : KvBlockIndexer},
      idx'.suspendedSources = (idx.suspendSource source dpRank).suspendedSources →
      idx.isSuspended src.source src.dpRank = true →
      idx'.isSuspended src.source src.dpRank = true := by
    intro idx' hsame hs
    unfold isSuspended at hs ⊢
    rw [hsame]
    exact (congrArg isSome (AList.lookup_insert_ne hne.symm)).trans hs
  cases call with
  | batch incarnation batch =>
    obtain ⟨idx', hrun, hsame, hobs'⟩ := applyBatch_observes codec hobs source dpRank incarnation
      batch
    refine ⟨idx', hrun, hkeep idx' _ hobs' (Credit.foreign_fold ?_ hcr) ?_⟩
    · intro c hc k htouch
      obtain ⟨ev, -, rfl⟩ := mem_map.1 hc
      rw [eventCall_touches htouch]
      rcases hrank incarnation batch rfl with hr | hr <;> simpa [hr] using htarget
    intro hs
    unfold isSuspended at hs ⊢
    rw [hsame]
    exact hs
  | suspend => exact ⟨_, rfl, hkeep _ obs (suspendSource_observes hobs _ _) hcr (hinsert rfl)⟩
  | invalidate =>
    obtain ⟨idx', hrun, hsame, hobs'⟩ := invalidateSource_observes hobs source dpRank
    refine ⟨idx', hrun, hkeep idx' _ hobs' (hcr.foreign fun k htouch => ?_) (hinsert hsame)⟩
    rw [show k.1.target = ⟨source, dpRank⟩ from htouch]
    exact htarget
  | resume =>
    refine ⟨_, rfl, hkeep _ obs (resumeSource_observes hobs _ _) hcr fun hs => ?_⟩
    exact (congrArg isSome (AList.lookup_erase_ne hne.symm)).trans hs

/-! ## Whole runs -/

lemma mem_liveSeqs (hmem : .live opening (.frames frames) ∈ steps)
    (hframe : liveFrame frames = some (seq, payload)) (hend : seq ≠ endSeq) :
    seq ∈ liveSeqs steps := by
  refine mem_filterMap.2 ⟨_, hmem, ?_⟩
  simp [IngestStep.liveSeq, hframe, hend]

/-- In-order delivery: the next live message is not before any earlier one. -/
lemma Delivers.le_of_mem
    (hdel : Delivers codec src log (done ++ .live opening (.frames frames) :: rest))
    (hframe : liveFrame frames = some (seq, payload)) (hend : seq ≠ endSeq) :
    ∀ p ∈ liveSeqs done, p ≤ seq := by
  intro p hp
  have hord := hdel.inOrder
  unfold liveSeqs at hord
  rw [filterMap_append, pairwise_append] at hord
  refine hord.2.2 p hp seq (mem_liveSeqs mem_cons_self hframe hend)

/-- **One step.** Every step that the log allows returns and keeps the
invariant. -/
lemma step_tracks {sys : System} (hdel : Delivers codec src log (done ++ step :: rest))
    (h : Tracks codec src log done (sys.invalidated = true) sys.task sys.index) :
    ∃ sys', sys.step codec src step = some sys' ∧
      Tracks codec src log (done ++ [step]) (sys'.invalidated = true) sys'.task sys'.index := by
  have hstep : step ∈ done ++ step :: rest := mem_append_right _ mem_cons_self
  have hmono : Tracks codec src log (done ++ [step]) (sys.invalidated = true) sys.task
      sys.index := by
    refine h.mono (fun p hp => ?_) fun ha source dpRank call hm =>
      ha source dpRank call (mem_append_left _ hm)
    obtain ⟨st, hst, hp⟩ := mem_filterMap.1 hp
    exact mem_filterMap.2 ⟨st, mem_append_left _ hst, hp⟩
  -- an outcome of the task becomes the next state
  have hafter : ∀ out, Tracks codec src log (done ++ [step])
      (sys.invalidated = true ∨ out.invalidated = true) out.task out.index →
      Tracks codec src log (done ++ [step]) ((sys.after out).invalidated = true)
        (sys.after out).task (sys.after out).index := by
    intro _ htr
    rw [← Bool.or_eq_true] at htr
    exact htr
  cases step with
  | live opening recv =>
    cases hphase : sys.task.phase with
    | replaying => exact ⟨sys, by simp only [System.step, hphase], hmono⟩
    | polling =>
      obtain ⟨out, hrun, htr⟩ := receive_tracks hmono hphase opening recv (by
        rintro frames seq payload rfl hframe hend
        obtain ⟨n, hn, -, hlog⟩ := hdel.live opening frames seq payload hstep hframe hend
        refine ⟨⟨mem_liveSeqs (mem_append_right _ mem_cons_self) hframe hend, n, hn, hlog⟩, ?_⟩
        rcases h.bounded with hb | ⟨-, p, hp, hle⟩
        · omega
        · exact hle.trans (hdel.le_of_mem hframe hend p hp))
      exact ⟨sys.after out, by simp only [System.step, hphase, hrun, map_some], hafter out htr⟩
  | replay recv =>
    cases hphase : sys.task.phase with
    | polling => exact ⟨sys, by simp only [System.step, hphase], hmono⟩
    | replaying =>
      obtain ⟨out, hrun, htr⟩ := replayReceive_tracks hmono hphase recv (by
        rintro frames payload n replayed rfl
        exact hdel.replay frames payload n replayed hstep)
      exact ⟨sys.after out, by simp only [System.step, hphase, hrun, map_some], hafter out htr⟩
  | other source dpRank call =>
    obtain ⟨hne, hrank⟩ := hdel.other source dpRank call hstep
    obtain ⟨idx', hrun, htr⟩ := otherStep_tracks hmono hne hrank fun ha =>
      ha source dpRank call (mem_append_right _ mem_cons_self)
    exact ⟨{ sys with index := idx' }, by simp only [System.step, hrun, map_some], htr⟩

/-- **Whole runs.** -/
lemma run_tracks (hdel : Delivers codec src log steps) :
    ∃ sys, System.run codec src steps = some sys ∧
      Tracks codec src log steps (sys.invalidated = true) sys.task sys.index := by
  have hinit : Tracks codec src log [] (System.init.invalidated = true) System.init.task
      System.init.index := by
    simpa [System.init] using tracks_init
  exact foldlM_rule (P := fun done (sys : System) =>
      Tracks codec src log done (sys.invalidated = true) sys.task sys.index)
    (fun _ _ _ _ hsteps h => step_tracks (hsteps ▸ hdel) h)
    steps [] System.init rfl hinit

end Invariant

/-! ## What a visible source is credited with -/

section Credited

variable (codec : Codec) (src : EventSource)

/-- Every store of the log whose parent key the index has ever stored was
anchored in the log itself, by an entry before it. -/
def AnchoredInLog (log : List KVEventBatch) (idx : KvBlockIndexer) : Prop :=
  ∀ pre c post parent g before, logCalls codec src log = pre ++ c :: post →
    c.parentSeq = some parent → (∃ k s, c.Stores g k s) → (idx.shard g).Known parent →
    pre.foldlM call new = some before →
    (before.shard g).Known parent

/-- The claims of `src` in `idx`, against the published log prefix. -/
structure Credited (log : List KVEventBatch) (alone invalidated : Prop)
    (idx : KvBlockIndexer) : Prop where
  /-- Each claim comes back when the source is discarded and the log is folded
  over the topology that stays. -/
  sound : ∃ cleared folded, idx.invalidateSource src.source src.dpRank = some cleared ∧
    foldLog codec src cleared log = some folded ∧
    ∀ g k s, k.1.target = ⟨src.source, src.dpRank⟩ →
      (idx.shard g).Active k s → (folded.shard g).Active k s
  /-- Over the empty index the same holds when the log anchors its own stores,
  and the claims are exactly the folded ones unless the source was discarded. -/
  anchored : AnchoredInLog codec src log idx →
    ∃ folded, foldLog codec src new log = some folded ∧
      ∀ g k s, k.1.target = ⟨src.source, src.dpRank⟩ →
        ((idx.shard g).Active k s → (folded.shard g).Active k s) ∧
        (¬ invalidated → (folded.shard g).Active k s → (idx.shard g).Active k s)
  /-- A publisher alone on the index that was never discarded: the index holds
  exactly the fold of its log. -/
  exact : alone → ¬ invalidated →
    ∃ folded, foldLog codec src new log = some folded ∧
      ∀ g k s, (idx.shard g).Active k s ↔ (folded.shard g).Active k s
  /-- An eviction in the log is never missed. -/
  evicted : ∀ pre c post g k s, k.1.target = ⟨src.source, src.dpRank⟩ →
    logCalls codec src log = pre ++ c :: post → c.Evicts g k s →
    (∀ c' ∈ post, ¬ c'.Stores g k s) → ¬ (idx.shard g).Active k s

variable {codec src} {log : List KVEventBatch} {alone invalidated : Prop}
  {idx : KvBlockIndexer} {obs : IndexObs} {n : Nat}

/-- The abstract credit, read on the index itself. -/
lemma Credit.credited (hobs : IndexObserves idx obs)
    (h : Credit codec src log alone invalidated n obs) :
    Credited codec src (log.take n) alone invalidated idx := by
  -- discarding the source keeps the known keys and drops its claims
  obtain ⟨cleared, hclear, -, hobsC⟩ := invalidateSource_observes hobs src.source src.dpRank
  have hknownC : ∀ g, (obs g).known ⊆ (obs.apply (.clearSource src.source src.dpRank) g).known :=
    fun g => obs.known_apply _ g
  have hnoneC : ∀ g k s, k.1.target = ⟨src.source, src.dpRank⟩ →
      (k, s) ∉ (obs.apply (.clearSource src.source src.dpRank) g).active := by
    intro g k s hk hmem
    rw [mem_apply] at hmem
    rcases hmem with ⟨-, hev⟩ | ⟨hst, -⟩
    · exact hev hk
    · exact hst
  obtain ⟨foldedC, hfoldC, hobsFC⟩ := foldLog_observes codec src hobsC (log.take n)
  obtain ⟨folded, hfold, hobsF⟩ := foldLog_observes codec src indexObserves_new (log.take n)
  refine ⟨⟨cleared, foldedC, hclear, hfoldC, fun g k s hk hact => ?_⟩, fun hanch =>
    ⟨folded, hfold, fun g k s hk => ⟨fun hact => ?_, fun hinv hact => ?_⟩⟩,
    fun ha hinv => ⟨folded, hfold, fun g k s => ?_⟩, fun pre c post g k s hk hlog hev hpost => ?_⟩
  · rw [(hobs.observes g).active] at hact
    rw [(hobsFC.observes g).active]
    exact h.sound _ hknownC g k s hk hact
  · rw [(hobs.observes g).active] at hact
    rw [(hobsF.observes g).active]
    refine below_fold_of_anchored hnoneC ?_ g k s hk (h.sound _ hknownC g k s hk hact)
    intro pre c post parent g' hlog hparent hst hknown
    rw [mem_known_apply] at hknown
    obtain hknown | ⟨_, hst', -⟩ := hknown
    · obtain ⟨before, hrun, -, hobsB⟩ := calls_observe pre _ _ indexObserves_new
      rw [← (hobsB.observes g').known]
      exact hanch pre c post parent g' before hlog hparent hst
        (((hobs.observes g').known parent).2 hknown) hrun
    · exact hst'.elim
  · rw [(hobsF.observes g).active] at hact
    rw [(hobs.observes g).active]
    exact (h.complete hinv).active g k s hk hact
  · rw [(hobs.observes g).active, (hobsF.observes g).active, ← h.exact ha hinv]
  rw [(hobs.observes g).active]
  intro hact
  have hmem := h.sound obs (fun _ _ hs => hs) g k s hk hact
  rw [hlog] at hmem
  exact evicted_fold hev hpost obs hmem

/-- **Ingestion never credits stale residency.** Every run that delivers a log
returns. When the source is visible in the state reached, its claims are
credited by the log up to and including `lastSeq`. -/
theorem run_credits_log_prefix (hdel : Delivers codec src log steps) :
    ∃ sys, System.run codec src steps = some sys ∧
      (sys.index.isSuspended src.source src.dpRank = false →
        Credited codec src (log.take (sys.task.lastSeq + 1).toNat) (Alone steps)
          (sys.invalidated = true) sys.index) := by
  obtain ⟨sys, hrun, htr⟩ := run_tracks hdel
  refine ⟨sys, hrun, fun hvisible => ?_⟩
  obtain ⟨_, _, hn, hobs, hcr⟩ := htr.credit
  -- a visible source is not being replayed, so the credit is for `lastSeq`
  have hfront : sys.task.front = sys.task.lastSeq := by
    cases hphase : sys.task.phase with
    | polling => rw [Task.front, hphase]
    | replaying high through batch =>
      have hsusp := (htr.replaying high through batch hphase).2.2
      rw [hvisible] at hsusp
      cases hsusp
  rw [hfront] at hn
  rw [hn]
  exact hcr.credited hobs

end Credited

/-! ## A log that stores a child before its parent

The topology survives `invalidateSource`. A first replay that stops after the
parent leaves its key known, so the next one anchors the child, which the fold
over the empty index skips. -/

def storedEvent (parent : Option Nat) (block : Nat) : KVEvent :=
  .blockStored ⟨[.int block], parent.map .int, [block.toUInt32], 1, none, none, none, none⟩

def orphanLog : List KVEventBatch :=
  [⟨[storedEvent (some 1) 2], none⟩, ⟨[storedEvent none 1], none⟩, ⟨[], none⟩, ⟨[], none⟩]

/-- A payload is the position of its entry. -/
def orphanCodec : Codec where
  fromSlice payload := match payload with
    | [i] => orphanLog[i.toNat]?
    | _ => none
  sha256 := id

def orphanSource : EventSource := ⟨"w", 0, some "tcp://replay"⟩

def seqBytes (n : UInt8) : List UInt8 := [0, 0, 0, 0, 0, 0, 0, n]

def replayed (n : UInt8) : IngestStep := .replay (.frames [[], [], seqBytes n, [n]])

/-- Entries 0 and 1 are lost and entry 2 does not decode; the first replay
times out after entry 1, the second one is complete. -/
def orphanSteps : List IngestStep :=
  [.live .opened (.frames [[], seqBytes 2, [9]]), replayed 0, replayed 1, .replay .deadline,
    .live .opened (.frames [[], seqBytes 3, [3]]), replayed 0, replayed 1, replayed 2, replayed 3]

lemma orphanCodec_decodes (n : UInt8) :
    decodeRanked orphanCodec orphanSource.dpRank [n] = orphanLog[n.toNat]? := by
  have hrank : ∀ batch ∈ orphanLog, batch.dataParallelRank = none := by decide
  change (orphanLog[n.toNat]?).filter _ = _
  cases h : orphanLog[n.toNat]? with
  | none => rfl
  | some batch => simp [hrank batch (mem_of_getElem? h)]

lemma replayFrame_seqBytes (n : UInt8) :
    replayFrame [[], [], seqBytes n, [n]] = some ((n.toNat : Int), [n]) := by
  have hlt := n.toNat_lt
  simp only [replayFrame, seqBytes, readSeq]
  simp
  omega

lemma orphanSteps_delivers : Delivers orphanCodec orphanSource orphanLog orphanSteps where
  inOrder := by decide +kernel
  live := by
    intro _ _ _ _ hmem hframe _
    simp only [orphanSteps, replayed, mem_cons, reduceCtorEq, not_mem_nil, or_false,
      false_or] at hmem
    obtain ⟨-, rfl⟩ | ⟨-, rfl⟩ := hmem
    · rw [show liveFrame [[], seqBytes 2, [9]] = some (2, [9]) by decide +kernel] at hframe
      cases hframe
      refine ⟨2, rfl, by decide, fun _ hdec => ?_⟩
      cases hdec
    rw [show liveFrame [[], seqBytes 3, [3]] = some (3, [3]) by decide +kernel] at hframe
    cases hframe
    exact ⟨3, rfl, by decide, fun _ hdec => (orphanCodec_decodes 3).symm.trans hdec⟩
  replay := by
    intro frames _ _ _ hmem hframe hdec
    obtain ⟨i, rfl⟩ : ∃ i, frames = [[], [], seqBytes i, [i]] := by
      simp only [orphanSteps, replayed, mem_cons, IngestStep.replay.injEq,
        ReplayRecv.frames.injEq, reduceCtorEq, not_mem_nil, or_false, false_or] at hmem
      obtain rfl | rfl | rfl | rfl | rfl | rfl := hmem <;> exact ⟨_, rfl⟩
    rw [replayFrame_seqBytes] at hframe
    cases hframe
    exact (orphanCodec_decodes i).symm.trans hdec
  other := by
    intro _ _ _ hmem
    simp [orphanSteps, replayed] at hmem

/-- The claim on block 2, as the log's only publisher holds it. -/
def orphanClaim : OwnerTier := (.worker "w" 0 0, .device)

/-- The visible source is credited with a block that the fold of its whole log
over the empty index does not hold. -/
theorem run_credits_orphan :
    Delivers orphanCodec orphanSource orphanLog orphanSteps ∧ Alone orphanSteps ∧
      ∃ sys folded, System.run orphanCodec orphanSource orphanSteps = some sys ∧
        sys.task.phase = .polling ∧ sys.task.lastSeq = 3 ∧ sys.index.isSuspended "w" 0 = false ∧
        foldLog orphanCodec orphanSource new (orphanLog.take 4) = some folded ∧
        (sys.index.shard 0).Active orphanClaim "i:2" ∧
        ¬ (folded.shard 0).Active orphanClaim "i:2" := by
  refine ⟨orphanSteps_delivers, fun _ _ _ hmem => ?_, ?_⟩
  · simp [orphanSteps, replayed] at hmem
  obtain ⟨sys, hsys⟩ := isSome_iff_exists.1
    (show (System.run orphanCodec orphanSource orphanSteps).isSome by decide +kernel)
  obtain ⟨folded, hfolded⟩ := isSome_iff_exists.1
    (show (foldLog orphanCodec orphanSource new (orphanLog.take 4)).isSome by decide +kernel)
  have hcheck : (System.run orphanCodec orphanSource orphanSteps).bind (fun sys =>
      (foldLog orphanCodec orphanSource new (orphanLog.take 4)).map fun folded =>
        decide (sys.task.phase = .polling ∧ sys.task.lastSeq = 3 ∧
          sys.index.isSuspended "w" 0 = false ∧ (sys.index.shard 0).Active orphanClaim "i:2" ∧
          ¬ (folded.shard 0).Active orphanClaim "i:2")) = some true := by
    decide +kernel
  rw [hsys, hfolded] at hcheck
  obtain ⟨hphase, hlast, hvisible, hact, hnot⟩ := of_decide_eq_true (some.inj hcheck)
  exact ⟨sys, folded, hsys, hphase, hlast, hvisible, hfolded, hact, hnot⟩

/-- The same run, with what its visible source is worth. -/
theorem run_credits_log_prefix_orphan : Delivers orphanCodec orphanSource orphanLog orphanSteps ∧
      (System.run orphanCodec orphanSource orphanSteps).map
        (fun sys => (sys.task.lastSeq, sys.index.isSuspended "w" 0)) = some (3, false) ∧
      ∃ sys, System.run orphanCodec orphanSource orphanSteps = some sys ∧
        (sys.index.isSuspended "w" 0 = false →
          Credited orphanCodec orphanSource (orphanLog.take (sys.task.lastSeq + 1).toNat)
            (Alone orphanSteps) (sys.invalidated = true) sys.index) :=
  ⟨orphanSteps_delivers, by decide +kernel, run_credits_log_prefix orphanSteps_delivers⟩

end VllmRouter.KvIndex
