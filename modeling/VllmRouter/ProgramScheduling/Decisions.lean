import VllmRouter.Lib.Fold
import VllmRouter.ProgramScheduling.Facts

/-!
# What the scheduling decisions can do

All the decision procedures of the scheduler (TTL expiry, retention release,
capacity repair, segment yield, local and global admission) act through a few
transitions. `Decide` lists them with their guards; every procedure is a
sequence of them (`Decides`), whatever it reads to choose the next one. The
invariants of the scheduler are proved once per transition.

- `pause`: only a Program that is acting is paused.
- `release`: only a Program with nothing outstanding is released.
- `admission`: a Program is admitted to its own target or, in the global mode, to
  another target of its pool. The other transitions are `Settle`.
-/

namespace VllmRouter.ProgramScheduling

open ProgramRuntime List ProgramDecisionState

/-- An update of a decision that no transition depends on. -/
def Retouches (f : ProgramDecisionState → ProgramDecisionState) : Prop :=
  ∀ d, ∃ marked sampled rounds, f d =
    { d with
      pauseWhenIdle := marked
      ttlPauseSampledSegmentRounds := sampled
      roundsSinceTtlPause := rounds }

variable {p : ProgramRef} {rt : ProgramRuntime} {t : TargetId} {now : Instant}
  {s : ProgramSchedulerState} {l : List ProgramRef}

variable {rt' : ProgramRuntime} {reason : ProgramPauseReason} {s' : ProgramSchedulerState}

/-- What a guarded write says when it succeeds. -/
lemma eq_some_of_guarded {refused : RuntimeProgram → Prop} [DecidablePred refused]
    {write : RuntimeProgram → ProgramRuntime} (h : (match rt.program p with
      | none => none
      | some P => if refused P then none else some (write P)) = some rt') :
    ∃ P, rt.program p = some P ∧ ¬ refused P ∧ write P = rt' := by
  cases hP : rt.program p with
  | none => simp [hP] at h
  | some P => exact ⟨P, rfl, by simpa [hP] using h⟩

namespace ProgramRuntime

lemma pauseIdle_eq_some (h : rt.pauseIdle p = some rt') :
    ∃ P, rt.program p = some P ∧ P.state = .active ∧ P.inFlightRequests = 0 ∧
      rt' = rt.setProgram P.off := by
  unfold pauseIdle at h
  obtain ⟨P, hP, hguard, rfl⟩ := eq_some_of_guarded h
  rw [not_or, not_not, not_not] at hguard
  exact ⟨P, hP, hguard.1, hguard.2, rfl⟩

lemma activate_eq_some (h : rt.activate p t = some rt') :
    ∃ P, rt.program p = some P ∧ P.state = .paused ∧ rt.requestPool.queue p ≠ [] ∧
      rt' = { rt.setProgram (P.on t (rt.nextPlacementEpoch + 1)) with
        nextPlacementEpoch := rt.nextPlacementEpoch + 1 } := by
  unfold activate at h
  obtain ⟨P, hP, hguard, rfl⟩ := eq_some_of_guarded h
  rw [not_or, not_not] at hguard
  refine ⟨P, hP, hguard.1, fun hnil => hguard.2 ?_, rfl⟩
  unfold RequestPool.programLen
  rw [hnil]
  rfl

lemma releaseIdle_eq_some (h : rt.releaseIdle p now = some rt') :
    ∃ P, rt.program p = some P ∧
      (∀ r, rt'.program r = if r = p then none else rt.program r) ∧
      rt'.requestPool = rt.requestPool ∧ rt'.nextPlacementEpoch = rt.nextPlacementEpoch := by
  unfold releaseIdle at h
  obtain ⟨P, hP, -, rfl⟩ := eq_some_of_guarded h
  exact ⟨P, hP, program_eraseProgram hP, rfl, rfl⟩

/-- A live Program with nothing outstanding can be released. -/
lemma releaseIdle_isSome (now) (hP : rt.program p = some P) (hidle : P.inFlightRequests = 0)
    (hwait : rt.requestPool.queue p = []) :
    ∃ rt', rt.releaseIdle p now = some rt' := by
  have hlen : rt.requestPool.programLen p = 0 := length_eq_zero_iff.2 hwait
  unfold releaseIdle
  rw [hP]
  simp only [hidle, hlen]
  exact ⟨_, rfl⟩

end ProgramRuntime

namespace ProgramScheduler

variable {self : ProgramScheduler}

/-! ## The committed transitions -/

lemma pauseIdle_eq_some (h : self.pauseIdle s p reason now = some s') :
    ∃ P d t, s.runtime.program p = some P ∧ P.state = .active ∧ P.inFlightRequests = 0 ∧
      P.placement = some t ∧ s.decisions.lookup p = some d ∧
      s' = (({ s with runtime := s.runtime.setProgram P.off } :
        ProgramSchedulerState).modifyDecision p fun d => pausedFor d reason now).adjustUsage t
          (-self.tokensOf d) := by
  unfold pauseIdle at h
  split at h
  · rename_i t d rt hplace hd hrt
    cases h
    obtain ⟨P, hP, hactive, hidle, rfl⟩ := pauseIdle_eq_some hrt
    unfold placement at hplace
    rw [hP] at hplace
    exact ⟨P, d, t, hP, hactive, hidle, hplace, hd, rfl⟩
  · cases h

lemma commitAdmission_eq_some (h : self.commitAdmission s p t now = some s') :
    ∃ P d rt, s.runtime.program p = some P ∧ P.state = .paused ∧
      s.runtime.requestPool.queue p ≠ [] ∧ s.decisions.lookup p = some d ∧
      rt = { s.runtime.setProgram (P.on t (s.runtime.nextPlacementEpoch + 1)) with
        nextPlacementEpoch := s.runtime.nextPlacementEpoch + 1 } ∧
      s' = { (((({ s with runtime := rt } : ProgramSchedulerState).modifyDecision p
          fun d => admitted d t now).adjustUsage t (self.tokensOf d)).dequeue p) with
        runtime := rt.notifyFront p } := by
  unfold commitAdmission at h
  split at h
  · rename_i d rt hd hrt
    cases h
    obtain ⟨P, hP, hpaused, hwait, hrt'⟩ := activate_eq_some hrt
    exact ⟨P, d, rt, hP, hpaused, hwait, hd, hrt', rfl⟩
  · cases h

/-- A paused Program with a decision and a retained request can be admitted
anywhere. -/
lemma commitAdmission_isSome (t now) (hP : s.runtime.program p = some P)
    (hpaused : P.state = .paused) (hwait : s.runtime.requestPool.queue p ≠ [])
    (hd : s.decisions.lookup p = some d) :
    ∃ s', self.commitAdmission s p t now = some s' := by
  have hlen : s.runtime.requestPool.programLen p ≠ 0 :=
    fun hzero => hwait (length_eq_zero_iff.1 hzero)
  have hactivate : ∃ rt, s.runtime.activate p t = some rt := by
    unfold activate
    simp [hP, hpaused, hlen]
  obtain ⟨rt, hrt⟩ := hactivate
  unfold commitAdmission
  rw [hd, hrt]
  exact ⟨_, rfl⟩

/-- The observations after a Program gave its capacity back. -/
def relieved (self : ProgramScheduler) (s : ProgramSchedulerState) (p : ProgramRef) :
    Dict TargetId RankObservationState :=
  match self.activeRelief s p with
  | some (t, tokens) => (s.adjustUsage t (-tokens)).observations
  | none => s.observations

/-- The state after the release of a live idle Program. -/
lemma releaseProgram_live (hrt : s.runtime.releaseIdle p now = some rt) :
    self.releaseProgram s p now = { s.dequeue p with
      runtime := rt
      observations := self.relieved s p
      decisions := s.decisions.erase p
      bindings := s.bindings.releaseProgram p } := by
  have hrt' : (s.dequeue p).runtime.releaseIdle p now = some rt := hrt
  have hrelief : self.activeRelief (s.dequeue p) p = self.activeRelief s p := rfl
  unfold releaseProgram relieved
  simp only [hrt', hrelief]
  cases self.activeRelief s p with
  | none => rfl
  | some => rfl

/-- A release that the runtime refuses only takes the Program out of the queues. -/
lemma releaseProgram_refused (hrt : s.runtime.releaseIdle p now = none) :
    self.releaseProgram s p now = s.dequeue p := by
  have hrt' : (s.dequeue p).runtime.releaseIdle p now = none := hrt
  unfold releaseProgram
  simp [hrt']

/-! ## Decisions -/

/-- One transition of a decision procedure that admits nothing. -/
inductive Settle (self : ProgramScheduler) : ProgramSchedulerState → ProgramSchedulerState → Prop
  | prune (s : ProgramSchedulerState) (now : Instant) (retention : Duration) :
      Settle self s { s with runtime := s.runtime.pruneReleasedGenerations now retention }
  | sample (s : ProgramSchedulerState) (t : TargetId)
      (f : ProgressTtlFactors → ProgressTtlFactors) : Settle self s (s.modifyFactors t f)
  | report (s : ProgramSchedulerState) (t : TargetId) (source : CapacityAccountingSource) :
      Settle self s (s.modifyObservation t fun o => { o with reportedCapacitySource := some source
        })
  | retouch (s : ProgramSchedulerState) (p : ProgramRef)
      {f : ProgramDecisionState → ProgramDecisionState} (hf : Retouches f) :
      Settle self s (s.modifyDecision p f)
  | wake (s : ProgramSchedulerState) (p : ProgramRef) :
      Settle self s { s with runtime := s.runtime.notifyFront p }
  | pause {s s' : ProgramSchedulerState} {p : ProgramRef} {P : RuntimeProgram}
      (reason : ProgramPauseReason) (now : Instant) (hP : s.runtime.program p = some P)
      (hacting : P.status = .acting) (h : self.pauseIdle s p reason now = some s') :
      Settle self s s'
  | release {s : ProgramSchedulerState} {p : ProgramRef} (now : Instant)
      (hidle : ∀ P, s.runtime.program p = some P → P.inFlightRequests = 0)
      (hwait : s.runtime.requestPool.queue p = []) :
      Settle self s (self.releaseProgram s p now)

/-- A choice that names a target which the Program may be admitted to: its own,
or in the global mode another one of its pool. -/
def Admissible (self : ProgramScheduler) (s : ProgramSchedulerState) (p : ProgramRef)
    (t : TargetId) : Prop :=
  ∃ d, s.decisions.lookup p = some d ∧ (d.lastTarget = some t ∨
    self.config.globalQueue = true ∧ t ∈ (s.modelTargets.lookup p.modelPool).getD [])

/-- One transition of a decision procedure. -/
inductive Decide (self : ProgramScheduler) : ProgramSchedulerState → ProgramSchedulerState → Prop
  | settle {s s' : ProgramSchedulerState} (h : self.Settle s s') : Decide self s s'
  | admission {s s' : ProgramSchedulerState} {p : ProgramRef} {t : TargetId} (now : Instant)
      (ht : self.Admissible s p t) (h : self.commitAdmission s p t now = some s') :
      Decide self s s'

/-- A sequence of transitions that admit nothing. -/
def Settles (self : ProgramScheduler) : ProgramSchedulerState → ProgramSchedulerState → Prop :=
  Relation.ReflTransGen (Settle self)

/-- A sequence of transitions. -/
def Decides (self : ProgramScheduler) : ProgramSchedulerState → ProgramSchedulerState → Prop :=
  Relation.ReflTransGen (Decide self)

lemma Settles.refl (s) : self.Settles s s := Relation.ReflTransGen.refl

lemma Settles.trans (h1 : self.Settles s1 s2) (h2 : self.Settles s2 s3) : self.Settles s1 s3 :=
  Relation.ReflTransGen.trans h1 h2

lemma Settle.settles (h : self.Settle s s') : self.Settles s s' := Relation.ReflTransGen.single h

lemma Decides.refl (s) : self.Decides s s := Relation.ReflTransGen.refl

lemma Settles.decides (h : self.Settles s s') : self.Decides s s' := by
  induction h with
  | refl => exact .refl s
  | tail _ hlast ih => exact ih.tail (.settle hlast)

/-! ## Pauses keep the status of every Program -/

/-- The Programs in `l` that are live are acting. -/
def Acting (l : List ProgramRef) (s : ProgramSchedulerState) : Prop :=
  ∀ p ∈ l, ∀ P, s.runtime.program p = some P → P.status = .acting

lemma Acting.pauseIdle (hl : Acting l s) (h : self.pauseIdle s p reason now = some s') :
    Acting l s' := by
  obtain ⟨P, d, t, hP, -, -, -, -, rfl⟩ := pauseIdle_eq_some h
  have href : P.off.reference = p := (program_reference hP : P.reference = p)
  intro q hq Q hQ
  have hset : (s.runtime.setProgram P.off).program q = some Q := hQ
  rw [program_setProgram_live (q := P) (href ▸ hP), href] at hset
  split at hset
  · rename_i hqp
    cases hset
    exact hl p (hqp ▸ hq) P hP
  · exact hl q hq Q hset

/-- A guarded pause is a transition. -/
lemma settles_pauseIdle (reason now) (hl : Acting l s) (hp : p ∈ l) :
    self.Settles s ((self.pauseIdle s p reason now).getD s) ∧
      Acting l ((self.pauseIdle s p reason now).getD s) := by
  cases h : self.pauseIdle s p reason now with
  | none => exact ⟨.refl s, hl⟩
  | some =>
    obtain ⟨P, -, -, hP, -⟩ := pauseIdle_eq_some h
    exact ⟨(Settle.pause reason now hP (hl p hp P hP) h).settles, hl.pauseIdle h⟩

/-! ## Acting TTL -/

variable (s : ProgramSchedulerState) (p : ProgramRef) (decision : Option ProgramDecisionState)

lemma sampleTtlPause_settles : self.Settles s (self.sampleTtlPause s p decision) := by
  have hretouch : ∀ rounds, Retouches (ttlSampled rounds) :=
    fun rounds d => ⟨d.pauseWhenIdle, rounds, 0, rfl⟩
  unfold sampleTtlPause
  cases decision.bind lastTarget with
  | none => exact (Settle.retouch s p (hretouch _)).settles
  | some t => exact (Settle.retouch s p (hretouch _)).settles.trans (Settle.sample _ t _).settles

lemma sampleTtlPause_runtime : (self.sampleTtlPause s p decision).runtime = s.runtime := by
  unfold sampleTtlPause
  cases decision.bind lastTarget with
  | none => rfl
  | some => rfl

variable {s p decision}

lemma expireActingTtl_settles (now) (hl : Acting l s) (hp : p ∈ l) :
    self.Settles s (self.expireActingTtl now s p) ∧ Acting l (self.expireActingTtl now s p) := by
  obtain ⟨hpause, hacting⟩ := self.settles_pauseIdle .ttlExpired now hl hp
  unfold expireActingTtl
  cases h : self.pauseIdle s p .ttlExpired now with
  | none => exact ⟨.refl s, hl⟩
  | some s1 =>
    rw [h] at hpause hacting
    refine ⟨hpause.trans (self.sampleTtlPause_settles s1 p _), ?_⟩
    unfold Acting
    rw [sampleTtlPause_runtime]
    exact hacting

lemma expireActingTtls_settles (env s now) :
    self.Settles s (self.expireActingTtls env s now) := by
  refine (foldl_steps (Q := Acting (((s.runtime.iterViews env.programOrder).filter fun view =>
    actingExpired s view now).map RuntimeProgramView.reference)) (fun s p hp hl => ?_) s ?_).1
  · exact self.expireActingTtl_settles now hl hp
  intro p hp P hP
  obtain ⟨_, hview, rfl⟩ := mem_map.1 hp
  obtain ⟨hmem, hexpired⟩ := mem_filter.1 hview
  obtain ⟨Q, hQ, hviewOf⟩ := mem_iterViews hmem
  rw [hP] at hQ
  cases hQ
  unfold actingExpired at hexpired
  rw [Bool.and_eq_true, decide_eq_true_iff] at hexpired
  rw [← hviewOf] at hexpired
  exact hexpired.1.2.1

/-! ## Retention release -/

/-- The Programs in `l` have nothing outstanding. -/
def Idle (l : List ProgramRef) (s : ProgramSchedulerState) : Prop :=
  ∀ p ∈ l, (∀ P, s.runtime.program p = some P → P.inFlightRequests = 0) ∧
    s.runtime.requestPool.queue p = []

/-- A release changes no other Program and no request. -/
lemma releaseProgram_runtime (s p now) :
    (∀ r P, (self.releaseProgram s p now).runtime.program r = some P →
        s.runtime.program r = some P) ∧
      (self.releaseProgram s p now).runtime.requestPool = s.runtime.requestPool := by
  cases h : s.runtime.releaseIdle p now with
  | none =>
    rw [releaseProgram_refused h]
    exact ⟨fun r P hP => hP, rfl⟩
  | some rt =>
    obtain ⟨-, -, hprogram, hpool, -⟩ := releaseIdle_eq_some h
    rw [releaseProgram_live h]
    refine ⟨fun r P hP => ?_, hpool⟩
    have hP' : rt.program r = some P := hP
    rw [hprogram r] at hP'
    split at hP'
    · cases hP'
    · exact hP'

lemma releaseExpiredPaused_settles (env s now) :
    self.Settles s (self.releaseExpiredPaused env s now) := by
  refine (foldl_steps (Q := Idle (((s.runtime.iterViews env.programOrder).filter fun view =>
    self.retentionExpired s view now).map RuntimeProgramView.reference))
      (fun s p hp hl => ?_) s ?_).1
  · obtain ⟨hsub, hpool⟩ := self.releaseProgram_runtime s p now
    refine ⟨(Settle.release now (hl p hp).1 (hl p hp).2).settles, fun q hq => ⟨?_, ?_⟩⟩
    · exact fun Q hQ => (hl q hq).1 Q (hsub q Q hQ)
    · rw [hpool]
      exact (hl q hq).2
  intro p hp
  obtain ⟨view, hview, rfl⟩ := mem_map.1 hp
  obtain ⟨hmem, hexpired⟩ := mem_filter.1 hview
  obtain ⟨P, hP, hviewOf⟩ := mem_iterViews hmem
  unfold retentionExpired at hexpired
  rw [Bool.and_eq_true, decide_eq_true_iff, ← hviewOf] at hexpired
  obtain ⟨⟨-, -, hidle, hwait⟩, -⟩ := hexpired
  refine ⟨fun Q hQ => ?_, ?_⟩
  · rw [hP] at hQ
    cases hQ
    exact hidle
  have href : P.reference = view.reference := program_reference hP
  rw [← href]
  exact length_eq_zero_iff.1 hwait

/-! ## Capacity repair -/

lemma relieveVictims_settles (low averageCompletion now) :
    ∀ victims projected s,
      (∀ v ∈ victims, v.status = .acting → Acting [v.reference] s) →
      self.Settles s (self.relieveVictims low averageCompletion now victims projected s) := by
  intro victims
  induction victims with
  | nil => exact fun projected s _ => .refl s
  | cons v victims ih =>
    intro projected s hacting
    have hrest : ∀ w ∈ victims, w.status = .acting → Acting [w.reference] s :=
      fun w hw => hacting w (mem_cons_of_mem _ hw)
    unfold relieveVictims
    split
    · exact .refl s
    -- a pause changes no status, so the other victims stay what they are
    cases hrelieve : self.relieve s v now with
    | none => exact ih projected s hrest
    | some s1 =>
      unfold relieve at hrelieve
      cases hstatus : v.status with
      | acting =>
        rw [hstatus] at hrelieve
        have hv := hacting v mem_cons_self hstatus
        have hstep := (self.settles_pauseIdle .capacityRepair now hv (mem_singleton.2 rfl)).1
        have hpause : self.pauseIdle s v.reference .capacityRepair now = some s1 := hrelieve
        rw [hpause] at hstep
        exact hstep.trans (ih _ s1 fun w hw hws => (hrest w hw hws).pauseIdle hpause)
      | reasoning =>
        simp only [hstatus] at hrelieve
        split at hrelieve
        · cases hrelieve
          have hmark : Retouches marked := fun d =>
            ⟨true, d.ttlPauseSampledSegmentRounds, d.roundsSinceTtlPause, rfl⟩
          exact (Settle.retouch s v.reference hmark).settles.trans (ih _ _ hrest)
        · cases hrelieve

lemma repairTarget_settles (env capacity now s t) :
    self.Settles s (self.repairTarget env capacity now s t) := by
  show self.Settles s (if _ then s else self.relieveVictims _ _ now _ _ s)
  split
  · exact .refl s
  refine self.relieveVictims_settles _ _ now _ _ s ?_
  intro v hv hstatus
  obtain ⟨view, hview, hvictim⟩ := mem_filterMap.1 (mem_sortBy.1 hv)
  obtain ⟨d, -, rfl⟩ := Option.map_eq_some_iff.1 hvictim
  obtain ⟨P, hP, hviewOf⟩ := mem_iterViews (mem_filter.1 hview).1
  intro q hq Q hQ
  rw [mem_singleton.1 hq] at hQ
  have hQ' : s.runtime.program view.reference = some Q := hQ
  rw [hP] at hQ'
  cases hQ'
  have hvs : view.status = .acting := hstatus
  rw [← hviewOf] at hvs
  exact hvs

lemma repairCapacity_settles (env s now) :
    self.Settles s (self.repairCapacity env s now) := by
  unfold repairCapacity
  cases self.config.progressTtl.tokenCapacity with
  | none => exact .refl s
  | some capacity =>
    exact (foldl_steps (Q := fun _ => True)
      (fun s t _ _ => ⟨self.repairTarget_settles env capacity now s t, trivial⟩) s trivial).1

end ProgramScheduler

end VllmRouter.ProgramScheduling
