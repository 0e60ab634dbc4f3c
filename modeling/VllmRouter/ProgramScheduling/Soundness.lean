import VllmRouter.ProgramScheduling.Failover

/-!
# Every lock section keeps the facts of a Program consistent

One theorem per section relation. Together with `Tail.sound` they make `Sound`
an invariant of the scheduler, whatever the targets do.
-/

namespace VllmRouter.ProgramScheduling

open Facts
open ProgramScheduler (needsRebinding failedOver)

variable {sched : ProgramScheduler} {f f' : Facts}

variable {pending : List PendingProgramRequest} {removed ids : List TargetId}
  {replacement : Option TargetId}

/-- A section that changes only the retained requests, and not whether there
are some. -/
lemma Sound.of_pending_iff (hf : Sound sched f) (h : pending = [] ↔ f.pending = []) :
    Sound sched { f with pending := pending } := by
  cases hf with
  | dead hP hd hpending hqueued => exact .dead hP hd (h.2 hpending) hqueued
  | live hP hd hl =>
    refine .live hP hd ⟨hl.placed, fun hs => ⟨(hl.acting hs).1, h.2 (hl.acting hs).2⟩,
      hl.paused, hl.last, hl.home, hl.bound, hl.pausedAt, hl.clear, fun hq => ?_⟩
    exact ⟨(hl.queued hq).1, fun hnil => (hl.queued hq).2 (h.1 hnil)⟩

lemma Sound.permit (hf : Sound sched f) (requestId : Nat) :
    Sound sched { f with pending := f.pending.map (System.dropPermit requestId) } :=
  hf.of_pending_iff List.map_eq_nil_iff

variable {pool : ModelPool}

/-- A live Program that is active is in no queue. -/
lemma Live.not_queued (h : Live sched f P d) (hactive : P.state = .active) : ¬ f.Queued := by
  intro hq
  have hpaused := (h.queued hq).1
  rw [hactive] at hpaused
  cases hpaused

lemma Claims.sound (hclaims : Claims handle f f' dispatch) (hf : Sound sched f) :
    Sound sched f' := by
  cases hclaims with
  | @front P _ _ _ hP hactive =>
    obtain ⟨d, hd, h⟩ := hf.of_program hP
    refine .live rfl hd ⟨h.placed, nofun, fun hs => ?_, h.last, h.home, h.bound,
      h.pausedAt, h.clear, fun hq => absurd hq (h.not_queued hactive)⟩
    rw [show P.state = .paused from hs] at hactive
    cases hactive
  | @behind _ hP =>
    obtain ⟨d, hd, h⟩ := hf.of_program hP
    exact .live rfl hd ⟨h.placed, h.acting, h.paused, h.last, h.home, h.bound, h.pausedAt,
      h.clear, h.queued⟩
  | unplaced => exact hf

/-- A cancelled request was retained. -/
lemma Removes.ne_nil (h : Removes requestId pending rest) : pending ≠ [] := by
  obtain ⟨_, _, hget, -⟩ := h
  rintro rfl
  cases hget

lemma Cancels.sound (hcancels : Cancels requestId f f') (hf : Sound sched f) :
    Sound sched f' := by
  cases hcancels with
  | @waiting _ hrest hne => exact hf.of_pending_iff (iff_of_false hne hrest.ne_nil)
  | @running _ hP =>
    obtain ⟨d, hd, h⟩ := hf.of_program hP
    exact .live hP hd ⟨h.placed, fun hs => ⟨(h.acting hs).1, rfl⟩, h.paused, h.last, h.home,
      h.bound, h.pausedAt, h.clear, fun hq => absurd hq (not_queued_unqueued f)⟩
  | @paused _ hP _ hidle =>
    obtain ⟨d, hd, h⟩ := hf.of_program hP
    exact .live rfl hd ⟨h.placed, fun _ => ⟨hidle, rfl⟩, h.paused, h.last, h.home, h.bound,
      h.pausedAt, h.clear, fun hq => absurd hq (not_queued_unqueued f)⟩
  | @active _ _ _ hP hd _ hidle =>
    have h := hf.live_of hP hd
    refine .live rfl rfl ⟨?_, fun _ => ⟨hidle, rfl⟩, fun _ => hidle, ?_, h.home, h.bound,
      fun _ => rfl, ?_, fun hq => absurd hq (not_queued_unqueued f)⟩
    · exact ⟨nofun, nofun⟩
    · exact nofun
    · exact nofun

lemma Completes.sound (hcompletes : Completes f f') (hf : Sound sched f) : Sound sched f' := by
  cases hcompletes with
  | @runs P _ _ _ hP hd hactive hbusy hd' =>
    have h := hf.live_of hP hd
    refine .live rfl rfl ⟨h.placed, fun hs => ?_, fun hs => ?_, fun hs => ?_, fun t ht => ?_,
      fun hcan hne => ?_, fun hs => ?_, fun hs => ?_, fun hq => absurd hq (h.not_queued hactive)⟩
    · -- acting means that nothing is outstanding: the Program was reasoning before
      by_cases hidle : P.inFlightRequests - 1 = 0 ∧ f.pending.length = 0
      · exact ⟨hidle.1, List.length_eq_zero_iff.1 hidle.2⟩
      have hstatus : P.status = .acting := by
        have : (if P.inFlightRequests - 1 = 0 ∧ f.pending.length = 0 then ProgramStatus.acting
          else P.status) = .acting := hs
        rwa [if_neg hidle] at this
      exact absurd (h.acting hstatus).1 hbusy
    · rw [show P.state = .paused from hs] at hactive
      cases hactive
    · exact hd'.last.trans (h.last hactive)
    · exact h.home t (hd'.last.symm.trans ht)
    · rw [hd'.last]
      exact h.bound hcan hne
    · rw [show P.state = .paused from hs] at hactive
      cases hactive
    · rw [hd'.queuedAt, hd'.deadline]
      exact h.clear hactive
  | @pauses P _ _ _ hP hd hactive _ hpending hd' hpausedAt =>
    have h := hf.live_of hP hd
    have hidle : P.inFlightRequests - 1 = 0 := by omega
    refine .live rfl rfl ⟨?_, fun _ => ⟨hidle, hpending⟩, fun _ => hidle, ?_, fun t ht => ?_,
      fun hcan hne => ?_, fun _ => hpausedAt, ?_, fun hq => absurd hq (h.not_queued hactive)⟩
    · exact ⟨nofun, nofun⟩
    · exact nofun
    · exact h.home t (hd'.last.symm.trans ht)
    · rw [hd'.last]
      exact h.bound hcan hne
    · exact nofun

/-! ## Retentions -/

lemma Arrives.sound (harrives : Arrives sched p identity request f f') (hf : Sound sched f) :
    Sound sched f' := by
  have hne : f.pending ++ [request] ≠ [] := by simp
  cases harrives with
  | @known P d hP hd =>
    have h := hf.live_of hP hd
    obtain ⟨hsame, hpausedAt, -⟩ := refreshed_same identity request.estimatedContextTokens d
    refine .live rfl rfl ⟨h.placed, nofun, h.paused, fun hs => ?_,
      fun t ht => ?_, fun hcan hhome => ?_, fun hs => ?_, fun hs => ?_,
      fun hq => ⟨(h.queued hq).1, hne⟩⟩
    · exact hsame.last.trans (h.last hs)
    · exact h.home t (hsame.last.symm.trans ht)
    · rw [hsame.last]
      exact h.bound hcan hhome
    · rw [hpausedAt]
      exact h.pausedAt hs
    · rw [hsame.queuedAt, hsame.deadline]
      exact h.clear hs
  | @fresh _ hP _ hhome hbound =>
    have hqueued : ¬ f.Queued := by
      cases hf with
      | dead _ _ _ hqueued => exact hqueued
      | live hP' =>
        rw [hP] at hP'
        cases hP'
    refine .live rfl rfl ⟨?_, nofun, fun _ => rfl, ?_, hhome, hbound,
      fun _ => rfl, ?_, fun hq => absurd hq hqueued⟩
    · exact ⟨nofun, nofun⟩
    · exact nofun
    · exact nofun

/-- Entering a queue changes the counts only. -/
lemma Facts.enqueuedOnce_fields (sched pool t) (f : Facts) :
    (f.enqueuedOnce sched pool t).program = f.program ∧
      (f.enqueuedOnce sched pool t).pending = f.pending ∧
      (f.enqueuedOnce sched pool t).decision = f.decision ∧
      (f.enqueuedOnce sched pool t).home = f.home := by
  unfold enqueuedOnce
  split
  · exact ⟨rfl, rfl, rfl, rfl⟩
  · exact ⟨rfl, rfl, rfl, rfl⟩

lemma Arrives.pending_ne_nil (harrives : Arrives sched p identity request f f') :
    f'.pending ≠ [] := by
  cases harrives with
  | known => simp
  | fresh => simp

lemma Retains.sound
    (hretains : Retains sched p identity request f f' error) (hf : Sound sched f) :
    Sound sched f' := by
  cases hretains with
  | placed harrives hP hplace
  | unbound harrives => exact harrives.sound hf
  | @queued f1 P d t _ harrives hP hplace hd hlast =>
    have h := (harrives.sound hf).live_of hP hd
    obtain ⟨hprogram, hpending, -, hhome⟩ := f1.enqueuedOnce_fields sched p.modelPool t
    have hpaused : P.state = .paused := by
      cases hstate : P.state with
      | paused => rfl
      | active =>
        have := h.placed.1 hstate
        rw [hplace] at this
        cases this
    have hactive : ¬ P.state = .active := by
      rw [hpaused]
      exact nofun
    refine .live (hprogram.trans hP) rfl ⟨h.placed, fun hs => ?_, h.paused,
      fun hs => absurd hs hactive, fun t' ht' => ?_, fun _ _ => ?_, h.pausedAt,
      fun hs => absurd hs hactive, fun _ => ⟨hpaused, ?_⟩⟩
    · exact ⟨(h.acting hs).1, hpending.trans (h.acting hs).2⟩
    · show t' ∈ (f1.enqueuedOnce sched p.modelPool t).home
      rw [hhome]
      exact h.home t' ht'
    · show d.lastTarget.isSome = true
      rw [hlast]
      rfl
    show (f1.enqueuedOnce sched p.modelPool t).pending ≠ []
    rw [hpending]
    exact harrives.pending_ne_nil

/-! ## Synchronization -/

/-- A snapshot can take a Program out of queues only. -/
lemma Facts.queued_of_retargeted {home : List TargetId} (h : (f.retargeted removed home).Queued) :
    f.Queued := by
  rcases h with ⟨t, ht⟩ | ⟨pool, hpool⟩
  · refine .inl ⟨t, fun hzero => ht ?_⟩
    show (if t ∈ removed then 0 else f.inRank t) = 0
    rw [hzero, ite_self]
  · exact .inr ⟨pool, hpool⟩

/-- A decision that needs no rebinding names a target of the snapshot. -/
lemma lastTarget_of_keeps (h : needsRebinding ids d = false) :
    ∃ t, d.lastTarget = some t ∧ t ∈ ids := by
  unfold needsRebinding at h
  cases hlast : d.lastTarget with
  | none =>
    rw [hlast] at h
    cases h
  | some t =>
    rw [hlast] at h
    exact ⟨t, rfl, by simpa using h⟩

/-- Where failover queues a Program, it has a retained request. -/
lemma Facts.pending_of_requeued (h : (f.requeued sched pool replacement).Queued) :
    f.pending ≠ [] := by
  intro hnil
  unfold requeued at h
  rw [if_pos hnil] at h
  exact not_queued_unqueued f h

/-- What failover makes of a Program: paused, and bound inside the snapshot. -/
lemma Live.failedOver {f0 : Facts} {P Q : RuntimeProgram} {interrupted : Bool} {now : Instant}
    (h : Live sched f0 P d) (hf' : f'.home = ids ∧ f'.pending = f0.pending)
    (hqueued : f'.Queued → ((f0.retargeted removed ids).requeued sched pool replacement).Queued)
    (hQ : Q.state = .paused ∧ Q.placement = none ∧ Q.inFlightRequests = 0 ∧ Q.status = P.status)
    (hinterrupted : P.state = .active → interrupted = true)
    (hhome : ∀ t, replacement = some t → t ∈ ids)
    (hbound : sched.CanBind → ids ≠ [] → replacement.isSome = true) :
    Live sched f' Q (failedOver replacement interrupted now d) := by
  obtain ⟨hpaused, hplace, hidle, hstatus⟩ := hQ
  have hlast : (ProgramScheduler.failedOver replacement interrupted now d).lastTarget
      = replacement := by
    unfold ProgramScheduler.failedOver
    cases interrupted with
    | true => rfl
    | false => rfl
  have hactive : ¬ Q.state = .active := by
    rw [hpaused]
    exact nofun
  refine ⟨?_, fun hs => ⟨hidle, ?_⟩, fun _ => hidle, fun hs => absurd hs hactive, fun t ht => ?_,
    fun hcan hne => ?_, fun _ => ?_, fun hs => absurd hs hactive, fun hq => ⟨hpaused, ?_⟩⟩
  · rw [hplace]
    exact iff_of_false hactive nofun
  · rw [hf'.2]
    exact (h.acting (hstatus ▸ hs)).2
  · rw [hf'.1]
    exact hhome t (hlast.symm.trans ht)
  · rw [hlast]
    exact hbound hcan (hf'.1 ▸ hne)
  · cases hi : interrupted with
    | true => rfl
    | false =>
      have hstate : P.state = .paused := by
        cases hs : P.state with
        | paused => rfl
        | active =>
          rw [hinterrupted hs] at hi
          cases hi
      exact h.pausedAt hstate
  · have hwaits : (f0.retargeted removed ids).pending ≠ [] := pending_of_requeued (hqueued hq)
    rw [hf'.2]
    exact hwaits

lemma Syncs.sound (hsyncs : Syncs sched r pool removed ids f f') (hf : Sound sched f) :
    Sound sched f' := by
  cases hsyncs with
  | other =>
    cases hf with
    | dead hP hd hpending hqueued =>
      exact .dead hP hd hpending fun hq => hqueued (queued_of_retargeted hq)
    | live hP hd h =>
      exact .live hP hd ⟨h.placed, h.acting, h.paused, h.last, h.home, h.bound, h.pausedAt,
        h.clear, fun hq => h.queued (queued_of_retargeted hq)⟩
  | kept _ hkeeps =>
    cases hf with
    | dead hP hd hpending hqueued =>
      exact .dead hP hd hpending fun hq => hqueued (queued_of_retargeted hq)
    | live hP hd h =>
      obtain ⟨t, ht, hmem⟩ := lastTarget_of_keeps (hkeeps _ hd)
      refine .live hP hd ⟨h.placed, h.acting, h.paused, h.last, fun t' ht' => ?_, fun _ _ => ?_,
        h.pausedAt, h.clear, fun hq => h.queued (queued_of_retargeted hq)⟩
      · rw [ht] at ht'
        cases ht'
        exact hmem
      · rw [ht]
        rfl
  | rebound _ h =>
    cases h with
    | @paused P d replacement _ _ hP hd hpaused _ hhome hbound =>
      have hl := hf.live_of (show f.program = some P from hP) (show f.decision = some d from hd)
      obtain ⟨hprogram, hpending, -, hhome'⟩ :=
        (f.retargeted removed ids).requeued_fields sched pool replacement
      have hplace : P.placement = none := by
        rw [← Option.not_isSome_iff_eq_none, ← hl.placed, hpaused]
        exact nofun
      refine .live (hprogram.trans hP) rfl (hl.failedOver ⟨hhome', hpending⟩ id
        ⟨hpaused, hplace, hl.paused hpaused, rfl⟩ (fun hs => ?_) hhome hbound)
      rw [hpaused] at hs
      cases hs
    | @active P d replacement _ _ hP hd _ _ hhome hbound =>
      have hl := hf.live_of (show f.program = some P from hP) (show f.decision = some d from hd)
      obtain ⟨-, hpending, -, hhome'⟩ :=
        (f.retargeted removed ids).requeued_fields sched pool replacement
      exact .live rfl rfl (hl.failedOver ⟨hhome', hpending⟩ id ⟨rfl, rfl, rfl, rfl⟩
        (fun _ => rfl) hhome hbound)

end VllmRouter.ProgramScheduling
