import VllmRouter.ProgramScheduling.Bodies
import VllmRouter.ProgramScheduling.Sound

/-!
# The lock sections, Program by Program

Each lock section changes the facts of the Program it is about and then runs
decisions. The relations `Claims`, `Cancels`, `Completes` and `Retains` say
what the first part can do to these facts; `Frame` says that nothing else
changed and that the token ledger moved with the tokens of the Program. A
synchronization is about all Programs of a pool and is treated in `Failover`.
-/

namespace VllmRouter.ProgramScheduling

open ProgramRuntime ProgramSchedulerState RequestPool ProgramScheduler

/-! ## Tokens and ledger -/

/-- The tokens that a Program keeps on a target: those of an active Program
placed there. -/
def Facts.tokensOn (sched : ProgramScheduler) (f : Facts) (t : TargetId) : Rat :=
  match f.program, f.decision with
  | some P, some d => if P.state = .active ∧ P.placement = some t then sched.tokensOf d else 0
  | _, _ => 0

variable {P : RuntimeProgram} {d : ProgramDecisionState} {sched : ProgramScheduler} {t : TargetId}
  {p : ProgramRef} {s : ProgramSchedulerState} {handle : ProgramRequestHandle} {rt : ProgramRuntime}

lemma Facts.tokensOn_live {f : Facts} (hP : f.program = some P) (hd : f.decision = some d) (t) :
    f.tokensOn sched t
      = if P.state = .active ∧ P.placement = some t then sched.tokensOf d else 0 := by
  unfold Facts.tokensOn
  rw [hP, hd]

lemma Facts.tokensOn_paused {f : Facts} (hP : f.program = some P) (hpaused : P.state = .paused)
    (t) : f.tokensOn sched t = 0 := by
  unfold Facts.tokensOn
  rw [hP]
  cases f.decision with
  | none => rfl
  | some => simp [hpaused]

lemma Facts.tokensOn_active {f : Facts} (hP : f.program = some P) (hd : f.decision = some d)
    (hactive : P.state = .active) (ht : P.placement = some t) (t') :
    f.tokensOn sched t' = if t' = t then sched.tokensOf d else 0 := by
  rw [Facts.tokensOn_live hP hd, ht, hactive]
  simp [eq_comm]

namespace ProgramSchedulerState

/-- The token ledger of a target. -/
def ledger (s : ProgramSchedulerState) (t : TargetId) : Rat :=
  ((s.observations.lookup t).getD .default).activeProgramTokenDelta

lemma ledger_adjustUsage (s : ProgramSchedulerState) (t delta t') :
    (s.adjustUsage t delta).ledger t' = s.ledger t' + if t' = t then delta else 0 := by
  unfold ledger adjustUsage modifyObservation
  simp only [Dict.lookup_upsert]
  by_cases ht : t' = t
  · subst ht
    simp
  · simp [ht]

end ProgramSchedulerState

/-- Only the facts of `p` changed, and the ledger moved with its tokens. -/
structure Frame (sched : ProgramScheduler) (p : ProgramRef) (s s' : ProgramSchedulerState) :
    Prop where
  others : ∀ r, r ≠ p → s'.facts r = s.facts r
  balanced : ∀ t, s'.ledger t
    = s.ledger t + (s'.facts p).tokensOn sched t - (s.facts p).tokensOn sched t
  policy : s'.bindings.policy = s.bindings.policy
  epoch : s'.runtime.nextPlacementEpoch = s.runtime.nextPlacementEpoch
  request : s'.runtime.requestPool.nextRequestId = s.runtime.requestPool.nextRequestId

lemma Frame.refl (sched p s) :
    Frame sched p s s where
  others := fun _ _ => rfl
  balanced := fun _ => (add_sub_cancel_right _ _).symm
  policy := rfl
  epoch := rfl
  request := rfl

variable {s' : ProgramSchedulerState}

/-- The queues are not part of the accounting. -/
lemma Frame.dequeue (h : Frame sched p s s') : Frame sched p s (s'.dequeue p) where
  others := by
    intro r hr
    rw [facts_dequeue, if_neg hr]
    exact h.others r hr
  balanced := h.balanced
  policy := h.policy
  epoch := h.epoch
  request := h.request

/-! ## Permits -/

lemma facts_takePermit (h : System.takePermit s handle = some s') (r) :
    s'.facts r = if r = handle.program then { s.facts r with
        pending := (s.facts r).pending.map (System.dropPermit handle.requestId) }
      else s.facts r := by
  unfold System.takePermit at h
  split at h
  · cases h
    have hqueue := queue_setQueue s.runtime.requestPool handle.program
      ((s.runtime.requestPool.queue handle.program).map (System.dropPermit handle.requestId)) r
    by_cases hr : r = handle.program
    · subst hr
      rw [if_pos rfl] at hqueue ⊢
      exact congrArg (fun q => { s.facts handle.program with pending := q }) hqueue
    · rw [if_neg hr] at hqueue ⊢
      exact congrArg (fun q => { s.facts r with pending := q }) hqueue
  · cases h

/-! ## Claims -/

/-- What a claim does to the facts of the Program, and the dispatch it returns. -/
inductive Claims (handle : ProgramRequestHandle) : Facts → Facts → Option ProgramDispatch → Prop
  | front {f : Facts} {P : RuntimeProgram} {request : PendingProgramRequest}
      {rest : List PendingProgramRequest} {dispatch : ProgramDispatch}
      (hP : f.program = some P) (hactive : P.state = .active)
      (hpending : f.pending = request :: rest) (hid : request.id = handle.requestId)
      (hprogram : dispatch.program = handle.program)
      (htarget : P.placement = some dispatch.targetId)
      (hepoch : dispatch.placementEpoch = P.placementEpoch)
      (hstart : dispatch.placementStartRequest = P.placementStartRequestPending) :
      Claims handle f { f with program := some P.started.dispatched, pending := wakeFront rest }
        (some dispatch)
  | behind {f : Facts} {P : RuntimeProgram} (hP : f.program = some P)
      (hactive : P.state = .active)
      (hfront : ∀ request, f.pending.head? = some request → request.id ≠ handle.requestId) :
      Claims handle f { f with program := some P.started } none
  | unplaced {f : Facts} (hP : ∀ P, f.program = some P → P.placement = none) :
      Claims handle f f none

/-- Updating a live Program, by its reference. -/
lemma program_update (hP : rt.program p = some P) (hQ : Q.reference = P.reference) (r) :
    (rt.setProgram Q).program r = if r = p then some Q else rt.program r := by
  have href : Q.reference = p := hQ.trans (program_reference hP)
  rw [program_setProgram_live (q := P) (href.symm ▸ hP), href]

/-- `admitFront` for a Program that is active on the target. -/
lemma admitFront_active (now) (hP : rt.program handle.program = some P)
    (hactive : P.state = .active) (ht : P.placement = some t) :
    rt.admitFront handle t now = (rt.setProgram P.started).dispatchFront P.started handle t
      P.placementStartRequestPending now := by
  have hguard : ¬ (P.state = .active ∧ P.placement ≠ some t) := fun h => h.2 ht
  unfold admitFront
  rw [hP]
  show (if _ then _ else _) = _
  rw [if_neg hguard]
  simp only [enterPlacement, hactive]
  rfl

lemma dispatchFront_cases (t start now) (hP : rt.program handle.program = some P) :
    (rt.dispatchFront P handle t start now = (rt, none) ∧
        ∀ request, (rt.requestPool.queue handle.program).head? = some request →
          request.id ≠ handle.requestId) ∨
      ∃ request rest rt' dispatch, rt.dispatchFront P handle t start now = (rt', some dispatch) ∧
        rt.requestPool.queue handle.program = request :: rest ∧ request.id = handle.requestId ∧
        (∀ r, rt'.program r = if r = handle.program then some P.dispatched else rt.program r) ∧
        (∀ r, rt'.requestPool.queue r = if r = handle.program then wakeFront rest
          else rt.requestPool.queue r) ∧ rt'.nextPlacementEpoch = rt.nextPlacementEpoch ∧
        rt'.requestPool.nextRequestId = rt.requestPool.nextRequestId ∧
        dispatch.program = handle.program ∧ dispatch.targetId = t ∧
        dispatch.placementEpoch = P.placementEpoch ∧ dispatch.placementStartRequest = start := by
  have href : P.reference = handle.program := program_reference hP
  unfold dispatchFront
  cases hfront : rt.requestPool.takeFront handle with
  | none => exact .inl ⟨rfl, takeFront_eq_none hfront⟩
  | some taken =>
    obtain ⟨pool, request⟩ := taken
    obtain ⟨rest, hqueue, hid, hpool, hnext⟩ := takeFront_eq_some hfront
    refine .inr ⟨request, rest, _, _, rfl, hqueue, hid, program_update hP rfl, fun r => ?_, rfl,
      (nextRequestId_notifyFront pool P.reference).trans hnext, href, rfl, rfl, rfl⟩
    show (pool.notifyFront P.reference).queue r = _
    rw [href, queue_notifyFront, hpool, hpool, if_pos rfl]
    split
    · rfl
    · rfl

/-- The facts of a Program after an update of the runtime. -/
lemma facts_update {P : Option RuntimeProgram} (hP : rt.program p = P)
    (hpending : rt.requestPool.queue p = pending) :
    ({ s with runtime := rt } : ProgramSchedulerState).facts p
      = { s.facts p with program := P, pending := pending } := by
  subst hP hpending
  rfl

/-- An update of a Program that stays where it is moves no tokens. -/
lemma frame_of_runtime (hP : s.runtime.program p = some P)
    (hprogram : ∀ r, rt.program r = if r = p then some Q else s.runtime.program r)
    (hqueue : ∀ r, r ≠ p → rt.requestPool.queue r = s.runtime.requestPool.queue r)
    (hstate : Q.state = P.state) (hplace : Q.placement = P.placement)
    (hepoch : rt.nextPlacementEpoch = s.runtime.nextPlacementEpoch)
    (hrequest : rt.requestPool.nextRequestId = s.runtime.requestPool.nextRequestId) :
    Frame sched p s { s with runtime := rt } where
  others := by
    intro r hr
    rw [facts_runtime, hprogram, if_neg hr, hqueue r hr]
    rfl
  balanced := by
    intro t
    have hQ : (({ s with runtime := rt } : ProgramSchedulerState).facts p).program = some Q := by
      show rt.program p = some Q
      rw [hprogram, if_pos rfl]
    have htokens : (({ s with runtime := rt } : ProgramSchedulerState).facts p).tokensOn sched t
        = (s.facts p).tokensOn sched t := by
      unfold Facts.tokensOn
      rw [hQ, show (s.facts p).program = some P from hP]
      show (match some Q, s.decisions.lookup p with | some P, some d => _ | _, _ => _)
        = match some P, s.decisions.lookup p with | some P, some d => _ | _, _ => _
      cases s.decisions.lookup p with
      | none => rfl
      | some => simp only [hstate, hplace]
    rw [htokens, add_sub_cancel_right]
    rfl
  policy := rfl
  epoch := hepoch
  request := hrequest

lemma claimDispatch_claims (now) (hsound : Sound sched (s.facts handle.program)) :
    Claims handle (s.facts handle.program) ((claimDispatch s handle now).1.facts handle.program)
        (claimDispatch s handle now).2 ∧
      Frame sched handle.program s (claimDispatch s handle now).1 := by
  unfold claimDispatch
  cases hplace : s.runtime.placement handle.program with
  | none =>
    refine ⟨.unplaced fun P hP => ?_, .refl sched _ s⟩
    unfold placement at hplace
    rw [show s.runtime.program handle.program = some P from hP] at hplace
    exact hplace
  | some t =>
    obtain ⟨P, hP, hPt⟩ := Option.bind_eq_some_iff.1 hplace
    obtain ⟨d, hd, hlive⟩ := hsound.of_program hP
    have hactive : P.state = .active := hlive.placed.2 (by rw [hPt]; rfl)
    have hstarted : ∀ r, (s.runtime.setProgram P.started).program r
        = if r = handle.program then some P.started else s.runtime.program r :=
      program_update hP rfl
    simp only [admitFront_active now hP hactive hPt]
    rcases dispatchFront_cases t P.placementStartRequestPending now
        ((hstarted handle.program).trans (if_pos rfl)) with
      ⟨hnone, hfront⟩ | ⟨request, rest, rt', dispatch, hsome, hqueue, hid, hprogram, hpool,
        hnext, hnextId, hdispatch, htarget, hepoch, hstart⟩
    · rw [hnone]
      refine ⟨?_, frame_of_runtime hP hstarted (fun _ _ => rfl) rfl rfl rfl rfl⟩
      rw [facts_update ((hstarted handle.program).trans (if_pos rfl)) rfl]
      exact .behind hP hactive hfront
    rw [hsome]
    have hprogram' : ∀ r, rt'.program r
        = if r = handle.program then some P.started.dispatched else s.runtime.program r := by
      intro r
      rw [hprogram, hstarted]
      split
      · rfl
      · rfl
    refine ⟨?_, frame_of_runtime hP hprogram' (fun r hr => ?_) rfl rfl hnext hnextId⟩
    · rw [facts_update ((hprogram' handle.program).trans (if_pos rfl))
        ((hpool handle.program).trans (if_pos rfl))]
      exact .front hP hactive hqueue hid hdispatch (htarget ▸ hPt) hepoch hstart
    · rw [hpool, if_neg hr]
      rfl

/-! ## Cancellations -/

/-- `rest` is what remains of a FIFO when the request `requestId` is cancelled. -/
def Removes (requestId : Nat) (pending rest : List PendingProgramRequest) : Prop :=
  ∃ position request, pending[position]? = some request ∧ request.id = requestId ∧
    rest = cancelAt pending position

/-- What a cancellation does to the facts of the Program. -/
inductive Cancels (requestId : Nat) : Facts → Facts → Prop
  | waiting {f : Facts} {rest : List PendingProgramRequest}
      (hrest : Removes requestId f.pending rest) (hne : rest ≠ []) :
      Cancels requestId f { f with pending := rest }
  | running {f : Facts} {P : RuntimeProgram} (hP : f.program = some P)
      (hrest : Removes requestId f.pending []) (hbusy : P.inFlightRequests ≠ 0) :
      Cancels requestId f { f.unqueued with pending := [] }
  | paused {f : Facts} {P : RuntimeProgram} (hP : f.program = some P)
      (hrest : Removes requestId f.pending []) (hidle : P.inFlightRequests = 0)
      (hpaused : P.state = .paused) :
      Cancels requestId f { f.unqueued with program := some P.acting, pending := [] }
  | active {f : Facts} {P : RuntimeProgram} {d : ProgramDecisionState} (now : Instant)
      (hP : f.program = some P) (hd : f.decision = some d)
      (hrest : Removes requestId f.pending []) (hidle : P.inFlightRequests = 0)
      (hactive : P.state = .active) :
      Cancels requestId f { f.unqueued with
        program := some P.acting.off
        pending := []
        decision := some (cancelledDecision now d) }

/-- The Program after one of its requests was cancelled. -/
def RuntimeProgram.cancelled (P : RuntimeProgram) (rest : List PendingProgramRequest) :
    RuntimeProgram :=
  if P.inFlightRequests = 0 ∧ rest = [] then P.idled else P

lemma settleCancelled_program (hP : rt.program p = some P) (r) :
    (rt.settleCancelled p).program r
      = if r = p then some (P.cancelled (rt.requestPool.queue p)) else rt.program r := by
  have href : P.reference = p := program_reference hP
  have hidled : P.idled.reference = P.reference := by
    unfold RuntimeProgram.idled
    cases P.state <;> rfl
  have hlen : rt.requestPool.programLen P.reference = 0 ↔ rt.requestPool.queue p = [] := by
    unfold programLen
    rw [href, List.length_eq_zero_iff]
  unfold settleCancelled RuntimeProgram.cancelled
  rw [hP]
  simp only [hlen]
  split
  · exact program_update hP hidled r
  split
  · rename_i hr
    rw [hr, hP]
  · rfl

lemma settleCancelled_pool (rt : ProgramRuntime) (p) :
    (rt.settleCancelled p).requestPool = rt.requestPool ∧
      (rt.settleCancelled p).nextPlacementEpoch = rt.nextPlacementEpoch := by
  unfold settleCancelled
  split
  · exact ⟨rfl, rfl⟩
  split
  · exact ⟨rfl, rfl⟩
  · exact ⟨rfl, rfl⟩

lemma cancelRequest_eq_none (h : rt.cancelRequest handle = none) :
    ∀ request ∈ rt.requestPool.queue handle.program, request.id ≠ handle.requestId := by
  intro request hmem hid
  unfold cancelRequest at h
  split at h
  · rename_i hcancel
    unfold cancel at hcancel
    cases hpos : (rt.requestPool.queue handle.program).findIdx? fun request =>
        decide (request.id = handle.requestId) with
    | none =>
      have := List.findIdx?_eq_none_iff.1 hpos request hmem
      rw [decide_eq_false_iff_not] at this
      exact this hid
    | some =>
      simp only [hpos] at hcancel
      cases hcancel
  · cases h

lemma cancelRequest_eq_some (hP : rt.program handle.program = some P)
    (h : rt.cancelRequest handle = some rt') :
    ∃ rest, Removes handle.requestId (rt.requestPool.queue handle.program) rest ∧
      (∀ r, rt'.program r = if r = handle.program then some (P.cancelled rest) else rt.program r) ∧
      (∀ r, rt'.requestPool.queue r = if r = handle.program then rest else rt.requestPool.queue r) ∧
      rt'.nextPlacementEpoch = rt.nextPlacementEpoch ∧
      rt'.requestPool.nextRequestId = rt.requestPool.nextRequestId := by
  unfold cancelRequest at h
  cases hcancel : rt.requestPool.cancel handle with
  | none =>
    rw [hcancel] at h
    cases h
  | some cancelled =>
    obtain ⟨pool, wasFront⟩ := cancelled
    obtain ⟨position, ⟨request, hget, hid⟩, hfront, hpool, hnextId⟩ := cancel_eq_some hcancel
    rw [hcancel] at h
    cases h
    have hqueue : ∀ r, (if wasFront then pool.notifyFront handle.program else pool).queue r
        = if r = handle.program
          then cancelAt (rt.requestPool.queue handle.program) position
          else rt.requestPool.queue r := by
      intro r
      rw [hfront]
      unfold cancelAt
      by_cases hpos : position = 0
      · simp only [hpos, decide_true, if_true, queue_notifyFront, hpool]
        split
        · rfl
        · rfl
      · simp [hpos, decide_false, hpool]
    have hP' : ({ rt with requestPool := if wasFront then pool.notifyFront handle.program
        else pool } : ProgramRuntime).program handle.program = some P := hP
    obtain ⟨hpool', hnext⟩ := settleCancelled_pool
      { rt with requestPool := if wasFront then pool.notifyFront handle.program else pool }
      handle.program
    refine ⟨_, ⟨position, request, hget, hid, rfl⟩, fun r => ?_, fun r => ?_, hnext, ?_⟩
    · rw [settleCancelled_program hP' r, hqueue, if_pos rfl]
      rfl
    · rw [hpool']
      exact hqueue r
    rw [hpool']
    show (if wasFront then pool.notifyFront handle.program else pool).nextRequestId = _
    cases wasFront with
    | true => exact (nextRequestId_notifyFront pool _).trans hnextId
    | false => exact hnextId

/-- Leaving the queues when nothing waits, before a possible release. -/
lemma dropUnstarted_settles (sched : ProgramScheduler) (now) (hP : s.runtime.program p = some P) :
    sched.Settles (if s.runtime.requestPool.queue p = [] then s.dequeue p else s)
      (sched.dropUnstarted s p now) := by
  have href : P.reference = p := program_reference hP
  have hview : s.runtime.view p = some (s.runtime.viewOf P) := view_eq_some.2 ⟨P, hP, rfl⟩
  have hwait : (s.runtime.viewOf P).waitingRequests = (s.runtime.requestPool.queue p).length := by
    show s.runtime.requestPool.programLen P.reference = _
    rw [href]
    rfl
  unfold dropUnstarted
  simp only [hview, Option.any_some, hwait]
  by_cases hnil : s.runtime.requestPool.queue p = []
  · simp only [hnil, List.length_nil, Nat.lt_irrefl, decide_false, Bool.false_eq_true, if_false,
      if_true, and_true]
    split
    · rename_i hremove
      rw [Bool.and_eq_true, decide_eq_true_iff] at hremove
      have hwait' : (s.dequeue p).runtime.requestPool.queue p = [] := hnil
      refine (ProgramScheduler.Settle.release now (fun Q hQ => ?_) hwait').settles
      rw [show s.runtime.program p = some Q from hQ] at hP
      cases hP
      exact hremove.1
    · exact .refl _
  · have hpos : 0 < (s.runtime.requestPool.queue p).length := List.length_pos_iff.2 hnil
    have hne : ¬ (s.runtime.requestPool.queue p).length = 0 := by omega
    simp only [hpos, hne, hnil, decide_true, if_true, if_false, and_false, decide_false,
      Bool.false_and, Bool.false_eq_true]
    exact .refl _

/-- A cancellation that leaves the Program active or paused as it was needs no
accounting. -/
lemma settleCancellation_same (now) (hafter : s.runtime.view p = some after)
    (hstate : ¬ (before.state = .active ∧ after.state = .paused)) :
    sched.settleCancellation s p (some before) now = s := by
  unfold settleCancellation
  rw [hafter]
  cases s.decisions.lookup p with
  | none => rfl
  | some d =>
    cases hlast : d.lastTarget with
    | none => simp only [hlast]
    | some => simp only [hlast, if_neg hstate]

/-- A cancellation that pauses the Program gives its capacity back. -/
lemma settleCancellation_paused (now) (hafter : s.runtime.view p = some after)
    (hd : s.decisions.lookup p = some d) (hlast : d.lastTarget = some t)
    (hactive : before.state = .active) (hpaused : after.state = .paused) :
    sched.settleCancellation s p (some before) now
      = (s.adjustUsage t (-sched.tokensOf d)).modifyDecision p (cancelledDecision now) := by
  unfold settleCancellation
  rw [hafter, hd]
  simp [hlast, hactive, hpaused]

/-- The Program after a cancellation, out of the queues when nothing waits. -/
def cancelledState (sched : ProgramScheduler) (s : ProgramSchedulerState) (rt : ProgramRuntime)
    (p : ProgramRef) (now : Instant) : ProgramSchedulerState :=
  if rt.requestPool.queue p = [] then
    (sched.settleCancellation { s with runtime := rt } p (s.runtime.view p) now).dequeue p
  else sched.settleCancellation { s with runtime := rt } p (s.runtime.view p) now

lemma cancelledState_cancels (now) (hP : s.runtime.program handle.program = some P)
    (hd : s.decisions.lookup handle.program = some d)
    (hlive : Live sched (s.facts handle.program) P d)
    (hrt : s.runtime.cancelRequest handle = some rt) :
    Cancels handle.requestId (s.facts handle.program)
        ((cancelledState sched s rt handle.program now).facts handle.program) ∧
      Frame sched handle.program s (cancelledState sched s rt handle.program now) := by
  obtain ⟨rest, hrest, hprogram, hqueue, hepoch, hrequest⟩ := cancelRequest_eq_some hP hrt
  have hpool : rt.requestPool.queue handle.program = rest := (hqueue _).trans (if_pos rfl)
  have hprog : rt.program handle.program = some (P.cancelled rest) :=
    (hprogram _).trans (if_pos rfl)
  have hbefore : s.runtime.view handle.program = some (s.runtime.viewOf P) :=
    view_eq_some.2 ⟨P, hP, rfl⟩
  have hafter : ({ s with runtime := rt } : ProgramSchedulerState).runtime.view handle.program
      = some (rt.viewOf (P.cancelled rest)) :=
    view_eq_some.2 ⟨_, hprog, rfl⟩
  have hothers : ∀ r, r ≠ handle.program → rt.requestPool.queue r = s.runtime.requestPool.queue r :=
    fun r hr => (hqueue r).trans (if_neg hr)
  unfold cancelledState
  rw [hbefore, hpool]
  by_cases hidle : P.inFlightRequests = 0 ∧ rest = []
  · obtain ⟨hzero, rfl⟩ := hidle
    rw [if_pos rfl]
    cases hstate : P.state with
    | paused =>
      have hcancelled : P.cancelled [] = P.acting := by
        simp [RuntimeProgram.cancelled, RuntimeProgram.idled, hzero, hstate]
      rw [hcancelled] at hprog hafter hprogram
      have hsame : ¬ (P.state = .active ∧ P.acting.state = .paused) := by simp [hstate]
      rw [settleCancellation_same now hafter hsame]
      refine ⟨?_, (frame_of_runtime hP hprogram hothers rfl rfl hepoch hrequest).dequeue⟩
      rw [facts_dequeue, if_pos rfl, facts_update hprog hpool]
      exact .paused hP hrest hzero hstate
    | active =>
      have hcancelled : P.cancelled [] = P.acting.off := by
        simp [RuntimeProgram.cancelled, RuntimeProgram.idled, hzero, hstate]
      rw [hcancelled] at hprog hafter hprogram
      obtain ⟨t, ht⟩ := Option.isSome_iff_exists.1 (hlive.placed.1 hstate)
      rw [settleCancellation_paused now hafter hd ((hlive.last hstate).trans ht) hstate rfl]
      constructor
      · rw [facts_dequeue, if_pos rfl, facts_modifyDecision, if_pos rfl, facts_adjustUsage,
          facts_update hprog hpool]
        have hdec : (s.facts handle.program).decision = some d := hd
        simp only [hdec, Option.map_some]
        exact .active now hP hd hrest hzero hstate
      refine .dequeue ⟨fun r hr => ?_, fun t' => ?_, rfl, hepoch, hrequest⟩
      · rw [facts_modifyDecision, if_neg hr, facts_adjustUsage]
        exact facts_update ((hprogram r).trans (if_neg hr)) (hothers r hr)
      rw [Facts.tokensOn_paused (P := P.acting.off) hprog rfl,
        Facts.tokensOn_active hP hd hstate ht]
      refine (s.ledger_adjustUsage t (-sched.tokensOf d) t').trans ?_
      split
      · rw [add_zero, sub_eq_add_neg]
      · rw [add_zero, sub_zero]
  · have hcancelled : P.cancelled rest = P := if_neg hidle
    rw [hcancelled] at hprog hafter hprogram
    have hsame : ¬ (P.state = .active ∧ P.state = .paused) := by
      rintro ⟨hactive, hpaused⟩
      rw [hactive] at hpaused
      cases hpaused
    have hframe : Frame sched handle.program s { s with runtime := rt } :=
      frame_of_runtime hP hprogram hothers rfl rfl hepoch hrequest
    rw [settleCancellation_same now hafter hsame]
    split
    · rename_i hnil
      subst hnil
      refine ⟨?_, hframe.dequeue⟩
      rw [facts_dequeue, if_pos rfl, facts_update hprog hpool, ← hP]
      exact .running hP hrest fun hzero => hidle ⟨hzero, rfl⟩
    rename_i hnil
    refine ⟨?_, hframe⟩
    rw [facts_update hprog hpool, ← hP]
    exact .waiting hrest hnil

/-- A cancellation of a request that is not retained is refused; any other one is
a change of its Program, after which the Program may be released. -/
lemma cancelBody_cancels (now) (hsound : Sound sched (s.facts handle.program)) :
    (sched.cancelBody s handle now = none ∧
        ∀ request ∈ (s.facts handle.program).pending, request.id ≠ handle.requestId) ∨
      ∃ s1 s2, sched.cancelBody s handle now = some s2 ∧
        Cancels handle.requestId (s.facts handle.program) (s1.facts handle.program) ∧
        Frame sched handle.program s s1 ∧ sched.Settles s1 s2 := by
  unfold cancelBody
  cases hrt : s.runtime.cancelRequest handle with
  | none => exact .inl ⟨rfl, cancelRequest_eq_none hrt⟩
  | some rt =>
    have hretained : (s.facts handle.program).pending ≠ [] := by
      intro hnil
      have hnone : s.runtime.requestPool.queue handle.program = [] := hnil
      simp [cancelRequest, cancel, hnone] at hrt
    obtain ⟨P, d, hP, hd, hlive⟩ := hsound.of_pending hretained
    obtain ⟨hcancels, hframe⟩ := cancelledState_cancels now hP hd hlive hrt
    refine .inr ⟨_, _, rfl, hcancels, hframe, ?_⟩
    obtain ⟨rest, -, hprogram, -⟩ := cancelRequest_eq_some hP hrt
    have hruntime : (sched.settleCancellation { s with runtime := rt } handle.program
        (s.runtime.view handle.program) now).runtime = rt := by
      unfold settleCancellation
      split
      · split
        · rfl
        split
        · rfl
        · rfl
      · rfl
    have hlive' : (sched.settleCancellation { s with runtime := rt } handle.program
        (s.runtime.view handle.program) now).runtime.program handle.program
          = some (P.cancelled rest) := by
      rw [hruntime, hprogram, if_pos rfl]
    have hdrop := dropUnstarted_settles sched now hlive'
    rw [hruntime] at hdrop
    exact hdrop

end VllmRouter.ProgramScheduling
