import VllmRouter.ProgramScheduling.Steps

/-!
# Calls and their requests

A call of `acquire_synced` owns the request that it retained. In every run the
requests are numbered without repetition and each retained one belongs to a
call (`Numbered`).

- A call that failed has taken its request back, unless it ended in its first
  section because its Program had no target: that exit comes after the request
  was retained and before the cleanup guard exists.
- The front request of an active Program has its permit, or its call is about
  to claim (`run_no_lost_wakeup`).
-/

namespace VllmRouter.ProgramScheduling

open List ProgramScheduling.System RequestPool List.Sublist Option

variable {sched : ProgramScheduler} {f f' : Facts} {r : ProgramRef}

/-! ## Request ids -/

/-- The ids of the retained requests, in the order of arrival. -/
def Facts.ids (f : Facts) : List Nat := f.pending.map PendingProgramRequest.id

lemma Tail.ids (h : Tail sched f f') : f'.ids = f.ids := by
  cases h with
  | retouch => rfl
  | wake
  | admission => exact map_wakeFront (fun _ _ => rfl) f.pending
  | pause => rfl
  | release => rfl
  | leave => rfl

lemma Tails.ids (h : Tails sched f f') : f'.ids = f.ids :=
  h.keeps (I := fun g => g.ids = f.ids) (fun _ _ htail hg => htail.ids.trans hg) rfl

lemma Facts.ids_dropPermit (requestId : Nat) (f : Facts) :
    ({ f with pending := f.pending.map (dropPermit requestId) } : Facts).ids = f.ids :=
  map_dropPermit (fun _ _ => rfl) requestId f.pending

variable {handle : ProgramRequestHandle} {requestId i : Nat} {identity : ProgramIdentity}
  {p : ProgramRef} {request : PendingProgramRequest} {error : Option ScheduleError}
  {phase : CallPhase}

variable {dispatch : Option ProgramDispatch} {event : Instant × Action}

/-- A claim takes the id of its own request, if any. -/
lemma Claims.ids (h : Claims handle f f' dispatch) : (dispatch = none ∧ f'.ids = f.ids) ∨
      (dispatch.isSome = true ∧ f.ids = handle.requestId :: f'.ids) := by
  cases h with
  | @front _ _ _ _ _ _ hpending hid =>
    refine .inr ⟨rfl, ?_⟩
    unfold Facts.ids
    rw [hpending, map_wakeFront fun _ _ => rfl, map_cons, hid]
  | behind hP hactive hfront
  | unplaced => exact .inl ⟨rfl, rfl⟩

lemma Claims.sublist (h : Claims handle f f' dispatch) : f'.ids.Sublist f.ids := by
  rcases h.ids with ⟨-, hsame⟩ | ⟨-, htaken⟩
  · rw [hsame]
  · rw [htaken]
    exact sublist_cons_self _ _

variable {pending : List PendingProgramRequest} {s s' : ProgramSchedulerState}

lemma Removes.ids (h : Removes requestId pending rest) :
    ∃ position, (pending.map PendingProgramRequest.id)[position]? = some requestId ∧
      rest.map PendingProgramRequest.id
        = (pending.map PendingProgramRequest.id).eraseIdx position := by
  obtain ⟨position, _, hget, hid, rfl⟩ := h
  refine ⟨position, by rw [getElem?_map, hget, map_some, hid], ?_⟩
  unfold cancelAt
  rw [eraseIdx_map]
  split
  · rw [map_wakeFront fun _ _ => rfl]
  · rfl

/-- A cancellation takes the id of its request away. -/
lemma Cancels.ids (h : Cancels requestId f f') :
    ∃ position, f.ids[position]? = some requestId ∧ f'.ids = f.ids.eraseIdx position := by
  cases h with
  | waiting hrest hne
  | running hP hrest hbusy
  | paused hP hrest hidle hpaused
  | active _ _ _ hrest => exact hrest.ids

lemma Cancels.sublist (h : Cancels requestId f f') : f'.ids.Sublist f.ids := by
  obtain ⟨_, -, hids⟩ := h.ids
  rw [hids]
  exact eraseIdx_sublist _ _

lemma Completes.ids (h : Completes f f') : f'.ids = f.ids := by
  cases h with
  | runs => rfl
  | pauses => rfl

lemma Arrives.ids (h : Arrives sched p identity request f f') :
    f'.ids = f.ids ++ [request.id] := by
  cases h with
  | known hP hd
  | fresh => exact map_append

lemma Retains.ids (h : Retains sched p identity request f f' error) :
    f'.ids = f.ids ++ [request.id] := by
  cases h with
  | placed h
  | unbound h => exact h.ids
  | @queued f1 _ _ t _ h =>
    rw [← h.ids]
    exact congrArg (map PendingProgramRequest.id) (f1.enqueuedOnce_fields sched p.modelPool t).2.1

lemma Syncs.ids {ids : List TargetId} (h : Syncs sched r pool removed ids f f') :
    f'.ids = f.ids := by
  cases h with
  | other => rfl
  | kept => rfl
  | rebound _ h =>
    cases h with
    | @paused P d replacement
    | @active P d replacement =>
      exact congrArg (map PendingProgramRequest.id)
        ((f.retargeted removed ids).requeued_fields sched pool replacement).2.1

/-! ## Handles -/

lemma handles_setPhase (sys : System) (i : Nat) (phase : CallPhase) :
    (sys.setPhase i phase).calls.filterMap AcquireCall.handle
      = sys.calls.filterMap AcquireCall.handle := by
  have hmap : (sys.setPhase i phase).calls.map AcquireCall.handle
      = sys.calls.map AcquireCall.handle := by
    refine ext_getElem? fun j => ?_
    rw [getElem?_map, getElem?_setPhase, getElem?_map]
    split
    · rename_i hj
      rw [hj, Option.map_map]
      rfl
    · rfl
  simpa only [filterMap_map, Function.id_comp] using congrArg (filterMap id) hmap

/-- What a section does to the handles and to the ids: requests may go, and one
request may come together with its call. -/
inductive Renumbers (s : ProgramSchedulerState) (calls : List AcquireCall)
    (s' : ProgramSchedulerState) (calls' : List AcquireCall) : Prop
  | stays (hhandles : calls'.filterMap AcquireCall.handle = calls.filterMap AcquireCall.handle)
      (hnext : s'.runtime.requestPool.nextRequestId = s.runtime.requestPool.nextRequestId)
      (hids : ∀ r, (s'.facts r).ids.Sublist (s.facts r).ids)
  | adds (p : ProgramRef)
      (hhandles : calls'.filterMap AcquireCall.handle = calls.filterMap AcquireCall.handle
        ++ [⟨p, s.runtime.requestPool.nextRequestId + 1⟩])
      (hnext : s'.runtime.requestPool.nextRequestId
        = s.runtime.requestPool.nextRequestId + 1)
      (hothers : ∀ r, r ≠ p → (s'.facts r).ids = (s.facts r).ids)
      (hids : (s'.facts p).ids = (s.facts p).ids ++ [s.runtime.requestPool.nextRequestId + 1])

variable {sys : System} {now : Instant} {action : Action} {s1 : ProgramSchedulerState}
  {calls calls' : List AcquireCall} {dispatches : List ProgramDispatch}

/-- A section about one Program. -/
lemma sublist_of_frame (hframe : Frame sched p sys.state s1)
    (h : (s1.facts p).ids.Sublist (sys.state.facts p).ids) (r : ProgramRef) :
    (s1.facts r).ids.Sublist (sys.state.facts r).ids := by
  by_cases hr : r = p
  · rw [hr]
    exact h
  · rw [hframe.others r hr]

lemma Outcome.renumbers (h : Outcome sched sys now action s1 calls dispatches) :
    Renumbers sys.state sys.calls s1 calls := by
  cases h with
  | idle hsame
  | observe _ hsame => exact .stays rfl hsame.request fun r => by rw [hsame.facts]
  | @turn _ i c phase hc hturn
  | @absent _ i _ _ phase => exact .stays (handles_setPhase sys i phase) rfl fun r => refl _
  | reject _ hhandle =>
    refine .stays ?_ rfl fun r => refl _
    rw [filterMap_append, filterMap_cons_none hhandle, filterMap_nil, append_nil]
  | @permit _ i _ _ _ _ hpermit =>
    refine .stays (handles_setPhase sys i .claiming) (takePermit_eq hpermit).2.2.2 fun r => ?_
    rw [facts_takePermit hpermit]
    split
    · rw [Facts.ids_dropPermit]
    · exact refl _
  | @claim _ i _ _ _ _ _ hclaims hframe =>
    exact .stays (handles_setPhase sys i _) hframe.request (sublist_of_frame hframe hclaims.sublist)
  | @cancel _ _ i _ _ phase _ _ hcancels hframe =>
    exact .stays (handles_setPhase sys i phase) hframe.request
      (sublist_of_frame hframe hcancels.sublist)
  | refuse => exact .stays rfl rfl fun r => refl _
  | complete _ _ _ hcompletes hframe =>
    refine .stays rfl hframe.request (sublist_of_frame hframe ?_)
    rw [hcompletes.ids]
  | @retain _ env identity tokens targets text arrivedAt p error call htime
      htargets hkey hretains hframe hledger hcall =>
    refine .adds p ?_ hframe.request (fun r hr => ?_) hretains.ids
    · rw [filterMap_append, filterMap_cons_some hcall, filterMap_nil]
    · rw [hframe.others r hr]
  | sync _ _ hsync =>
    refine .stays rfl hsync.request fun r => ?_
    rw [(hsync.syncs r).ids]

/-! ## Numbering -/

/-- Requests are numbered in the order of their calls, and each belongs to a call. -/
structure Numbered (s : ProgramSchedulerState) (calls : List AcquireCall) : Prop where
  nodup : ∀ r, (s.facts r).ids.Nodup
  called : ∀ handle ∈ calls.filterMap AcquireCall.handle,
    handle.requestId ≤ s.runtime.requestPool.nextRequestId
  increasing : (calls.filterMap AcquireCall.handle).Pairwise fun h h' => h.requestId < h'.requestId
  owned : ∀ r, ∀ id ∈ (s.facts r).ids, ⟨r, id⟩ ∈ calls.filterMap AcquireCall.handle

lemma Renumbers.numbered (h : Renumbers s calls s' calls') (hn : Numbered s calls) :
    Numbered s' calls' := by
  cases h with
  | stays hhandles hnext hids =>
    constructor
    · exact fun r => (hn.nodup r).sublist (hids r)
    · rw [hhandles, hnext]
      exact hn.called
    · rw [hhandles]
      exact hn.increasing
    · rw [hhandles]
      exact fun r id hid => hn.owned r id ((hids r).subset hid)
  | adds p hhandles hnext hothers hids =>
    constructor
    · intro r
      by_cases hr : r = p
      · rw [hr, hids, nodup_append]
        refine ⟨hn.nodup p, nodup_singleton _, fun id hid _ hid' => ?_⟩
        rw [mem_singleton.1 hid']
        exact Nat.ne_of_lt (Nat.lt_succ_of_le (hn.called _ (hn.owned p id hid)))
      · rw [hothers r hr]
        exact hn.nodup r
    · rw [hhandles, hnext]
      exact forall_mem_append.2 ⟨fun handle hmem => (hn.called handle hmem).trans
        (Nat.le_succ _), forall_mem_singleton.2 le_rfl⟩
    · rw [hhandles, pairwise_append]
      refine ⟨hn.increasing, pairwise_singleton _ _, fun handle hmem _ hnew => ?_⟩
      rw [mem_singleton.1 hnew]
      exact Nat.lt_succ_of_le (hn.called handle hmem)
    intro r id hid
    rw [hhandles, mem_append, mem_singleton]
    by_cases hr : r = p
    · rw [hr, hids, mem_append, mem_singleton] at hid
      rw [hr]
      exact hid.imp (hn.owned p id) fun hnew => by rw [hnew]
    · rw [hothers r hr] at hid
      exact .inl (hn.owned r id hid)

/-- Two calls have different requests. -/
lemma Numbered.ne (hn : Numbered s calls) (hi : calls[i]? = some c) (hj : calls[j]? = some c')
    (hij : i ≠ j) (hhandle : c.handle = some handle) (hhandle' : c'.handle = some handle') :
    handle.requestId ≠ handle'.requestId := by
  have hpairs := List.pairwise_iff_getElem.1 (List.pairwise_filterMap.1 hn.increasing)
  obtain ⟨hilt, rfl⟩ := List.getElem?_eq_some_iff.1 hi
  obtain ⟨hjlt, rfl⟩ := List.getElem?_eq_some_iff.1 hj
  rcases Nat.lt_or_gt_of_ne hij with hlt | hgt
  · exact (hpairs i j hilt hjlt hlt _ hhandle _ hhandle').ne
  · exact (hpairs j i hjlt hilt hgt _ hhandle' _ hhandle).ne'

/-- Decisions create and drop no request. -/
lemma Decides.renumbers (h : sched.Decides s s') : Renumbers s calls s' calls :=
  .stays rfl h.static.2 fun r => by rw [(h.tails r).ids]

lemma empty_numbered (config) :
    Numbered (empty config).state (empty config).calls where
  nodup := fun r => by rw [empty_facts]; exact nodup_nil
  called := nofun
  increasing := List.Pairwise.nil
  owned := fun r id hid => by rw [empty_facts] at hid; cases hid

/-! ## Wakeups -/

/-- The request `id` has its permit if it is the front of an active Program. -/
def Woken (id : Nat) (f : Facts) : Prop :=
  ∀ P front, f.program = some P → P.state = .active → f.pending.head? = some front →
    front.id = id → front.permit = true

namespace Woken

variable {id : Nat}

lemma of_paused (hP : f.program = some P) (hpaused : P.state = .paused) : Woken id f := by
  intro _ _ hQ hactive
  rw [hP] at hQ
  cases hQ
  rw [hpaused] at hactive
  cases hactive

lemma of_nil (hnil : f.pending = []) : Woken id f := by
  intro _ _ _ _ hfront
  rw [hnil] at hfront
  cases hfront

lemma of_wakeFront (h : f.pending = wakeFront pending) : Woken id f := by
  intro _ _ _ _ hfront _
  rw [h] at hfront
  cases pending with
  | nil => cases hfront
  | cons =>
    cases hfront
    rfl

lemma tail (h : Tail sched f f') (hf : Woken id f) : Woken id f' := by
  cases h with
  | retouch => exact hf
  | wake => exact of_wakeFront rfl
  | pause => exact of_paused rfl rfl
  | admission => exact of_wakeFront rfl
  | release _ _ hwait => exact of_nil hwait
  | leave hP =>
    intro P _ hP'
    rw [show f.program = some P from hP'] at hP
    cases hP

/-- The permit that a call takes is its own. -/
lemma permit (hne : id ≠ requestId) (hf : Woken id f) :
    Woken id { f with pending := f.pending.map (dropPermit requestId) } := by
  intro P _ hP hactive hfront hid
  obtain ⟨request, hrequest, rfl⟩ := map_eq_some_iff.1 (head?_map ▸ hfront)
  have hkept : dropPermit requestId request = request := by
    unfold dropPermit at hid ⊢
    split
    · rename_i hsame
      rw [if_pos hsame] at hid
      exact absurd (hid.symm.trans hsame) hne
    · rfl
  rw [hkept] at hid ⊢
  exact hf P request hP hactive hrequest hid

lemma claim (h : Claims handle f f' dispatch) (hf : Woken id f) : Woken id f' := by
  cases h with
  | front => exact of_wakeFront rfl
  | @behind P hP hactive =>
    intro _ front _ _ hhead
    exact hf P front hP hactive hhead
  | unplaced => exact hf

/-- A claim that finds nothing leaves its call behind another one, or its
Program paused. -/
lemma claimed (h : Claims handle f f' none) (hsound : Sound sched f) :
    Woken handle.requestId f' := by
  cases h with
  | behind _ _ hfront =>
    intro Q front _ _ hhead hid
    exact absurd hid (hfront front hhead)
  | unplaced hP =>
    intro P _ hP' hactive
    obtain ⟨d, -, hlive⟩ := hsound.of_program hP'
    have hsome := hlive.placed.1 hactive
    rw [hP P hP'] at hsome
    cases hsome

lemma cancel (h : Cancels requestId f f') (hf : Woken id f) : Woken id f' := by
  cases h with
  | @waiting rest hrest =>
    obtain ⟨position, request, _, -, rfl⟩ := hrest
    by_cases hposition : position = 0
    · have hfront : cancelAt f.pending position
          = wakeFront (f.pending.eraseIdx position) := by
        unfold cancelAt
        rw [if_pos hposition]
      exact of_wakeFront hfront
    -- the front request stays
    intro P front hP hactive hfront
    refine hf P front hP hactive ?_
    rw [← hfront]
    show f.pending.head? = (cancelAt f.pending position).head?
    unfold cancelAt
    rw [if_neg hposition]
    cases f.pending with
    | nil => rfl
    | cons =>
      obtain ⟨k, rfl⟩ := Nat.exists_eq_succ_of_ne_zero hposition
      rfl
  | running hP hrest hbusy
  | paused hP hrest hidle hpaused
  | active => exact of_nil rfl

lemma complete (h : Completes f f') (hf : Woken id f) : Woken id f' := by
  cases h with
  | runs _ hP _ hactive =>
    intro Q front _ _ hfront
    exact hf _ front hP hactive hfront
  | pauses => exact of_paused rfl rfl

lemma arrive (h : Arrives sched p identity request f f') (hne : id ≠ request.id)
    (hf : Woken id f) : Woken id f' := by
  cases h with
  | @known P _ hP =>
    intro Q front hQ hactive hfront hid
    cases hQ
    cases hpending : f.pending with
    | nil =>
      have hnew : ([] ++ [request]).head? = some front := hpending ▸ hfront
      cases hnew
      exact absurd hid hne.symm
    | cons first rest =>
      have hold : (first :: rest ++ [request]).head? = some front := hpending ▸ hfront
      cases hold
      exact hf P _ hP hactive (by rw [hpending]; rfl) hid
  | fresh => exact of_paused rfl rfl

lemma retain (h : Retains sched p identity request f f' error) (hne : id ≠ request.id)
    (hf : Woken id f) : Woken id f' := by
  cases h with
  | placed h
  | unbound h => exact arrive h hne hf
  | @queued f1 _ _ t _ h =>
    obtain ⟨hprogram, hpending, -⟩ := f1.enqueuedOnce_fields sched p.modelPool t
    intro Q front hQ hactive hfront
    exact arrive h hne hf Q front (hprogram.symm.trans hQ) hactive (hpending ▸ hfront)

lemma sync {pool : ModelPool} {ids : List TargetId} (h : Syncs sched r pool removed ids f f')
    (hf : Woken id f) : Woken id f' := by
  cases h with
  | other hpool
  | kept => exact hf
  | rebound _ h =>
    cases h with
    | @paused _ _ replacement _ _ hP _ hpaused =>
      exact of_paused (((f.retargeted removed ids).requeued_fields sched pool
        replacement).1.trans hP) hpaused
    | active => exact of_paused rfl rfl

end Woken

/-! ## Calls -/

/-- The pool of an arrival has a target that the Program can be bound to. -/
def bindsArrival (sched : ProgramScheduler) (sys : System) (event : Instant × Action) : Bool :=
  match event.2 with
  | .acquire _ identity _ targets _ _ => decide (targets = [] ∨ sched.CanBind ∧
      (sys.state.modelTargets.lookup identity.modelPool).getD [] ≠ [])
  | _ => true

/-- The call found nothing to claim and has not been woken since. -/
def AcquireCall.awaits (c : AcquireCall) : Bool :=
  match c.phase with
  | .checking | .waiting _ => true
  | .claiming | .returned _ | .dropped => false

/-- What a section must leave as it is for a call that it is not about. -/
structure Serves (id : Nat) (f f' : Facts) : Prop where
  ids : id ∈ f'.ids → id ∈ f.ids
  woken : Woken id f → Woken id f'

lemma Serves.refl (id : Nat) (f : Facts) : Serves id f f := ⟨fun h => h, fun h => h⟩

/-- A section about one Program. -/
lemma Serves.of_frame {id : Nat} (hframe : Frame sched p sys.state s1)
    (h : Serves id (sys.state.facts p) (s1.facts p)) (r : ProgramRef) :
    Serves id (sys.state.facts r) (s1.facts r) := by
  by_cases hp : r = p
  · subst hp
    exact h
  · rw [hframe.others r hp]
    exact .refl _ _

/-- A call that ended has no retained request, if every arrival was `bound`, and
one that awaits its dispatch will be woken when its turn comes. -/
structure Attends (bound : Prop) (c : AcquireCall) (id : Nat) (f : Facts) : Prop where
  ended : bound → c.live = false → id ∉ f.ids
  woken : c.awaits = true → Woken id f

def Attended (bound : Prop) (s : ProgramSchedulerState) (calls : List AcquireCall) : Prop :=
  ∀ (i : Nat) (c : AcquireCall) handle, calls[i]? = some c → c.handle = some handle →
    Attends bound c handle.requestId (s.facts handle.program)

section Attended

variable {bound : Prop} {c : AcquireCall}

lemma Attends.serves {id : Nat} (h : Attends bound c id f) (hserves : Serves id f f') :
    Attends bound c id f' where
  ended := fun hbound hended hmem => h.ended hbound hended (hserves.ids hmem)
  woken := fun hawaits => hserves.woken (h.woken hawaits)

lemma Attended.mono (ha : Attended bound s calls)
    (hserves : ∀ r id, Serves id (s.facts r) (s'.facts r)) : Attended bound s' calls :=
  fun i c handle hc hhandle => (ha i c handle hc hhandle).serves (hserves _ _)

/-- A section of the call `i`. -/
lemma Attended.setPhase (ha : Attended bound sys.state sys.calls) (hc : sys.calls[i]? = some c)
    (hothers : ∀ j c' handle, j ≠ i → sys.calls[j]? = some c' → c'.handle = some handle →
      Serves handle.requestId (sys.state.facts handle.program) (s1.facts handle.program))
    (hi : ∀ handle, c.handle = some handle →
      Attends bound { c with phase := phase } handle.requestId (s1.facts handle.program)) :
    Attended bound s1 (sys.setPhase i phase).calls := by
  intro j c' handle hc' hhandle
  rw [getElem?_setPhase] at hc'
  split at hc'
  · rw [hc] at hc'
    cases hc'
    exact hi handle hhandle
  · rename_i hj
    exact (ha j c' handle hc' hhandle).serves (hothers j c' handle hj hc' hhandle)

/-- A call is added. -/
lemma Attended.append (ha : Attended bound sys.state sys.calls)
    (hothers : ∀ c ∈ sys.calls, ∀ handle, c.handle = some handle →
      Serves handle.requestId (sys.state.facts handle.program) (s1.facts handle.program))
    (hnew : ∀ handle, call.handle = some handle →
      Attends bound call handle.requestId (s1.facts handle.program)) :
    Attended bound s1 (sys.calls ++ [call]) := by
  intro i c handle hc hhandle
  rcases getElem?_append_cases hc with hold | ⟨n, -, hn⟩
  · exact (ha i c handle hold hhandle).serves (hothers c (mem_of_getElem? hold) handle hhandle)
  · obtain rfl := mem_singleton.1 (mem_of_getElem? hn)
    exact hnew handle hhandle

/-- An arrival that can be bound does not fail. -/
lemma Retains.error_eq_none (h : Retains sched p identity request f f' error)
    (hsound : Sound sched f) (hcan : sched.CanBind) (hhome : f.home ≠ []) : error = none := by
  cases h with
  | placed => rfl
  | @unbound _ _ d h hP _ hd hlast =>
    have hlive := (h.sound hsound).live_of hP hd
    have hsome : d.lastTarget.isSome = true := by
      refine hlive.bound hcan ?_
      cases h with
      | known hP hd
      | fresh => exact hhome
    rw [hlast] at hsome
    cases hsome
  | queued => rfl

lemma not_mem_eraseIdx_of_nodup {α : Type} {l : List α} {a : α} (hnodup : l.Nodup)
    (hi : l[i]? = some a) : a ∉ l.eraseIdx i := by
  intro hmem
  obtain ⟨j, hne, hj⟩ := List.mem_eraseIdx_iff_getElem?.1 hmem
  exact hne ((List.getElem?_inj (List.getElem?_eq_some_iff.1 hj).1 hnodup).1 (hj.trans hi.symm))

lemma CallPhase.not_awaits_of_isFailure (h : phase.isFailure = true) (c : AcquireCall) :
    ({ c with phase := phase } : AcquireCall).awaits = false := by
  cases phase with
  | returned => rfl
  | dropped => rfl
  | claiming
  | checking
  | waiting => cases h

/-- A call that fails without its request. -/
lemma Attends.of_failure {id : Nat} (hphase : phase.isFailure = true) (hids : id ∉ f.ids) :
    Attends bound { c with phase := phase } id f where
  ended := fun _ _ => hids
  woken := fun hawaits => by
    rw [CallPhase.not_awaits_of_isFailure hphase] at hawaits
    cases hawaits

lemma Outcome.attended (houtcome : Outcome sched sys event.1 event.2 s1 calls dispatches)
    (h : Consistent sched sys.state) (hn : Numbered sys.state sys.calls)
    (hguard : bound → bindsArrival sched sys event = true)
    (ha : Attended bound sys.state sys.calls) : Attended bound s1 calls := by
  obtain ⟨_, _⟩ := event
  cases houtcome with
  | idle hsame
  | observe _ hsame => exact ha.mono fun r id => by rw [hsame.facts]; exact .refl _ _
  | @turn _ i c _ hc hturn =>
    refine ha.setPhase hc (fun _ _ _ _ _ _ => .refl _ _) fun handle hhandle => ?_
    have hold := ha i c handle hc hhandle
    obtain ⟨_, _, _⟩ := c
    cases hturn with
    | arms => exact ⟨nofun, fun _ => hold.woken rfl⟩
    | elapses => exact ⟨nofun, nofun⟩
  | reject _ hhandle =>
    refine ha.append (fun _ _ _ _ => .refl _ _) fun _ hhandle' => ?_
    cases hhandle.symm.trans hhandle'
  | @permit _ _ _ _ hc hhandle hpermit =>
    refine ha.setPhase hc (fun _ _ _ hj hc' hhandle' => ?_) fun _ _ => ⟨nofun, nofun⟩
    rw [facts_takePermit hpermit]
    split
    · -- the permit that was taken belongs to another call
      exact ⟨fun hmem => by rwa [Facts.ids_dropPermit] at hmem,
        Woken.permit (hn.ne hc' hc hj hhandle' hhandle)⟩
    · exact .refl _ _
  | @claim _ i c handle dispatch hc hhandle hclaims hframe =>
    have hserves : ∀ id, Serves id (sys.state.facts handle.program) (s1.facts handle.program) :=
      fun id => ⟨fun hmem => hclaims.sublist.subset hmem, Woken.claim hclaims⟩
    refine ha.setPhase hc (fun _ _ _ _ _ _ => .of_frame hframe (hserves _) _) fun _ hhandle' => ?_
    cases hhandle.symm.trans hhandle'
    rcases hclaims.ids with ⟨rfl, -⟩ | ⟨hsome, htaken⟩
    · exact ⟨nofun, fun _ => Woken.claimed hclaims (h.sound handle.program)⟩
    obtain ⟨_, rfl⟩ := isSome_iff_exists.1 hsome
    have hnodup := hn.nodup handle.program
    rw [htaken] at hnodup
    exact ⟨fun _ _ => (nodup_cons.1 hnodup).1, nofun⟩
  | @absent _ _ _ _ _ hc hhandle habsent hphase =>
    refine ha.setPhase hc (fun _ _ _ _ _ _ => .refl _ _) fun _ hhandle' => ?_
    cases hhandle.symm.trans hhandle'
    refine .of_failure hphase fun hmem => ?_
    obtain ⟨request, hrequest, hid⟩ := mem_map.1 hmem
    exact habsent request hrequest hid
  | @cancel _ _ _ _ handle _ hc hhandle hcancels hframe hphase =>
    have hserves : ∀ id, Serves id (sys.state.facts handle.program) (s1.facts handle.program) :=
      fun id => ⟨fun hmem => hcancels.sublist.subset hmem, Woken.cancel hcancels⟩
    refine ha.setPhase hc (fun _ _ _ _ _ _ => .of_frame hframe (hserves _) _) fun _ hhandle' => ?_
    cases hhandle.symm.trans hhandle'
    obtain ⟨_, hposition, hids⟩ := hcancels.ids
    refine .of_failure hphase ?_
    rw [hids]
    exact not_mem_eraseIdx_of_nodup (hn.nodup handle.program) hposition
  | refuse => exact ha
  | complete _ _ _ hcompletes hframe =>
    refine ha.mono fun r id => .of_frame hframe ⟨fun hmem => ?_, Woken.complete hcompletes⟩ r
    rwa [hcompletes.ids] at hmem
  | @retain _ env identity tokens targets text arrivedAt p error call htime
      htargets hkey hretains hframe hledger hcall hphase =>
    refine ha.append (fun c hmem handle hhandle => ?_) fun handle hhandle => ⟨?_, ?_⟩
    · have hgiven := hn.called handle (mem_filterMap.2 ⟨c, hmem, hhandle⟩)
      have hne : handle.requestId ≠ sys.state.runtime.requestPool.nextRequestId + 1 :=
        Nat.ne_of_lt (Nat.lt_succ_of_le hgiven)
      by_cases hp : handle.program = p
      · rw [hp]
        refine ⟨fun hmem => ?_, Woken.retain hretains hne⟩
        rw [hretains.ids, mem_append, mem_singleton] at hmem
        exact hmem.resolve_right hne
      · rw [hframe.others _ hp]
        exact .refl _ _
    · -- the new call goes on if its Program can be bound
      intro hbound hended
      have hbinds : targets = [] ∨ sched.CanBind ∧
          (sys.state.modelTargets.lookup identity.modelPool).getD [] ≠ [] :=
        of_decide_eq_true (hguard hbound)
      obtain ⟨hcan, hpool⟩ := hbinds.resolve_left htargets
      have hhome : (sys.state.facts p).home ≠ [] := by
        rw [← show p.modelPool = identity.modelPool from
          congrArg RuntimeKey.modelPool hkey] at hpool
        exact hpool
      unfold AcquireCall.live at hended
      rw [hphase, hretains.error_eq_none (h.sound p) hcan hhome] at hended
      cases hended
    · intro hawaits
      unfold AcquireCall.awaits at hawaits
      rw [hphase] at hawaits
      cases error <;> cases hawaits
  | sync _ _ hsync =>
    refine ha.mono fun r id => ⟨fun hmem => ?_, fun hr => hr.sync (hsync.syncs r)⟩
    rwa [(hsync.syncs r).ids] at hmem

/-- **One step**: the calls stay attended. -/
lemma step_attended (h : Consistent sched sys.state)
    (hguard : bound → bindsArrival sched sys event = true)
    (hs : Numbered sys.state sys.calls ∧ Attended bound sys.state sys.calls) :
    Numbered (sys.step sched event).state (sys.step sched event).calls ∧
      Attended bound (sys.step sched event).state (sys.step sched event).calls := by
  rcases step_happens h event with ⟨-, hstill⟩ | ⟨-, s1, houtcome, hdecides⟩
  · rw [hstill]
    exact hs
  refine ⟨(Decides.renumbers hdecides).numbered (houtcome.renumbers.numbered hs.1),
    (houtcome.attended h hs.1 hguard hs.2).mono fun r id => ⟨fun hmem => ?_, fun hr => ?_⟩⟩
  · rwa [(hdecides.tails r).ids] at hmem
  · exact (hdecides.tails r).keeps (fun _ _ htail hf => hf.tail htail) hr

lemma empty_attended (config) :
    Numbered (empty config).state (empty config).calls ∧
      Attended bound (empty config).state (empty config).calls :=
  ⟨empty_numbered config, nofun⟩

end Attended

/-! ## Calls that ended -/

lemma AcquireCall.not_live_of_failed {c : AcquireCall} (h : c.failed = true) :
    c.live = false := by
  unfold failed at h
  unfold live
  cases hphase : c.phase with
  | returned => rfl
  | dropped => rfl
  | claiming
  | checking
  | waiting =>
    rw [hphase] at h
    cases h

/-- In runs in which every arrival finds a target: the request of a call that
failed is not retained, and every retained request belongs to a call that has
not ended. -/
theorem run_failed_leaves_nothing (sched : ProgramScheduler) (events : List (Instant × Action))
    (hguard : guardedRun (step sched) (bindsArrival sched) (empty sched.config) events = true) :
    (∀ (i : Nat) (c : AcquireCall) (handle : ProgramRequestHandle),
      ((empty sched.config).run sched events).calls[i]? = some c → c.failed = true →
      c.handle = some handle → ∀ request ∈ ((empty sched.config).run sched
        events).state.runtime.requestPool.queue handle.program, request.id ≠ handle.requestId) ∧
    ∀ (r : ProgramRef), ∀ request ∈ ((empty sched.config).run sched
        events).state.runtime.requestPool.queue r,
      ∃ c ∈ ((empty sched.config).run sched events).calls,
        c.handle = some ⟨r, request.id⟩ ∧ c.live = true := by
  obtain ⟨hnumbered, hattended⟩ := run_guarded (J := fun sys => Numbered sys.state sys.calls ∧
    Attended True sys.state sys.calls) (empty_attended _)
    (fun _ _ h hg => step_attended h fun _ => hg) hguard
  constructor
  · intro i c handle hc hfailed hhandle _ hrequest hid
    exact (hattended i c handle hc hhandle).ended trivial (AcquireCall.not_live_of_failed hfailed)
      (hid ▸ mem_map_of_mem hrequest)
  intro r request hrequest
  have hmem : request.id ∈ (((empty sched.config).run sched events).state.facts r).ids :=
    mem_map_of_mem hrequest
  obtain ⟨c, hc, hhandle⟩ := mem_filterMap.1 (hnumbered.owned r request.id hmem)
  refine ⟨c, hc, hhandle, ?_⟩
  obtain ⟨i, hi⟩ := mem_iff_getElem?.1 hc
  cases hlive : c.live with
  | true => rfl
  | false => exact absurd hmem ((hattended i c _ hi hhandle).ended trivial hlive)

/-- The future of a waiting call is dropped. -/
def droppedRun : List (Instant × Action) :=
  [(1, syncOf "m" 0 ["a"]), (2, arrivalOf "m" "p" ["a"] 2), (3, arrivalOf "m" "q" ["a"] 3),
    (4, arrivalOf "m" "q" ["a"] 4), (5, .drop .plain 1)]

theorem run_failed_leaves_nothing_dropped :
    (smallRun droppedRun).calls[1]?.map AcquireCall.failed = some true ∧
      (smallRun droppedRun).calls[1]?.bind AcquireCall.handle = some ⟨⟨"m", "q", 0⟩, 2⟩ ∧
      2 ∉ ((smallRun droppedRun).state.facts ⟨"m", "q", 0⟩).ids := by
  have hfailed : (smallRun droppedRun).calls[1]?.map AcquireCall.failed = some true := by
    decide +kernel
  have hhandle : (smallRun droppedRun).calls[1]?.bind AcquireCall.handle
      = some ⟨⟨"m", "q", 0⟩, 2⟩ := by
    decide +kernel
  obtain ⟨c, hc, hcfailed⟩ := map_eq_some_iff.1 hfailed
  obtain ⟨c', hc', hchandle⟩ := bind_eq_some_iff.1 hhandle
  rw [hc] at hc'
  cases hc'
  refine ⟨hfailed, hhandle, fun hmem => ?_⟩
  obtain ⟨request, hrequest, hid⟩ := mem_map.1 hmem
  exact (run_failed_leaves_nothing smallScheduler droppedRun (by decide +kernel)).1 1 c _ hc
    hcfailed hchandle request hrequest hid

/-- The pool loses its targets between the snapshot that a caller saw and the
retention of its request. -/
def unboundRun : System := smallRun
  [(1, syncOf "m" 0 ["a"]), (2, syncOf "m" 1 []), (3, arrivalOf "m" "p" ["a"] 2)]

/-- The call fails, and its request stays at the front of the FIFO. -/
theorem unboundRun_retains : unboundRun.calls[0]?.map AcquireCall.failed = some true ∧
      unboundRun.calls[0]?.bind AcquireCall.handle = some ⟨⟨"m", "p", 0⟩, 1⟩ ∧
      (unboundRun.state.facts ⟨"m", "p", 0⟩).ids = [1] := by
  decide +kernel

/-! ## Calls that wait -/

/-- In every run: the front request of an active Program has its permit, or its
call is between its retention, or a wakeup, and its next claim attempt. -/
theorem run_no_lost_wakeup (sched : ProgramScheduler) (events : List (Instant × Action))
    (r : ProgramRef) (P : RuntimeProgram) (front : PendingProgramRequest) (c : AcquireCall)
    (hP : ((empty sched.config).run sched events).state.runtime.program r = some P)
    (hactive : P.state = .active)
    (hfront : (((empty sched.config).run sched events).state.runtime.requestPool.queue
      r).head? = some front) (hc : c ∈ ((empty sched.config).run sched events).calls)
    (hhandle : c.handle = some ⟨r, front.id⟩) (hlive : c.live = true) :
    front.permit = true ∨ c.phase = .claiming := by
  have hrun := run_invariant (J := fun sys => Numbered sys.state sys.calls ∧
    Attended False sys.state sys.calls) (empty_attended sched.config)
    (fun _ _ h => step_attended h nofun) events
  obtain ⟨i, hi⟩ := mem_iff_getElem?.1 hc
  have hwoken := (hrun.2 i c ⟨r, front.id⟩ hi hhandle).woken
  cases hphase : c.phase with
  | claiming => exact .inr rfl
  | checking
  | waiting =>
    refine .inl (hwoken ?_ P front hP hactive hfront rfl)
    unfold AcquireCall.awaits
    rw [hphase]
  | returned result
  | dropped =>
    unfold AcquireCall.live at hlive
    rw [hphase] at hlive
    cases hlive

/-- A second request behind one that is dispatched: its call looks, waits, and
gets the permit when the first one is claimed. -/
def wokenRun : List (Instant × Action) :=
  [(1, syncOf "m" 0 ["a"]), (2, arrivalOf "m" "p" ["a"] 2), (3, arrivalOf "m" "p" ["a"] 3),
    (4, .claim 1), (5, .check .plain 1), (6, .claim 0)]

theorem run_no_lost_wakeup_second :
    ∃ (P : RuntimeProgram) (front : PendingProgramRequest) (c : AcquireCall),
      (smallRun wokenRun).state.runtime.program ⟨"m", "p", 0⟩ = some P ∧ P.state = .active ∧
      ((smallRun wokenRun).state.runtime.requestPool.queue ⟨"m", "p", 0⟩).head? = some front ∧
      c ∈ (smallRun wokenRun).calls ∧ c.handle = some ⟨⟨"m", "p", 0⟩, front.id⟩ ∧
      c.live = true ∧ (front.permit = true ∨ c.phase = .claiming) := by
  have hP : ((smallRun wokenRun).state.runtime.program ⟨"m", "p", 0⟩).map RuntimeProgram.state
      = some .active := by
    decide +kernel
  have hfront : ((smallRun wokenRun).state.runtime.requestPool.queue ⟨"m", "p", 0⟩).head?.map
      PendingProgramRequest.id = some 2 := by
    decide +kernel
  have hc : (smallRun wokenRun).calls[1]?.map (fun c => (c.handle, c.live))
      = some (some ⟨⟨"m", "p", 0⟩, 2⟩, true) := by
    decide +kernel
  obtain ⟨P, hP, hactive⟩ := map_eq_some_iff.1 hP
  obtain ⟨front, hfront, hid⟩ := map_eq_some_iff.1 hfront
  obtain ⟨c, hc, hboth⟩ := map_eq_some_iff.1 hc
  obtain ⟨hhandle, hlive⟩ := Prod.mk.inj hboth
  have hmem := mem_of_getElem? hc
  rw [← hid] at hhandle
  exact ⟨P, front, c, hP, hactive, hfront, hmem, hhandle, hlive, run_no_lost_wakeup smallScheduler
    wokenRun ⟨"m", "p", 0⟩ P front c hP hactive hfront hmem hhandle hlive⟩

/-- The action ends a wait. -/
def Action.wakes : Action → Bool
  | .notified _ | .elapsed _ _ => true
  | _ => false

/-- A request that arrives at an active Program with an empty FIFO. -/
def firstClaimRun : List (Instant × Action) :=
  [(1, syncOf "m" 0 ["a"]), (2, arrivalOf "m" "p" ["a"] 2), (3, .claim 0),
    (4, arrivalOf "m" "p" ["a"] 4)]

/-- No permit is set for it, and no call was woken: its call is about to make
its first claim attempt. -/
theorem firstClaimRun_unwoken : (firstClaimRun.all fun event => !event.2.wakes) = true ∧
      ((smallRun firstClaimRun).state.runtime.program ⟨"m", "p", 0⟩).map RuntimeProgram.state
        = some .active ∧
      ((smallRun firstClaimRun).state.runtime.requestPool.queue ⟨"m", "p", 0⟩).head?.map
        (fun front => (front.id, front.permit)) = some (2, false) ∧
      (smallRun firstClaimRun).calls[1]?.map (fun c => (c.handle, c.live))
        = some (some ⟨⟨"m", "p", 0⟩, 2⟩, true) := by
  decide +kernel

/-- In every run, requests are numbered in the order of their calls, each retained one belongs to
a call, and none is retained twice or for two Programs (with fewer than `2 ^ 64` acquires, before
the ids of the source wrap). -/
theorem run_requests_single (sched : ProgramScheduler) (events : List (Instant × Action)) :
    let sys := (empty sched.config).run sched events
    Numbered sys.state sys.calls ∧ ∀ r r' id, id ∈ (sys.state.facts r).ids →
      id ∈ (sys.state.facts r').ids → r = r' := by
  have hrun := (run_invariant (J := fun sys => Numbered sys.state sys.calls ∧
    Attended False sys.state sys.calls) (empty_attended sched.config)
    (fun _ _ h => step_attended h nofun) events).1
  refine ⟨hrun, fun r r' id hid hid' => ?_⟩
  have hnodup : (filterMap AcquireCall.handle _ |>.map ProgramRequestHandle.requestId).Nodup :=
    pairwise_map.2 (hrun.increasing.imp Nat.ne_of_lt)
  exact congrArg ProgramRequestHandle.program
    (inj_on_of_nodup_map hnodup (hrun.owned r id hid) (hrun.owned r' id hid') rfl)

end VllmRouter.ProgramScheduling
