import VllmRouter.ProgramScheduling.Fifo

/-!
# Refused operations of the runtime (`program_scheduling/runtime.rs`)

`RuntimeOp.call` has the operations with the runtime as it is at every early exit.
A refused operation changes nothing, with one exception (`refused_unchanged_iff`):
`admit_front` enters the placement before it looks at the request pool, so a handle that
is not the front request leaves a placement without a dispatch
(`refused_admission_activates`).
-/

namespace VllmRouter.ProgramScheduling

open ProgramRuntime

variable {rt : ProgramRuntime} {handle : ProgramRequestHandle} {targetId : TargetId}
  {P : RuntimeProgram}

/-- The live Program is looked up and checked before anything is written. -/
def ProgramRuntime.checked (rt : ProgramRuntime) (reference : ProgramRef)
    (refused : RuntimeProgram → Prop) [DecidablePred refused]
    (write : RuntimeProgram → ProgramRuntime) : ProgramRuntime × Bool :=
  match rt.program reference with
  | none => (rt, false)
  | some program => if refused program then (rt, false) else (write program, true)

/-- The runtime when an operation returns, and whether it was accepted. -/
def RuntimeOp.call (rt : ProgramRuntime) : RuntimeOp → ProgramRuntime × Bool
  | .admitFront handle targetId dispatchedAt =>
    let (rt, dispatch) := rt.admitFront handle targetId dispatchedAt
    (rt, dispatch.isSome)
  | .completeRequest dispatch usage =>
    rt.checked dispatch.program
      (fun program => program.placementEpoch ≠ dispatch.placementEpoch ∨
        program.inFlightRequests = 0)
      fun program => rt.setProgram (program.completed
        (usage.promptTokens.getD dispatch.estimatedContextTokens)
        (rt.requestPool.programLen program.reference))
  | .cancelRequest handle =>
    match rt.requestPool.cancel handle with
    | none => (rt, false)
    | some (pool, wasFront) =>
      let rt := { rt with requestPool := pool }
      let rt := if wasFront then rt.notifyFront handle.program else rt
      (rt.settleCancelled handle.program, true)
  | .pauseIdle reference =>
    rt.checked reference (fun program => program.state ≠ .active ∨ program.inFlightRequests ≠ 0)
      fun program => rt.setProgram program.off
  | .activate reference targetId =>
    rt.checked reference
      (fun program => program.state ≠ .paused ∨ rt.requestPool.programLen reference = 0)
      fun program =>
        let rt := { rt with nextPlacementEpoch := rt.nextPlacementEpoch + 1 }
        rt.setProgram (program.on targetId rt.nextPlacementEpoch)
  | .releaseIdle reference now =>
    rt.checked reference
      (fun program => program.inFlightRequests ≠ 0 ∨ rt.requestPool.programLen reference ≠ 0)
      fun program =>
        let key := reference.key
        let rt := rt.eraseProgram key
        let rt := { rt with
          lastGenerations := rt.lastGenerations.insert key program.reference.generation }
        { rt with releasedGenerationsAt := rt.releasedGenerationsAt.insert key now }
  | .invalidatePlacement reference removedTargets =>
    rt.checked reference
      (fun program => ¬ program.placement.any (fun target => removedTargets.contains target))
      fun program =>
        let rt := { rt with nextPlacementEpoch := rt.nextPlacementEpoch + 1 }
        rt.setProgram (program.invalidated rt.nextPlacementEpoch)
  -- the other operations cannot be refused
  | op => (rt.perform op, true)

/-! ## The operations that check first -/

section Checked

variable {reference : ProgramRef} {refused : RuntimeProgram → Prop} [DecidablePred refused]
  {write : RuntimeProgram → ProgramRuntime}

lemma checked_eq (hresult : result = match rt.program reference with
      | none => none | some program => if refused program then none else some (write program)) :
    (rt.checked reference refused write).1 = result.getD rt := by
  unfold checked
  rw [hresult]
  cases rt.program reference with
  | none => rfl
  | some =>
    simp only
    split
    · rfl
    · rfl

lemma checked_refused (h : (rt.checked reference refused write).2 = false) :
    (rt.checked reference refused write).1 = rt := by
  unfold checked at h ⊢
  cases hP : rt.program reference with
  | none => rfl
  | some =>
    simp only [hP] at h ⊢
    split at h
    · rename_i hrefused
      rw [if_pos hrefused]
    · cases h

end Checked

/-- The calls leave what `perform` says. -/
lemma call_perform (rt : ProgramRuntime) (op : RuntimeOp) : (op.call rt).1 = rt.perform op := by
  cases op with
  | retainRequest identity tokens text arrivedAt
  | admitFront handle targetId dispatchedAt
  | pruneReleasedGenerations now retention
  | notifyFront => rfl
  | cancelRequest handle =>
    simp only [RuntimeOp.call, perform, cancelRequest]
    cases rt.requestPool.cancel handle with
    | none => rfl
    | some cancelled =>
      obtain ⟨_, wasFront⟩ := cancelled
      cases wasFront with
      | true => rfl
      | false => rfl
  | completeRequest dispatch usage
  | pauseIdle reference
  | activate reference targetId
  | releaseIdle reference now
  | invalidatePlacement => exact checked_eq rfl

/-! ## Refused operations -/

/-- The maps have the same entries, and everything else is the same. -/
structure ProgramRuntime.Same (rt rt' : ProgramRuntime) : Prop where
  programs : ∀ key, rt'.programs.lookup key = rt.programs.lookup key
  lastGenerations : rt'.lastGenerations = rt.lastGenerations
  releasedGenerationsAt : rt'.releasedGenerationsAt = rt.releasedGenerationsAt
  requestPool : rt'.requestPool = rt.requestPool
  nextPlacementEpoch : rt'.nextPlacementEpoch = rt.nextPlacementEpoch

lemma ProgramRuntime.Same.refl : rt.Same rt := ⟨fun _ => rfl, rfl, rfl, rfl, rfl⟩

/-- `admit_front` is asked for a request behind the front one of a Program that it moves
onto the target, or whose placement-start marker is pending there. -/
def RuntimeOp.Disturbs (rt : ProgramRuntime) : RuntimeOp → Prop
  | .admitFront handle targetId _ => ∃ P, rt.program handle.program = some P ∧
      (P.state = .paused ∨ (P.placement = some targetId ∧ P.placementStartRequestPending = true)) ∧
      rt.requestPool.takeFront handle = none
  | _ => False

/-- Consuming the placement-start marker is a change exactly when it is pending. -/
lemma same_started_iff (hP : rt.program handle.program = some P) :
    rt.Same (rt.setProgram P.started) ↔ P.placementStartRequestPending = false := by
  obtain ⟨hlookup, href⟩ := program_eq_some.1 hP
  have hnew : ∀ key, (rt.setProgram P.started).programs.lookup key
      = if key = P.reference.key then some P.started else rt.programs.lookup key :=
    fun key => Dict.lookup_insert_eq _ _ _ _
  constructor
  · intro h
    have hkept := h.programs P.reference.key
    rw [hnew, if_pos rfl, href, hlookup] at hkept
    exact congrArg RuntimeProgram.placementStartRequestPending (Option.some.inj hkept).symm
  intro hfalse
  refine ⟨fun key => ?_, rfl, rfl, rfl, rfl⟩
  rw [hnew]
  split
  · rename_i hkey
    rw [hkey, href, hlookup]
    unfold RuntimeProgram.started
    rw [← hfalse]
  · rfl

lemma dispatchFront_refused
    (h : (rt.dispatchFront P handle targetId startsPlacement dispatchedAt).2 = none) :
    rt.requestPool.takeFront handle = none ∧
      (rt.dispatchFront P handle targetId startsPlacement dispatchedAt).1 = rt := by
  unfold dispatchFront at h ⊢
  cases htake : rt.requestPool.takeFront handle with
  | none => exact ⟨rfl, rfl⟩
  | some =>
    rw [htake] at h
    cases h

lemma admitFront_same_iff (dispatchedAt)
    (hrefused : (rt.admitFront handle targetId dispatchedAt).2 = none) :
    rt.Same (rt.admitFront handle targetId dispatchedAt).1 ↔
      ¬ (RuntimeOp.admitFront handle targetId dispatchedAt).Disturbs rt := by
  unfold admitFront at hrefused ⊢
  unfold RuntimeOp.Disturbs
  cases hP : rt.program handle.program with
  | none =>
    simp only [hP]
    refine iff_of_true .refl ?_
    rintro ⟨_, h, -⟩
    cases h
  | some P =>
    simp only [hP, Option.some.injEq, exists_eq_left'] at hrefused ⊢
    by_cases hother : P.state = .active ∧ P.placement ≠ some targetId
    · simp only [if_pos hother]
      refine iff_of_true .refl ?_
      rintro ⟨hpaused | ⟨hplace, -⟩, -⟩
      · rw [hpaused] at hother
        cases hother.1
      · exact hother.2 hplace
    simp only [if_neg hother] at hrefused ⊢
    -- the placement has been entered, and the handle is not the front request
    obtain ⟨hnone, hstill⟩ := dispatchFront_refused hrefused
    rw [hstill]
    have hfront : rt.requestPool.takeFront handle = none := hnone
    simp only [hfront, and_true]
    unfold enterPlacement
    cases hstate : P.state with
    | paused =>
      refine iff_of_false (fun h => ?_) fun h => h (.inl rfl)
      exact absurd h.nextPlacementEpoch (Nat.succ_ne_self _)
    | active =>
      have hplace : P.placement = some targetId := by
        by_contra hne
        exact hother ⟨hstate, hne⟩
      refine (same_started_iff hP).trans ?_
      simp [hplace]

/-- **A refused operation changes nothing**, unless it is such an admission. -/
theorem refused_unchanged_iff (rt : ProgramRuntime) (op : RuntimeOp)
    (hrefused : (op.call rt).2 = false) : rt.Same (op.call rt).1 ↔ ¬ op.Disturbs rt := by
  have hclean : (op.call rt).1 = rt → ¬ op.Disturbs rt →
      (rt.Same (op.call rt).1 ↔ ¬ op.Disturbs rt) := by
    intro hstill hnot
    rw [hstill]
    exact iff_of_true .refl hnot
  cases op with
  | admitFront handle targetId dispatchedAt =>
    have hnone : (rt.admitFront handle targetId dispatchedAt).2.isSome = false := hrefused
    exact admitFront_same_iff dispatchedAt
      (Option.not_isSome_iff_eq_none.1 (Bool.eq_false_iff.1 hnone))
  | retainRequest identity estimatedContextTokens routingText arrivedAt
  | pruneReleasedGenerations now retention
  | notifyFront => cases hrefused
  | cancelRequest handle =>
    refine hclean ?_ id
    simp only [RuntimeOp.call] at hrefused ⊢
    cases hcancel : rt.requestPool.cancel handle with
    | none => rfl
    | some =>
      rw [hcancel] at hrefused
      cases hrefused
  | completeRequest dispatch usage
  | pauseIdle reference
  | activate reference targetId
  | releaseIdle reference now
  | invalidatePlacement => exact hclean (checked_refused hrefused) id

/-- Two requests of one Program wait. -/
def waitingPair : ProgramRuntime := runtimeAfter
  [.retainRequest ⟨"m", "p", "p", "p", true, .default⟩ 10 none 1,
    .retainRequest ⟨"m", "p", "p", "p", true, .default⟩ 10 none 2]

theorem refused_unchanged_iff_idle :
    ((RuntimeOp.pauseIdle ⟨"m", "p", 0⟩).call waitingPair).2 = false ∧
      waitingPair.Same ((RuntimeOp.pauseIdle ⟨"m", "p", 0⟩).call waitingPair).1 := by
  have hrefused : ((RuntimeOp.pauseIdle ⟨"m", "p", 0⟩).call waitingPair).2 = false := by
    decide +kernel
  exact ⟨hrefused, (refused_unchanged_iff waitingPair (.pauseIdle ⟨"m", "p", 0⟩) hrefused).2 id⟩

/-- The second request is refused, and the Program is active on a new placement. -/
theorem refused_admission_activates : let admission := RuntimeOp.admitFront ⟨⟨"m", "p", 0⟩, 2⟩ "a" 3
    (admission.call waitingPair).2 = false ∧
      (waitingPair.program ⟨"m", "p", 0⟩).map (fun P => (P.state, P.placement)) = some
        (.paused, none) ∧
      ((admission.call waitingPair).1.program ⟨"m", "p", 0⟩).map (fun P => (P.state, P.placement))
        = some (.active, some "a") ∧
      waitingPair.nextPlacementEpoch = 0 ∧ (admission.call waitingPair).1.nextPlacementEpoch =
        1 := by
  decide +kernel

end VllmRouter.ProgramScheduling
