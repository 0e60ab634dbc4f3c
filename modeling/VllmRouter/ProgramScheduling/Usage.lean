import VllmRouter.ProgramScheduling.Steps

/-!
# Who is on a target, and with how many tokens

The source scans its Programs in the order of a hash map to count the active ones
on a target and to add up their private tokens. Here the same Programs are a
finite set (`occupants`) and the tokens a sum over it (`load`), so that the order
of the scan is seen to be irrelevant (`length_activeOn`, `targetUsage_eq`) and a
change of one Program moves the count and the sum by that Program alone.
-/

namespace VllmRouter.ProgramScheduling

open RuntimeProgramView ProgramSchedulerState List ProgramRuntime
open ProgramScheduler (activeOn)

variable {sched : ProgramScheduler} {s s' : ProgramSchedulerState}

/-! ## Occupants -/

namespace ProgramSchedulerState

/-- The references of the stored Programs. -/
def liveRefs (s : ProgramSchedulerState) : Finset ProgramRef :=
  (s.runtime.programs.values.map RuntimeProgram.reference).toFinset

/-- The Program is active on the target. -/
def isOn (s : ProgramSchedulerState) (t : TargetId) (r : ProgramRef) : Bool :=
  (s.runtime.program r).any fun P => decide (P.state = .active ∧ P.placement = some t)

/-- The Programs that are active on a target. -/
def occupants (s : ProgramSchedulerState) (t : TargetId) : Finset ProgramRef :=
  s.liveRefs.filter fun r => s.isOn t r = true

/-- The private tokens of a Program. -/
def tokensAt (sched : ProgramScheduler) (s : ProgramSchedulerState) (r : ProgramRef) : Rat :=
  ((s.decisions.lookup r).map sched.tokensOf).getD 0

/-- The private tokens of the active Programs on a target. -/
def load (sched : ProgramScheduler) (s : ProgramSchedulerState) (t : TargetId) : Rat :=
  ∑ r ∈ s.occupants t, s.tokensAt sched r

end ProgramSchedulerState

lemma mem_liveRefs : r ∈ s.liveRefs ↔ ∃ P, s.runtime.program r = some P := by
  unfold liveRefs
  rw [mem_toFinset, mem_map]
  constructor
  · rintro ⟨P, hP, rfl⟩
    obtain ⟨_, hkey⟩ := (Dict.mem_values_iff _ P).1 hP
    exact ⟨P, program_of_lookup hkey⟩
  rintro ⟨P, hP⟩
  obtain ⟨hlookup, href⟩ := program_eq_some.1 hP
  exact ⟨P, (Dict.mem_values_iff _ P).2 ⟨r.key, hlookup⟩, href⟩

lemma isOn_iff {t : TargetId} {r : ProgramRef} : s.isOn t r = true ↔
    ∃ P, s.runtime.program r = some P ∧ P.state = .active ∧ P.placement = some t := by
  unfold isOn
  rw [Option.any_eq_true]
  simp only [decide_eq_true_iff]

lemma mem_occupants {t : TargetId} {r : ProgramRef} : r ∈ s.occupants t ↔
    ∃ P, s.runtime.program r = some P ∧ P.state = .active ∧ P.placement = some t := by
  unfold occupants
  rw [Finset.mem_filter, mem_liveRefs, isOn_iff]
  constructor
  · exact fun h => h.2
  · rintro ⟨P, hP, hon⟩
    exact ⟨⟨P, hP⟩, P, hP, hon⟩

/-! ## The scan of the source -/

variable (env : Env) (s : ProgramSchedulerState) (t : TargetId)

/-- The Programs that the scan finds on a target. -/
lemma map_activeOn : (activeOn env s t).map reference
      = ((s.runtime.iterViews env.programOrder).map reference).filter (s.isOn t) := by
  unfold ProgramScheduler.activeOn
  rw [filter_map]
  refine congrArg (map reference) (filter_congr fun view hview => ?_)
  obtain ⟨P, hP, hviewOf⟩ := mem_iterViews hview
  show _ = (s.runtime.program view.reference).any _
  rw [hP, ← hviewOf]
  rfl

lemma nodup_activeOn : ((activeOn env s t).map reference).Nodup := by
  rw [map_activeOn]
  exact (nodup_iterViews s.runtime env).filter _

lemma toFinset_activeOn : ((activeOn env s t).map reference).toFinset = s.occupants t := by
  ext r
  rw [map_activeOn, mem_toFinset, mem_filter, mem_map, mem_iterViews_iff env,
    mem_occupants, isOn_iff]
  constructor
  · exact fun h => h.2
  · rintro ⟨P, hP, hon⟩
    exact ⟨⟨P, hP⟩, P, hP, hon⟩

/-- The scan counts the occupants, also those that meet a condition. -/
lemma length_filter_activeOn (q : ProgramRef → Bool) :
    ((activeOn env s t).filter fun view => q view.reference).length
      = ((s.occupants t).filter fun r => q r = true).card := by
  rw [← toFinset_activeOn env s t, ← toFinset_filter,
    toFinset_card_of_nodup ((nodup_activeOn env s t).filter _), filter_map, length_map]
  rfl

lemma length_activeOn : (activeOn env s t).length = (s.occupants t).card := by
  rw [← toFinset_activeOn env s t, toFinset_card_of_nodup (nodup_activeOn env s t), length_map]

variable (sched : ProgramScheduler) (env : Env) (s : ProgramSchedulerState) (t : TargetId)

/-- The scan adds up the load. -/
lemma sum_activeOn : ((activeOn env s t).filterMap fun view =>
      (s.decisions.lookup view.reference).map sched.tokensOf).sum = s.load sched t := by
  unfold load
  rw [← toFinset_activeOn env s t, sum_toFinset _ (nodup_activeOn env s t), map_map, sum_filterMap]
  rfl

/-- What a target is taken to use does not depend on the order of the scan. -/
lemma targetUsage_eq (now) : sched.targetUsage env s t now
      = (sched.observedTargetUsage s t now).getD (s.load sched t) := by
  unfold ProgramScheduler.targetUsage
  rw [sum_activeOn]
  cases sched.observedTargetUsage s t now with
  | none => rfl
  | some => rfl

end VllmRouter.ProgramScheduling
