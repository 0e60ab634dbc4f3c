import Mathlib.Data.List.Induction

/-!
# Health checks (`core/worker.rs`)

`check_health_async` counts failures and successes in a row and changes the health
of the worker when a count reaches its threshold. The checks of a worker run one
after the other; the outcome of a check is what the request answered. The counters
are naturals: one that could wrap is reset before it is read.
-/

namespace VllmRouter.Core

open List

structure HealthConfig where
  failureThreshold : Nat
  successThreshold : Nat
deriving DecidableEq, Repr

/-- The checks in a row that change the health. -/
def HealthConfig.threshold (config : HealthConfig) (healthy : Bool) : Nat :=
  max (if healthy then config.failureThreshold else config.successThreshold) 1

structure WorkerHealth where
  healthy : Bool
  consecutiveFailures : Nat
  consecutiveSuccesses : Nat
deriving DecidableEq, Repr

namespace WorkerHealth

def new : WorkerHealth := ⟨true, 0, 0⟩

def checkHealth (config : HealthConfig) (w : WorkerHealth) (healthResult : Bool) :
    WorkerHealth × Except String Unit :=
  if healthResult then
    let successes := w.consecutiveSuccesses + 1
    (if ¬ w.healthy ∧ successes ≥ config.successThreshold then ⟨true, 0, 0⟩
      else ⟨w.healthy, 0, successes⟩, .ok ())
  else
    let failures := w.consecutiveFailures + 1
    (if w.healthy ∧ failures ≥ config.failureThreshold then ⟨false, 0, 0⟩
      else ⟨w.healthy, failures, 0⟩,
      .error s!"Health check failed (consecutive failures: {failures})")

def run (config : HealthConfig) (outcomes : List Bool) : WorkerHealth :=
  outcomes.foldl (fun w outcome => (w.checkHealth config outcome).1) new

/-- The checks in a row against the current health. -/
def contrary (w : WorkerHealth) : Nat :=
  if w.healthy then w.consecutiveFailures else w.consecutiveSuccesses

variable {config : HealthConfig}

lemma run_append_singleton (outcomes outcome) :
    run config (outcomes ++ [outcome]) = ((run config outcomes).checkHealth config outcome).1 := by
  simp [run]

/-- One check: the row goes on, is broken, or is complete and changes the health. -/
lemma checkHealth_cases (config : HealthConfig) (w : WorkerHealth) (outcome) :
    let w' := (w.checkHealth config outcome).1
    (w'.healthy = w.healthy ∧ outcome ≠ w.healthy ∧ w'.contrary = w.contrary + 1 ∧
        w'.contrary < config.threshold w.healthy) ∨
      (w'.healthy = w.healthy ∧ outcome = w.healthy ∧ w'.contrary = 0) ∨
      w'.healthy ≠ w.healthy ∧ outcome ≠ w.healthy ∧ w'.contrary = 0 ∧
        config.threshold w.healthy ≤ w.contrary + 1 := by
  obtain ⟨healthy, _, _⟩ := w
  unfold checkHealth HealthConfig.threshold contrary
  cases healthy <;> cases outcome <;> grind

/-- The worker had its present health during all checks of `recent`, the last ones. -/
def Since (config : HealthConfig) (outcomes recent : List Bool) : Prop :=
  ∃ earlier, outcomes = earlier ++ recent ∧
    ∀ k, (run config (earlier ++ recent.take k)).healthy = (run config outcomes).healthy

lemma Since.push (h : Since config outcomes recent)
    (hsame : (run config (outcomes ++ [o])).healthy = (run config outcomes).healthy) :
    Since config (outcomes ++ [o]) (recent ++ [o]) := by
  obtain ⟨earlier, rfl, hhealth⟩ := h
  refine ⟨earlier, append_assoc .., fun k => ?_⟩
  rcases Nat.lt_or_ge recent.length k with hk | hk
  · rw [take_of_length_le (by simp; omega), append_assoc]
  · rw [take_append_of_le_length hk, hhealth, hsame]

/-- What is counted is a row of checks under the present health. -/
lemma exists_contrary (config : HealthConfig) (outcomes) :
    ∃ recent, Since config outcomes recent ∧ recent.length = (run config outcomes).contrary ∧
    (∀ o ∈ recent, o ≠ (run config outcomes).healthy) ∧
    (run config outcomes).contrary < config.threshold (run config outcomes).healthy := by
  have hpos : ∀ h, 0 < config.threshold h := fun h => Nat.le_max_right ..
  have hstart : ∀ outcomes, Since config outcomes [] := fun outcomes => ⟨outcomes, by simp⟩
  induction outcomes using reverseRecOn with
  | nil => exact ⟨[], hstart [], rfl, by simp, hpos _⟩
  | append_singleton outcomes o ih =>
    obtain ⟨recent, hsince, hlen, hall, -⟩ := ih
    have hcases := checkHealth_cases config (run config outcomes) o
    rw [← run_append_singleton] at hcases
    obtain ⟨hsame, ho, hcount, hlt⟩ | ⟨-, -, hzero⟩ | ⟨-, -, hzero, -⟩ := hcases
    · refine ⟨recent ++ [o], hsince.push hsame, by simp [hlen, hcount], fun x hx => ?_, hsame ▸ hlt⟩
      rw [hsame]
      rcases mem_append.1 hx with hx | hx
      · exact hall x hx
      · exact mem_singleton.1 hx ▸ ho
    all_goals exact ⟨[], hstart _, hzero.symm, by simp, hzero ▸ hpos _⟩

/-- A row of checks against the health that did not change it was counted. -/
lemma length_le_contrary (recent : List Bool) : ∀ {outcomes}, Since config outcomes recent →
    (∀ o ∈ recent, o ≠ (run config outcomes).healthy) →
    recent.length ≤ (run config outcomes).contrary := by
  induction recent using reverseRecOn with
  | nil => simp
  | append_singleton recent o ih =>
    rintro - ⟨earlier, rfl, hhealth⟩ hall
    rw [← append_assoc] at hall hhealth ⊢
    have hsame := hhealth recent.length
    rw [take_left] at hsame
    have hle := ih ⟨earlier, rfl, fun k => ?_⟩ fun x hx => hsame ▸ hall x (by simp [hx])
    · have hcases := checkHealth_cases config (run config (earlier ++ recent)) o
      rw [← run_append_singleton] at hcases
      have ho := hall o (by simp)
      grind
    rcases Nat.lt_or_ge recent.length k with hk | hk
    · rw [take_of_length_le (Nat.le_of_lt hk)]
    · rw [hsame, ← hhealth k, take_append_of_le_length hk]

/-- **Exact hysteresis.** A check changes the health of a worker if and only if it
completes a row of as many checks against it as the threshold asks for, during all
of which the worker had this health. -/
theorem health_changes_iff (config : HealthConfig) (outcomes : List Bool) (outcome : Bool) :
    (run config (outcomes ++ [outcome])).healthy ≠ (run config outcomes).healthy ↔
      ∃ recent, Since config outcomes recent ∧
        recent.length + 1 = config.threshold (run config outcomes).healthy ∧
        ∀ o ∈ recent ++ [outcome], o ≠ (run config outcomes).healthy := by
  have hcases := checkHealth_cases config (run config outcomes) outcome
  rw [← run_append_singleton] at hcases
  constructor
  · intro _
    obtain ⟨recent, hsince, _, hall, _⟩ := exists_contrary config outcomes
    refine ⟨recent, hsince, by grind, fun o ho => ?_⟩
    rcases mem_append.1 ho with ho | ho
    · exact hall o ho
    · grind
  rintro ⟨recent, hsince, _, hall⟩
  have hle := length_le_contrary recent hsince fun o ho => hall o (mem_append_left _ ho)
  have hlast := hall outcome (by simp)
  grind

end WorkerHealth

end VllmRouter.Core
