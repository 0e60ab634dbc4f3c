import Mathlib.Init

/-!
# Retries (`core/retry.rs`)

`RetryExecutor` repeats an operation until its outcome is final or the permitted
attempts are used up. The operation is a stream of outcomes, one per attempt;
what the executor does is kept in a log.

- `executeResponseWithRetry`, `executeWithRetry`: the loop with and without callbacks.
- `retry_accounting`: the log and the answer are determined by the first final
  outcome among the permitted attempts.

The delay of a backoff is random and computed in floating point; it is a
parameter.
-/

namespace VllmRouter.Core

open List

/-- The fields of the configuration that bound the loop; the others only shape
the delay. -/
structure RetryConfig where
  maxRetries : Nat

inductive RetryError where
  | maxRetriesExceeded
deriving DecidableEq, Repr

/-- What the executor does, in order. -/
inductive RetryEvent (D : Type) where
  | attempt (i : Nat)
  | onBackoff (delay : D) (nextAttempt : Nat)
  | onExhausted
deriving DecidableEq, Repr

namespace RetryExecutor

variable {R D T : Type}

/-- The loop from an attempt on: `left` more attempts are permitted after it, so
`is_last` is `left = 0`. The two executors differ in what they do between two
attempts and at the end. -/
def retryLoop (operation : Nat → R) (shouldRetry : R → Nat → Bool)
    (between : Nat → List (RetryEvent D)) (exhausted : List (RetryEvent D)) :
    (left attempt : Nat) → List (RetryEvent D) × R
  | left, attempt =>
    let response := operation attempt
    if !shouldRetry response attempt then ([.attempt attempt], response)
    else
      match left with
      | 0 => (.attempt attempt :: exhausted, response)
      | left + 1 =>
        let (log, answer) := retryLoop operation shouldRetry between exhausted left (attempt + 1)
        (.attempt attempt :: between attempt ++ log, answer)

def executeResponseWithRetry (operation : Nat → R) (shouldRetry : R → Nat → Bool)
    (calculateDelay : Nat → D) (config : RetryConfig) : List (RetryEvent D) × R :=
  retryLoop operation shouldRetry (fun i => [.onBackoff (calculateDelay i) (i + 1)])
    [.onExhausted] (max config.maxRetries 1 - 1) 0

/-- The operation fails with `none`; there are no callbacks. -/
def executeWithRetry (operation : Nat → Option T) (config : RetryConfig) :
    List (RetryEvent D) × Except RetryError T :=
  let (log, last) := retryLoop operation (fun result _ => result.isNone) (fun _ => []) []
    (max config.maxRetries 1 - 1) 0
  (log, match last with
    | some val => .ok val
    | none => .error .maxRetriesExceeded)

/-- The loop ends at the first final outcome or at the last permitted attempt. -/
lemma retryLoop_spec (operation : Nat → R) (shouldRetry : R → Nat → Bool)
    (between : Nat → List (RetryEvent D)) (exhausted) (left : Nat) :
    ∀ attempt, ∃ n ≤ left, (∀ i < n, shouldRetry (operation (attempt + i)) (attempt + i) = true) ∧
      (shouldRetry (operation (attempt + n)) (attempt + n) = true → n = left) ∧
      retryLoop operation shouldRetry between exhausted left attempt
        = ((range' attempt n).flatMap (fun i => .attempt i :: between i) ++
            .attempt (attempt + n) ::
              (if shouldRetry (operation (attempt + n)) (attempt + n) then exhausted else []),
          operation (attempt + n)) := by
  induction left with
  | zero =>
    intro attempt
    refine ⟨0, Nat.le_refl _, nofun, fun _ => rfl, ?_⟩
    unfold retryLoop
    cases h : shouldRetry (operation attempt) attempt with
    | true
    | false => simp [h]
  | succ left ih =>
    intro attempt
    unfold retryLoop
    cases h : shouldRetry (operation attempt) attempt with
    | false => exact ⟨0, Nat.zero_le _, nofun, by simp [h], by simp [h]⟩
    | true =>
      obtain ⟨n, hn, hbefore, hlast, heq⟩ := ih (attempt + 1)
      have hshift : attempt + (n + 1) = attempt + 1 + n := by omega
      rw [← hshift] at hlast heq
      refine ⟨n + 1, Nat.succ_le_succ hn, fun i hi => ?_,
        fun hretry => congrArg Nat.succ (hlast hretry), ?_⟩
      · -- the attempt itself, or one of the rest
        cases i with
        | zero => exact h
        | succ i =>
          have := hbefore i (by omega)
          rwa [Nat.add_assoc, Nat.add_comm 1 i] at this
      · simp [h, heq, range'_succ]

/-- **Retry accounting.** Attempt `n` is the first one whose outcome is final, or
the last permitted one. Its outcome is the answer, a backoff stands between two
attempts, and `on_exhausted` ends the log exactly if the outcome asks for one
more attempt. -/
theorem retry_accounting (config : RetryConfig) (operation : Nat → R) (shouldRetry : R → Nat → Bool)
    (calculateDelay : Nat → D) (result : Nat → Option T) :
    (∃ n < max config.maxRetries 1, (∀ i < n, shouldRetry (operation i) i = true) ∧
      (shouldRetry (operation n) n = true → n + 1 = max config.maxRetries 1) ∧
      executeResponseWithRetry operation shouldRetry calculateDelay config
        = ((range n).flatMap (fun i => [.attempt i, .onBackoff (calculateDelay i) (i + 1)]) ++
            .attempt n :: (if shouldRetry (operation n) n then [.onExhausted] else []),
          operation n)) ∧ ∃ n < max config.maxRetries 1, (∀ i < n, result i = none) ∧
      (result n = none → n + 1 = max config.maxRetries 1) ∧
      executeWithRetry (D := D) result config = ((range (n + 1)).map .attempt,
        match result n with
        | some val => .ok val | none => .error .maxRetriesExceeded) := by
  constructor
  · obtain ⟨n, hn, hbefore, hlast, heq⟩ := retryLoop_spec operation shouldRetry
      (fun i => [.onBackoff (calculateDelay i) (i + 1)]) [.onExhausted]
      (max config.maxRetries 1 - 1) 0
    simp only [Nat.zero_add, ← range_eq_range'] at hbefore hlast heq
    exact ⟨n, by omega, hbefore, fun hretry => by have := hlast hretry; omega, heq⟩
  obtain ⟨n, hn, hbefore, hlast, heq⟩ := retryLoop_spec (D := D) result
    (fun result _ => result.isNone) (fun _ => []) [] (max config.maxRetries 1 - 1) 0
  simp only [Nat.zero_add, ← range_eq_range', Option.isNone_iff_eq_none] at hbefore hlast heq
  refine ⟨n, by omega, hbefore, fun hnone => by have := hlast hnone; omega, ?_⟩
  unfold executeWithRetry
  rw [heq]
  simp [range_succ, map_eq_flatMap]

/-- Two outcomes are retried, the third is final. -/
example : executeResponseWithRetry (fun i => i) (fun r _ => decide (r < 2)) (fun i => 10 * i) ⟨5⟩
    = ([.attempt 0, .onBackoff 0 1, .attempt 1, .onBackoff 10 2, .attempt 2], 2) := by decide

end RetryExecutor

end VllmRouter.Core
