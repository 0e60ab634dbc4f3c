import Mathlib.Data.Rat.Floor
import VllmRouter.Lib.Dict
import VllmRouter.Lib.Machine

/-!
# Token estimates (`token_estimator.rs`)

Each model and endpoint has a coefficient, the number of tokens of a byte. The prompt
usage that a backend reports moves it: the new coefficient is the average of the old
one, weighted by the momentum, and the usage, which is kept in a fixed range.
Coefficients are exact rationals and token counts are naturals.
-/

namespace VllmRouter

def defaultTokensPerByte : ℚ := 1 / 4

def minTokensPerByte : ℚ := 1 / 100

def maxTokensPerByte : ℚ := 4

/-- What a coefficient is kept for. -/
structure TokenEstimateScope where
  modelPool : String
  endpoint : String
deriving DecidableEq, Repr

/-- What an estimate hands to the observation that follows it. -/
structure TokenEstimateCalibration where
  scope : TokenEstimateScope
  inputBytes : Nat
deriving DecidableEq, Repr

/-- What `new` asserts of a momentum. -/
abbrev Momentum := { momentum : ℚ // 0 ≤ momentum ∧ momentum < 1 }

structure MomentumTokenEstimator where
  momentum : Momentum
  coefficients : Dict TokenEstimateScope ℚ

namespace MomentumTokenEstimator

def new (momentum : Momentum) : MomentumTokenEstimator := ⟨momentum, ∅⟩

/-- A scope without observations has the default coefficient. -/
def coefficient (e : MomentumTokenEstimator) (scope : TokenEstimateScope) : ℚ :=
  (e.coefficients.lookup scope).getD defaultTokensPerByte

/-- The estimate is rounded up and never zero. -/
def estimate (e : MomentumTokenEstimator) (scope : TokenEstimateScope) (inputText : String) :
    Nat × TokenEstimateCalibration :=
  (max ⌈inputText.utf8ByteSize * e.coefficient scope⌉₊ 1, ⟨scope, inputText.utf8ByteSize⟩)

/-- An observation without bytes or without tokens is ignored. -/
def observe (e : MomentumTokenEstimator) (calibration : TokenEstimateCalibration)
    (actualPromptTokens : Nat) : Option ℚ × MomentumTokenEstimator :=
  if calibration.inputBytes = 0 ∨ actualPromptTokens = 0 then (none, e)
  else
    let observed := max minTokensPerByte
      (min maxTokensPerByte (actualPromptTokens / calibration.inputBytes))
    let updated := e.momentum * e.coefficient calibration.scope + (1 - e.momentum) * observed
    (some updated, { e with coefficients := e.coefficients.insert calibration.scope updated })

inductive Call where
  | estimate (scope : TokenEstimateScope) (inputText : String)
  | observe (calibration : TokenEstimateCalibration) (actualPromptTokens : Nat)

def step (e : MomentumTokenEstimator) : Call → MomentumTokenEstimator
  | .estimate .. => e
  | .observe calibration actualPromptTokens => (e.observe calibration actualPromptTokens).2

/-- Every coefficient is in the range that observations are clamped to. -/
def Calibrated (e : MomentumTokenEstimator) : Prop :=
  ∀ scope, minTokensPerByte ≤ e.coefficient scope ∧ e.coefficient scope ≤ maxTokensPerByte

/-- A weighted average of two coefficients in the range is in the range. -/
lemma average_in_range {m p o lo hi : ℚ} (hm : 0 ≤ m ∧ m < 1) (hp : lo ≤ p ∧ p ≤ hi)
    (ho : lo ≤ o ∧ o ≤ hi) : lo ≤ m * p + (1 - m) * o ∧ m * p + (1 - m) * o ≤ hi := by
  have hm' : 0 ≤ 1 - m := by linarith
  constructor
  · nlinarith [mul_le_mul_of_nonneg_left hp.1 hm.1, mul_le_mul_of_nonneg_left ho.1 hm']
  · nlinarith [mul_le_mul_of_nonneg_left hp.2 hm.1, mul_le_mul_of_nonneg_left ho.2 hm']

/-- An observation replaces a coefficient by an average in the range. -/
lemma Calibrated.step {e : MomentumTokenEstimator} (h : Calibrated e) (call : Call) :
    Calibrated (e.step call) := by
  cases call with
  | estimate => exact h
  | observe calibration actual =>
    change Calibrated (e.observe calibration actual).2
    unfold observe
    split
    · exact h
    intro scope
    simp only [coefficient, Dict.lookup_insert_eq]
    split
    · refine average_in_range e.momentum.2 (h _) ⟨le_max_left .., max_le ?_ (min_le_left ..)⟩
      norm_num [minTokensPerByte, maxTokensPerByte]
    · exact h scope

lemma calibrated_run (momentum : Momentum) (calls : List Call) :
    Calibrated (calls.foldl step (new momentum)) := by
  refine foldl_invariant (I := Calibrated) (fun e call h => h.step call) calls _ fun scope => ?_
  norm_num [coefficient, new, minTokensPerByte, maxTokensPerByte, defaultTokensPerByte]

/-- A call changes no coefficient but that of the scope it observes. -/
lemma eq_scope_of_lookup_ne {e : MomentumTokenEstimator} {call : Call} {scope}
    (h : (e.step call).coefficients.lookup scope ≠ e.coefficients.lookup scope) :
    ∃ calibration actual, call = .observe calibration actual ∧ calibration.scope = scope := by
  cases call with
  | estimate => exact absurd rfl h
  | observe calibration actual =>
    refine ⟨calibration, actual, rfl, ?_⟩
    unfold step observe at h
    grind

/-- The range of the coefficients bounds the estimate of a text. -/
lemma Calibrated.estimate {e : MomentumTokenEstimator} (h : Calibrated e)
    (scope : TokenEstimateScope) {text : String} (htext : text ≠ "") :
    max 1 (minTokensPerByte * text.utf8ByteSize) ≤ (e.estimate scope text).1 ∧
      (e.estimate scope text).1 ≤ ⌈maxTokensPerByte * text.utf8ByteSize⌉₊ := by
  obtain ⟨hlow, hhigh⟩ := h scope
  have hbytes : (1 : ℚ) ≤ text.utf8ByteSize := by
    exact_mod_cast Nat.pos_of_ne_zero (mt String.utf8ByteSize_eq_zero_iff.1 htext)
  have hpos : (0 : ℚ) ≤ text.utf8ByteSize := by linarith
  simp only [MomentumTokenEstimator.estimate, Nat.cast_max, Nat.cast_one]
  refine ⟨max_le (le_max_right ..) (le_max_of_le_left ?_), max_le (Nat.ceil_mono ?_) ?_⟩
  · refine le_trans ?_ (Nat.le_ceil _)
    rw [mul_comm]
    exact mul_le_mul_of_nonneg_left hlow hpos
  · rw [mul_comm]
    exact mul_le_mul_of_nonneg_right hhigh hpos
  · refine Nat.one_le_ceil_iff.2 (mul_pos ?_ (by linarith))
    norm_num [maxTokensPerByte]

/-- **Estimates stay calibrated** over every sequence of calls on a new estimator. -/
theorem estimates_calibrated (momentum : Momentum) (calls : List Call) :
    let e := calls.foldl step (new momentum)
    (∀ scope c, e.coefficients.lookup scope = some c →
      minTokensPerByte ≤ c ∧ c ≤ maxTokensPerByte) ∧
    (∀ call scope, (e.step call).coefficients.lookup scope ≠ e.coefficients.lookup scope →
      ∃ calibration actual, call = .observe calibration actual ∧ calibration.scope = scope) ∧
    ∀ scope (text : String), text ≠ "" →
      max 1 (minTokensPerByte * text.utf8ByteSize) ≤ (e.estimate scope text).1 ∧
        (e.estimate scope text).1 ≤ ⌈maxTokensPerByte * text.utf8ByteSize⌉₊ := by
  have hrun := calibrated_run momentum calls
  refine ⟨fun scope c hc => ?_, fun _ _ h => eq_scope_of_lookup_ne h,
    fun scope _ htext => hrun.estimate scope htext⟩
  have hscope := hrun scope
  rwa [coefficient, hc] at hscope

end MomentumTokenEstimator

end VllmRouter
