import Mathlib.Data.Rat.Floor

/-!
# The token bucket

The bucket behind the router's limiter: it starts full, is refilled for the time
that has passed whenever it is asked, and takes tokens back. Amounts and times are
rationals, times in seconds; a clock that went back counts as one that stood still.
-/

namespace VllmRouter

open List

structure TokenBucket where
  capacity : ℚ
  /-- Tokens per second. -/
  refillRate : ℚ
  tokens : ℚ
  lastRefill : ℚ
  deriving DecidableEq, Repr

namespace TokenBucket

/-- A full bucket; a rate of zero is replaced by one token per second. -/
def new (capacity refillRate : Nat) (now : ℚ) : TokenBucket :=
  { capacity := capacity
    refillRate := if 0 < refillRate then refillRate else 1
    tokens := capacity
    lastRefill := now }

variable (b : TokenBucket)

/-- The level after the refill due at `now`. -/
def level (now : ℚ) : ℚ :=
  min (b.tokens + max (now - b.lastRefill) 0 * b.refillRate) b.capacity

def refill (now : ℚ) : TokenBucket :=
  { b with tokens := b.level now, lastRefill := now }

def tryAcquire (amount now : ℚ) : Bool × TokenBucket :=
  let b := b.refill now
  if amount ≤ b.tokens then (true, { b with tokens := b.tokens - amount }) else (false, b)

/-- How long `acquire` waits at most once its first attempt has failed. -/
def waitTime (amount : ℚ) : ℚ :=
  max (max (amount - b.tokens) 0 / b.refillRate) 0

def returnTokens (amount : ℚ) : TokenBucket :=
  { b with tokens := min (b.tokens + amount) b.capacity }

def availableTokens (now : ℚ) : ℚ × TokenBucket :=
  ((b.refill now).tokens, b.refill now)

def secondsUntilAvailable (amount now : ℚ) : ℚ × TokenBucket :=
  let (available, b) := b.availableTokens now
  (max (amount - available) 0 / b.refillRate, b)

/-! ## Levels -/

/-- The level lies between zero and the capacity, and time does not lower it. -/
structure Bounded (b : TokenBucket) : Prop where
  nonneg : 0 ≤ b.tokens
  le_capacity : b.tokens ≤ b.capacity
  rate_nonneg : 0 ≤ b.refillRate

lemma bounded_new (capacity refillRate : Nat) (now : ℚ) :
    (new capacity refillRate now).Bounded := by
  refine ⟨Nat.cast_nonneg _, le_rfl, ?_⟩
  simp only [new]
  split
  · exact Nat.cast_nonneg _
  · exact zero_le_one

lemma level_le_capacity (now : ℚ) : b.level now ≤ b.capacity := min_le_right _ _

lemma Bounded.level_nonneg {b : TokenBucket} (h : b.Bounded) (now : ℚ) : 0 ≤ b.level now := by
  have hadd := mul_nonneg (le_max_right (now - b.lastRefill) 0) h.rate_nonneg
  exact le_min (add_nonneg h.nonneg hadd) (h.nonneg.trans h.le_capacity)

lemma Bounded.refill {b : TokenBucket} (h : b.Bounded) (now : ℚ) : (b.refill now).Bounded :=
  ⟨h.level_nonneg now, b.level_le_capacity now, h.rate_nonneg⟩

/-- A second refill at the same instant adds nothing. -/
@[simp] lemma refill_refill (now : ℚ) : (b.refill now).refill now = b.refill now := by
  simp [TokenBucket.refill, level]

/-- What an attempt does: it refills, and takes the amount exactly if the level covers it. -/
lemma tryAcquire_cases (amount now : ℚ) :
    b.tryAcquire amount now = (false, b.refill now) ∨
    (amount ≤ b.level now ∧ b.tryAcquire amount now =
      (true, { b.refill now with tokens := b.level now - amount })) := by
  by_cases h : amount ≤ b.level now
  · exact .inr ⟨h, by simp [tryAcquire, TokenBucket.refill, h]⟩
  · exact .inl (by simp [tryAcquire, TokenBucket.refill, h])

/-! ## Conservation -/

inductive Call
  | tryAcquire (amount : ℚ)
  | returnTokens (amount : ℚ)
  | availableTokens
  deriving DecidableEq, Repr

def Call.amount : Call → ℚ
  | .tryAcquire amount | .returnTokens amount => amount
  | .availableTokens => 0

def Call.returned : Call → ℚ
  | .returnTokens amount => amount
  | .tryAcquire _ | .availableTokens => 0

/-- What a call at `now` grants, and the bucket after it. -/
def perform (now : ℚ) : Call → ℚ × TokenBucket
  | .tryAcquire amount =>
    let (granted, b) := b.tryAcquire amount now
    (if granted then amount else 0, b)
  | .returnTokens amount => (0, b.returnTokens amount)
  | .availableTokens => (0, (b.availableTokens now).2)

/-- What timed calls grant together, and the bucket after them. -/
def run : TokenBucket → List (ℚ × Call) → ℚ × TokenBucket
  | b, [] => (0, b)
  | b, (now, call) :: calls =>
    let (granted, b) := b.perform now call
    let (rest, b) := b.run calls
    (granted + rest, b)

variable {b} {capacity rate : ℚ}

/-- A bucket of this capacity and rate, within its bounds. -/
def Within (capacity rate : ℚ) (b : TokenBucket) : Prop :=
  b.Bounded ∧ b.capacity = capacity ∧ b.refillRate = rate

lemma Bounded.level_le_add (h : b.Bounded) {start now : ℚ} (hle : start ≤ now) :
    b.level now ≤ b.level start + b.refillRate * (now - start) := by
  have hgain := mul_nonneg h.rate_nonneg (sub_nonneg.2 hle)
  have hmax : max (now - b.lastRefill) 0 ≤ max (start - b.lastRefill) 0 + (now - start) :=
    max_le (by linarith [le_max_left (start - b.lastRefill) 0])
      (by linarith [le_max_right (start - b.lastRefill) 0])
  have hmul := mul_le_mul_of_nonneg_right hmax h.rate_nonneg
  rw [level, level, ← min_add_add_right]
  exact min_le_min (by linarith) (by linarith)

/-- What a call grants comes out of the level, which only a return raises. -/
lemma Within.perform (h : Within capacity rate b) (now : ℚ) (call) (hamount : 0 ≤ call.amount) :
    Within capacity rate (b.perform now call).2 ∧
      (b.perform now call).1 + (b.perform now call).2.level now ≤ b.level now + call.returned := by
  obtain ⟨hb, rfl, rfl⟩ := h
  have hrefill : (b.refill now).level now = b.level now := by simp [level, refill]
  cases call with
  | availableTokens =>
    exact ⟨⟨hb.refill now, rfl, rfl⟩, by simp [TokenBucket.perform, availableTokens, hrefill,
      Call.returned]⟩
  | returnTokens amount =>
    have hcapacity : 0 ≤ b.capacity := hb.nonneg.trans hb.le_capacity
    refine ⟨⟨⟨le_min (add_nonneg hb.nonneg hamount) hcapacity, min_le_right _ _, hb.rate_nonneg⟩,
      rfl, rfl⟩, ?_⟩
    simp only [TokenBucket.perform, returnTokens, level, Call.returned, zero_add]
    rw [← min_add_add_right (b.tokens + max (now - b.lastRefill) 0 * b.refillRate)]
    refine le_min ((min_le_left _ _).trans ?_) (le_add_of_le_of_nonneg (min_le_right _ _) hamount)
    linarith [min_le_left (b.tokens + amount) b.capacity]
  | tryAcquire amount =>
    simp only [TokenBucket.perform, Call.returned]
    rcases b.tryAcquire_cases amount now with htry | ⟨hle, htry⟩
    · rw [htry]
      exact ⟨⟨hb.refill now, rfl, rfl⟩, by simp [hrefill]⟩
    rw [htry]
    refine ⟨⟨⟨sub_nonneg.2 hle, ?_, hb.rate_nonneg⟩, rfl, rfl⟩, ?_⟩
    · exact (sub_le_self _ hamount).trans (b.level_le_capacity now)
    have hlevel := min_le_left (b.level now - amount) b.capacity
    simp only [level, refill, sub_self, max_self, zero_mul, add_zero] at hlevel ⊢
    exact (add_le_add_right hlevel amount).trans_eq (add_sub_cancel amount _)

/-- Within an interval, grants come out of the level at its start, the refill of the interval
and what is returned. -/
lemma Within.run (h : Within capacity rate b) (calls)
    (hamount : ∀ call ∈ calls, 0 ≤ call.2.amount) : Within capacity rate (b.run calls).2 ∧
      ∀ start finish, start ≤ finish → calls.Pairwise (fun c d => c.1 ≤ d.1) →
        (∀ call ∈ calls, start ≤ call.1 ∧ call.1 ≤ finish) →
        (b.run calls).1 ≤ b.level start + rate * (finish - start) +
          (calls.map fun call => call.2.returned).sum := by
  induction calls generalizing b with
  | nil =>
    refine ⟨h, fun start _ hle _ _ => ?_⟩
    obtain ⟨hb, -, rfl⟩ := h
    have hgain := mul_nonneg hb.rate_nonneg (sub_nonneg.2 hle)
    simpa [TokenBucket.run] using add_nonneg (hb.level_nonneg start) hgain
  | cons call calls ih =>
    obtain ⟨hnext, hgrant⟩ := h.perform call.1 call.2 (hamount call mem_cons_self)
    obtain ⟨hlast, hrest⟩ := ih hnext fun c hc => hamount c (mem_cons_of_mem _ hc)
    refine ⟨hlast, fun _ finish _ hclock hwithin => ?_⟩
    obtain ⟨hfirst, hclock⟩ := pairwise_cons.1 hclock
    obtain ⟨hfrom, hto⟩ := hwithin call mem_cons_self
    have hlater := hrest call.1 finish hto hclock
      fun c hc => ⟨hfirst c hc, (hwithin c (mem_cons_of_mem _ hc)).2⟩
    have hwait := h.1.level_le_add hfrom
    rw [h.2.2] at hwait
    rw [map_cons, sum_cons]
    change (b.perform call.1 call.2).1 + ((b.perform call.1 call.2).2.run calls).1 ≤ _
    linarith

/-- The level lies between zero and the capacity, and the calls within an interval are
granted at most the capacity, the refill of the interval and what they return. -/
theorem grants_conserved (capacity refillRate : Nat) (created start finish : ℚ)
    (before during : List (ℚ × Call)) (hamount : ∀ call ∈ before ++ during, 0 ≤ call.2.amount)
    (hle : start ≤ finish) (hclock : during.Pairwise fun c d => c.1 ≤ d.1)
    (hwithin : ∀ call ∈ during, start ≤ call.1 ∧ call.1 ≤ finish) :
    let b := ((new capacity refillRate created).run before).2
    (0 ≤ b.tokens ∧ b.tokens ≤ capacity) ∧
      (b.run during).1 ≤ capacity + (new capacity refillRate created).refillRate * (finish - start)
        + (during.map fun call => call.2.returned).sum := by
  obtain ⟨hbefore, hduring⟩ := forall_mem_append.1 hamount
  have hnew : Within capacity _ _ := ⟨bounded_new capacity refillRate created, rfl, rfl⟩
  have hb := (hnew.run before hbefore).1
  have hgrant := (hb.run during hduring).2 start finish hle hclock hwithin
  have hlevel : _ ≤ (capacity : ℚ) := (level_le_capacity _ start).trans_eq hb.2.1
  exact ⟨⟨hb.1.nonneg, hb.1.le_capacity.trans_eq hb.2.1⟩, by linarith⟩

theorem grants_conserved_burst :
    ((new 2 1 0).run [(0, .tryAcquire 2), (0, .returnTokens 1), (1, .tryAcquire 2)]).1
      ≤ 2 + 1 * (1 - 0) + 1 := by
  have h := grants_conserved 2 1 0 0 1 []
    [(0, .tryAcquire 2), (0, .returnTokens 1), (1, .tryAcquire 2)]
    (by simp [Call.amount]) (by norm_num) (by simp) (by simp)
  simpa [Call.returned, new, TokenBucket.run] using h.2

/-! ## Waiting -/

/-- **The predicted wait is exact.** After any calls with nonnegative amounts, an amount that fits
the bucket is granted from the moment on that `seconds_until_available` gives, and not before. -/
theorem wait_exact (capacity refillRate : Nat) (created now amount : ℚ) (calls : List (ℚ × Call))
    (hcalls : ∀ call ∈ calls, 0 ≤ call.2.amount) (hfits : amount ≤ capacity) :
    let (wait, b) := ((new capacity refillRate created).run calls).2.secondsUntilAvailable amount now
    ∀ later, now ≤ later → ((b.tryAcquire amount later).1 = true ↔ now + wait ≤ later) := by
  have hnew : Within capacity _ _ := ⟨bounded_new capacity refillRate created, rfl, rfl⟩
  obtain ⟨-, hcapacity, hrate⟩ := (hnew.run calls hcalls).1
  have hpos : 0 < (new capacity refillRate created).refillRate := by
    simp only [new]
    split
    · exact Nat.cast_pos.2 ‹_›
    · exact one_pos
  rw [← hrate] at hpos
  generalize ((new capacity refillRate created).run calls).2 = b at hcapacity hpos
  intro later hle
  have hlevel : (b.refill now).level later
      = min (b.level now + (later - now) * b.refillRate) capacity := by
    rw [← hcapacity, ← max_eq_left (sub_nonneg.2 hle)]
    rfl
  have hgranted : ((b.refill now).tryAcquire amount later).1 = true ↔
      amount ≤ (b.refill now).level later := by
    simp only [tryAcquire]
    split
    · exact ⟨fun _ => ‹_›, fun _ => rfl⟩
    · exact ⟨nofun, fun hcovers => absurd hcovers ‹_›⟩
  rw [hgranted, hlevel, le_min_iff, and_iff_left hfits, ← le_sub_iff_add_le']
  change _ ↔ max (amount - b.level now) 0 / b.refillRate ≤ _
  rw [div_le_iff₀ hpos, max_le_iff, sub_le_iff_le_add']
  exact (and_iff_left (mul_nonneg (sub_nonneg.2 hle) hpos.le)).symm

theorem wait_exact_emptied :
    ((((new 2 1 0).run [(0, .tryAcquire 2)]).2.refill 0).tryAcquire 1 1).1 = true :=
  (wait_exact 2 1 0 0 1 [(0, .tryAcquire 2)] (by simp [Call.amount]) (by norm_num) 1
    zero_le_one).2 (by decide +kernel)

end TokenBucket

end VllmRouter
