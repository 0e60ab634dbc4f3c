import VllmRouter.ProgramScheduling.Domain

/-!
# Rolling factors and Progress-TTL formulas (`factors.rs`, `policy.rs`)

Recent-workload measurements per rank, and the pure formulas over them. All
amounts are exact rationals; the transcendental functions are the platform's
and stay parameters (`Libm`). An infinite cost is `none`.
-/

namespace VllmRouter.ProgramScheduling

/-! ## Rolling windows -/

/-- One completed request used by capacity, fairness and throughput estimates. -/
structure RequestSample where
  promptTokens : Nat
  completionTokens : Nat
  cachedPromptTokens : Nat
  contextGrowthTokens : Option Nat
  e2eSeconds : Rat
  decodeSeconds : Option Rat
  queueSeconds : Rat
  roundsSinceTtlPause : Nat
  finishedAt : Instant
deriving DecidableEq, Repr

/-- One same-Program interval paired with the prior request's miss impact. -/
structure ContinuitySample where
  intervalSeconds : Rat
  cacheMissImpactSeconds : Rat
deriving DecidableEq, Repr

/-- Fixed-size recent-workload windows of one rank. -/
structure ProgressTtlFactors where
  requests : List RequestSample
  continuities : List ContinuitySample
  ttlPauseRounds : List Nat
deriving DecidableEq, Repr

variable (cfg : ProgressTtlConfig) (f : ProgressTtlFactors)

namespace ProgressTtlFactors

def default : ProgressTtlFactors := ⟨[], [], []⟩

/-- Append a sample and evict the oldest one at `limit`. -/
def pushBounded {α : Type} (window : List α) (sample : α) (limit : Nat) : List α :=
  if limit = 0 then window
  else if window.length = limit then window.tail ++ [sample]
  else window ++ [sample]

def pushRequest (sample : RequestSample) (limit : Nat) : ProgressTtlFactors :=
  { f with requests := pushBounded f.requests sample limit }

def pushContinuity (sample : ContinuitySample) (limit : Nat) : ProgressTtlFactors :=
  { f with continuities := pushBounded f.continuities sample limit }

def pushTtlPauseRounds (rounds limit : Nat) : ProgressTtlFactors :=
  { f with ttlPauseRounds := pushBounded f.ttlPauseRounds rounds limit }

/-- Whether request-derived estimates may replace their cold-start values. -/
def requestWindowComplete (limit : Nat) : Bool :=
  decide (0 < limit ∧ limit ≤ f.requests.length)

/-- Whether interval-derived TTL fitting may replace its cold-start value. -/
def continuityWindowComplete (limit : Nat) : Bool :=
  decide (0 < limit ∧ limit ≤ f.continuities.length)

def optionalAverage (values : List Rat) : Option Rat :=
  if values = [] then none else some (values.sum / values.length)

/-- Mean of the values; zero for none. -/
def average (values : List Rat) : Rat := (optionalAverage values).getD 0

def averageContextGrowthTokens : Rat :=
  average (f.requests.filterMap fun sample => sample.contextGrowthTokens.map fun n => (n : Rat))

def averagePromptTokens : Rat :=
  average (f.requests.map fun sample => (sample.promptTokens : Rat))

def averageCompletionTokens : Rat :=
  average (f.requests.map fun sample => (sample.completionTokens : Rat))

def averageE2eSeconds : Rat :=
  average (f.requests.map RequestSample.e2eSeconds)

/-- Mean non-negative decode duration, when available. -/
def averageDecodeSeconds : Option Rat :=
  optionalAverage ((f.requests.filterMap RequestSample.decodeSeconds).filter fun s =>
    decide (0 ≤ s))

def averageCachedPromptTokens : Rat :=
  average (f.requests.map fun sample => (sample.cachedPromptTokens : Rat))

def averageUncachedPromptTokens : Rat :=
  average (f.requests.map fun sample =>
    ((sample.promptTokens - sample.cachedPromptTokens : Nat) : Rat))

/-- Completion rate between the first and the last sample of the window. -/
def requestThroughputPerSecond : Rat :=
  match f.requests.head?, f.requests.getLast? with
  | some first, some last =>
    if f.requests.length < 2 then 0
    else
      let elapsed := last.finishedAt.saturatingDurationSince first.finishedAt
      if elapsed = 0 then 0
      else ((f.requests.length - 1 : Nat) : Rat) / elapsed.asSecsF64
  | _, _ => 0

def averageRoundsSinceTtlPause : Rat :=
  average (f.requests.map fun sample => (sample.roundsSinceTtlPause : Rat))

end ProgressTtlFactors

/-! ## Policy parameters -/

/-- Offline-calibrated cold-prefill cost model. -/
structure PrefillCostModel where
  interceptSeconds : Rat
  linearSecondsPer1kTokens : Rat
  quadraticSecondsPer1kTokensSquared : Rat
  decodeThroughputAlpha : Rat
deriving DecidableEq, Repr

/-- Offline-calibrated decode throughput surface. -/
structure DecodeThroughputModel where
  fixedStepSeconds : Rat
  batchStepSecondsPerRequest : Rat
  contextStepSecondsPerToken : Rat
deriving DecidableEq, Repr

/-- Progress-TTL parameters that affect rank-local scheduling decisions. -/
structure ProgressTtlConfig where
  tokenCapacity : Option Nat
  decodeBufferTokens : Nat
  maxActingTtl : Duration
  highWatermarkRatio : Rat
  lowWatermarkRatio : Rat
  maxSegmentRounds : Nat
  statsWindowSize : Nat
  enableBatchGainAdmission : Bool
  prefill : PrefillCostModel
  decode : DecodeThroughputModel
deriving DecidableEq, Repr

def PrefillCostModel.default : PrefillCostModel where
  interceptSeconds := 6600061907132926 / 100000000000000000
  linearSecondsPer1kTokens := 5702024012166613 / 100000000000000000
  quadraticSecondsPer1kTokensSquared := 44057347937978475 / 10000000000000000000
  decodeThroughputAlpha := 15 / 100

def DecodeThroughputModel.default : DecodeThroughputModel where
  fixedStepSeconds := 10635218423115973 / 1000000000000000000
  batchStepSecondsPerRequest := 4192803698834784 / 10000000000000000000
  contextStepSecondsPerToken := 1420458414996201 / 10000000000000000000000

def ProgressTtlConfig.default : ProgressTtlConfig where
  tokenCapacity := none
  decodeBufferTokens := 100
  maxActingTtl := Duration.fromSecs 10
  highWatermarkRatio := 1
  lowWatermarkRatio := 1
  maxSegmentRounds := 14
  statsWindowSize := 100
  enableBatchGainAdmission := true
  prefill := .default
  decode := .default

/-- The platform's floating-point functions. -/
structure Libm where
  ln : Rat → Rat
  exp : Rat → Rat
  sqrt : Rat → Rat

namespace ProgressTtlConfig

/-- Cost of recomputing `uncachedPromptTokens`, including decode impact. -/
def cacheMissImpactSeconds (uncachedPromptTokens : Nat) : Rat :=
  if uncachedPromptTokens = 0 then 0
  else
    let x : Rat := uncachedPromptTokens / 1000
    let prefill := cfg.prefill.interceptSeconds + cfg.prefill.linearSecondsPer1kTokens * x
      + cfg.prefill.quadraticSecondsPer1kTokensSquared * x * x
    prefill * (2 - cfg.prefill.decodeThroughputAlpha)

/-- Target cache-continuous rounds used by reserve and fairness estimates. -/
def targetRounds : Rat :=
  if !f.requestWindowComplete cfg.statsWindowSize then 0
  else min (max ((2 * f.averageRoundsSinceTtlPause).ceil : Rat) 1) cfg.maxSegmentRounds

/-- Growth reserve for the candidate plus remaining active Program rounds. -/
def continuousGrowthReserveTokens (activeRemainingRounds : List Rat) : Rat :=
  let rounds := cfg.targetRounds f
  let growth := f.averageContextGrowthTokens
  if rounds ≤ 0 ∨ growth ≤ 0 then 0 else growth * (rounds + activeRemainingRounds.sum)

/-- Predicted aggregate output throughput for one decode batch. -/
def decodeThroughput (batchSize totalContextTokens : Nat) : Rat :=
  batchSize / (cfg.decode.fixedStepSeconds + cfg.decode.batchStepSecondsPerRequest * batchSize
    + cfg.decode.contextStepSecondsPerToken * totalContextTokens)

end ProgressTtlConfig

/-! ## Acting TTL -/

namespace Libm

/-- The source's polynomial approximation of the normal distribution. -/
def normalCdf (m : Libm) (value : Rat) : Rat :=
  let x := value / (14142135623730951 / 10000000000000000)
  let sign : Rat := if x < 0 then -1 else 1
  let x := |x|
  let t := 1 / (1 + 3275911 / 10000000 * x)
  let polynomial := (((((1061405429 / 1000000000 * t - 1453152027 / 1000000000) * t)
    + 1421413741 / 1000000000) * t - 284496736 / 1000000000) * t
    + 254829592 / 1000000000) * t
  let erf := sign * (1 - polynomial * m.exp (-x * x))
  min (max (1 / 2 * (1 + erf)) 0) 1

/-- Expected gain of keeping the cache for `ttl` seconds under a log-normal
fit of the intervals. -/
def ttlUtility (m : Libm) (logMean logSigma impact ttl : Rat) : Rat :=
  if ttl ≤ 0 then 0
  else
    let hitProbability := m.normalCdf ((m.ln ttl - logMean) / logSigma)
    let lognormalMean := m.exp (logMean + logSigma * logSigma / 2)
    let truncatedInterval := lognormalMean
      * m.normalCdf ((m.ln ttl - logMean - logSigma * logSigma) / logSigma)
    impact * hitProbability - truncatedInterval - ttl * (1 - hitProbability)

/-- The last candidate of greatest utility. -/
def bestTtl (utility : Rat → Rat) (candidates : List Rat) : Option (Rat × Rat) :=
  candidates.foldl (fun best ttl =>
    match best with
    | none => some (ttl, utility ttl)
    | some (_, value) => if value ≤ utility ttl then some (ttl, utility ttl) else best) none

end Libm

/-- Fit one request-specific TTL from the mature rank interval window. -/
def ProgressTtlConfig.fittedActingTtl (m : Libm) (f : ProgressTtlFactors)
    (cacheMissImpactSeconds : Rat) : Duration :=
  if !f.continuityWindowComplete cfg.statsWindowSize then 0
  else
    let intervals := (f.continuities.map ContinuitySample.intervalSeconds).filter fun interval =>
      decide (0 < interval)
    if intervals = [] then 0
    else
      let logMean := (intervals.map m.ln).sum / intervals.length
      let logVariance := (intervals.map fun interval => (m.ln interval - logMean) ^ 2).sum
        / intervals.length
      let logSigma := max (m.sqrt logVariance) (1 / 1000000)
      let maxTtl := min cfg.maxActingTtl.asSecsF64 cacheMissImpactSeconds
      if maxTtl ≤ 0 ∨ cacheMissImpactSeconds ≤ 0 then 0
      else
        let minTtl := min (5 / 100) maxTtl
        let grid := if minTtl < maxTtl then
            (List.range 32).map fun index =>
              m.exp (m.ln minTtl + (m.ln maxTtl - m.ln minTtl) * ((index : Rat) / 31))
          else []
        let utility := m.ttlUtility logMean logSigma cacheMissImpactSeconds
        match Libm.bestTtl utility ([0, minTtl, maxTtl] ++ grid) with
        | none => 0
        | some (ttl, value) => if value < 0 then 0 else Duration.fromSecsF64 ttl

/-! ## Batch gain -/

/-- Inputs of the batch-gain decision. -/
structure BatchGainInputs where
  factors : ProgressTtlFactors
  batchSizeBefore : Nat
  totalContextTokensBefore : Nat
  candidateContextTokens : Nat
  usedTokens : Rat
  requiredTokens : Rat
  protectedRemainingRounds : List Rat
  protectedRecoveryCostSeconds : List Rat
  candidateRecoveryCostSeconds : Rat

/-- Breakdown of the batch-gain comparison. -/
structure BatchGainEstimate where
  batchGainSeconds : Rat
  candidateRecoveryCostSeconds : Rat
  continuityLossSeconds : Option Rat
  admits : Bool

namespace ProgressTtlConfig

/-- Recovery cost caused by shortening protected continuous execution. -/
def continuityLossSeconds (input : BatchGainInputs) (capacity : Nat) : Option Rat :=
  let epsilon : Rat := 1 / 2 ^ 52
  let growth := input.factors.averageContextGrowthTokens
  if growth ≤ 0 then some 0
  else
    let totalProtectedRounds := input.protectedRemainingRounds.sum
    let remaining := max (capacity * cfg.lowWatermarkRatio - input.usedTokens) 0
    let before := min totalProtectedRounds (remaining / growth)
    let after := min totalProtectedRounds
      (max (remaining - input.requiredTokens - growth * cfg.targetRounds input.factors) 0
        / growth)
    if 0 < before ∧ after ≤ epsilon then none
    else if input.protectedRecoveryCostSeconds = [] ∨ after ≤ epsilon then some 0
    else some (max (before - after) 0 / after
      * ProgressTtlFactors.average input.protectedRecoveryCostSeconds)

/-- Evaluate the batch-gain bypass. -/
def estimateBatchGain (input : BatchGainInputs) : BatchGainEstimate :=
  let disabled : BatchGainEstimate := ⟨0, input.candidateRecoveryCostSeconds, some 0, false⟩
  match cfg.tokenCapacity with
  | none => disabled
  | some capacity =>
    if !cfg.enableBatchGainAdmission || !input.factors.requestWindowComplete cfg.statsWindowSize
        || decide (input.batchSizeBefore = 0) then disabled
    else
      let throughputBefore :=
        cfg.decodeThroughput input.batchSizeBefore input.totalContextTokensBefore
      let throughputAfter := cfg.decodeThroughput (input.batchSizeBefore + 1)
        (input.totalContextTokensBefore + input.candidateContextTokens)
      if throughputBefore ≤ 0 then disabled
      else
        let relativeBatchGain := max (throughputAfter / throughputBefore - 1) 0
        let averageDecodeSeconds := input.factors.averageDecodeSeconds.getD
          (input.batchSizeBefore * input.factors.averageCompletionTokens / throughputBefore)
        if averageDecodeSeconds ≤ 0 then disabled
        else
          let batchGainSeconds := averageDecodeSeconds * relativeBatchGain
          let loss := cfg.continuityLossSeconds input capacity
          ⟨batchGainSeconds, input.candidateRecoveryCostSeconds, loss,
            loss.any fun loss =>
              decide (input.candidateRecoveryCostSeconds + loss ≤ batchGainSeconds)⟩

end ProgressTtlConfig

end VllmRouter.ProgramScheduling
