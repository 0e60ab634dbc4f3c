import VllmRouter.Lib.Machine

/-!
# The circuit breaker of a worker

Failures in a row open the breaker, a query after the timeout half-opens it, and
successes in a row close it again. Every operation is logged with the state before and
after it, so that what the breaker counts can be compared with what happened. The
counters are naturals: one that could wrap is reset before it is read.

- The breaker is the automaton of its log (`follows_automaton`).
- The window of the configuration is never read; it is kept only when the failures
  themselves are close together (`opens_within_window`).
-/

namespace VllmRouter.Core

structure CircuitBreakerConfig where
  failureThreshold : Nat
  successThreshold : Nat
  timeoutDuration : Nat
  windowDuration : Nat

inductive CircuitState
  | closed
  | opened
  | halfOpen
  deriving DecidableEq

structure CircuitBreaker where
  config : CircuitBreakerConfig
  state : CircuitState := .closed
  consecutiveFailures : Nat := 0
  consecutiveSuccesses : Nat := 0
  lastStateChange : Nat

namespace CircuitBreaker

variable (b : CircuitBreaker) (now : Nat)

def transitionTo (state : CircuitState) : CircuitBreaker :=
  if b.state = state then b
  else
    { b with
      state := state
      lastStateChange := now
      consecutiveFailures := if state = .opened then b.consecutiveFailures else 0
      consecutiveSuccesses := 0 }

def checkAndUpdateState : CircuitBreaker :=
  if b.state = .opened ∧ b.config.timeoutDuration ≤ now - b.lastStateChange then
    b.transitionTo now .halfOpen
  else b

def canExecute : Bool × CircuitBreaker :=
  let b := b.checkAndUpdateState now
  (decide (b.state ≠ .opened), b)

def recordSuccess : CircuitBreaker :=
  let b := { b with
    consecutiveFailures := 0
    consecutiveSuccesses := b.consecutiveSuccesses + 1 }
  if b.state = .halfOpen ∧ b.config.successThreshold ≤ b.consecutiveSuccesses then
    b.transitionTo now .closed
  else b

def recordFailure : CircuitBreaker :=
  let b := { b with
    consecutiveSuccesses := 0
    consecutiveFailures := b.consecutiveFailures + 1 }
  match b.state with
  | .closed =>
    if b.config.failureThreshold ≤ b.consecutiveFailures then b.transitionTo now .opened else b
  | .halfOpen => b.transitionTo now .opened
  | .opened => b

def reset : CircuitBreaker :=
  { b.transitionTo now .closed with consecutiveFailures := 0, consecutiveSuccesses := 0 }

/-! ## Runs and their log -/

inductive Op
  | query
  | success
  | failure
  | reset
  deriving DecidableEq

/-- An operation, its time and the state before and after it. -/
structure Entry where
  op : Op
  time : Nat
  before : CircuitState
  after : CircuitState
  deriving DecidableEq

inductive Event
  | success
  | failure
  | canExecute
  | testSuccess
  | testFailure
  | reset

/-- A breaker and its log, the newest entry first. -/
structure Logged where
  breaker : CircuitBreaker
  log : List Entry := []

namespace Logged

variable (s : Logged)

def act (op : Op) : Logged :=
  let b := match op with
    | .query => (s.breaker.canExecute now).2
    | .success => s.breaker.recordSuccess now
    | .failure => s.breaker.recordFailure now
    | .reset => s.breaker.reset now
  ⟨b, ⟨op, now, s.breaker.state, b.state⟩ :: s.log⟩

/-- A test outcome asks for the state and counts only when that is half-open. -/
def test (outcome : Op) : Logged :=
  let s := s.act now .query
  if s.breaker.state = .halfOpen then s.act now outcome else s

def step : Nat × Event → Logged
  | (now, .success) => s.act now .success
  | (now, .failure) => s.act now .failure
  | (now, .canExecute) => s.act now .query
  | (now, .testSuccess) => s.test now .success
  | (now, .testFailure) => s.test now .failure
  | (now, .reset) => s.act now .reset

/-- The run of timed events from a new breaker. -/
def run (config : CircuitBreakerConfig) (created : Nat) (events : List (Nat × Event)) : Logged :=
  events.foldl step ⟨{ config := config, lastStateChange := created }, []⟩

end Logged

/-! ## What the log says -/

/-- When a closed breaker failed since its last success or closing; a closing is a success
or a reset. -/
def failuresSince : List Entry → List Nat
  | [] => []
  | e :: older =>
    match e.before, e.op with
    | .closed, .failure => e.time :: failuresSince older
    | .closed, .query => failuresSince older
    | _, _ => []

/-- The successes of a half-open breaker since it became half-open. -/
def successesSince : List Entry → Nat
  | [] => 0
  | e :: older =>
    if e.before = .halfOpen then successesSince older + if e.op = .success then 1 else 0 else 0

/-- When an open breaker was opened. -/
def openedAt : List Entry → Nat
  | [] => 0
  | e :: older => if e.before = .opened then openedAt older else e.time

/-- Every entry has a property of it and of the log before it. -/
def Along (P : List Entry → Entry → Prop) : List Entry → Prop
  | [] => True
  | e :: older => P older e ∧ Along P older

variable (config : CircuitBreakerConfig)

/-- The automaton: the state after an entry, from the log before it. -/
def nextState (older : List Entry) (e : Entry) : CircuitState :=
  match e.before, e.op with
  | .closed, .failure =>
    if (failuresSince older).length + 1 = config.failureThreshold then .opened else .closed
  | .closed, _ => .closed
  | .opened, .query =>
    if config.timeoutDuration ≤ e.time - openedAt older then .halfOpen else .opened
  | .opened, .reset => .closed
  | .opened, _ => .opened
  | .halfOpen, .failure => .opened
  | .halfOpen, .success =>
    if successesSince older + 1 = config.successThreshold then .closed else .halfOpen
  | .halfOpen, .reset => .closed
  | .halfOpen, .query => .halfOpen

def Lawful (older : List Entry) (e : Entry) : Prop := e.after = nextState config older e

/-- What the breaker counts is what the log says, and below the thresholds. -/
def Logged.Counts (s : Logged) : Prop :=
  s.breaker.config = config ∧
  match s.breaker.state with
  | .closed => s.breaker.consecutiveFailures = (failuresSince s.log).length ∧
      (failuresSince s.log).length < config.failureThreshold
  | .opened => s.breaker.lastStateChange = openedAt s.log
  | .halfOpen => s.breaker.consecutiveSuccesses = successesSince s.log ∧
      successesSince s.log < config.successThreshold

def Logged.Follows (s : Logged) : Prop := s.Counts config ∧ Along (Lawful config) s.log

/-- An opening breaker has seen its threshold of failures within the window. -/
def Windowed (older : List Entry) (e : Entry) : Prop :=
  e.before = .closed → e.after = .opened →
    config.failureThreshold ≤ (failuresSince older).length + 1 ∧
      ∀ time ∈ failuresSince older, e.time - time ≤ config.windowDuration

/-- The times of the failures since the last success or reset, the newest event first. -/
def failureTimes : List (Nat × Event) → List Nat
  | [] => []
  | (now, .failure) :: older => now :: failureTimes older
  | (_, .success) :: _ | (_, .reset) :: _ => []
  | _ :: older => failureTimes older

/-- Each failure comes within the window of the failures before it that make up the threshold
with it, if there are so many since the last success or reset. -/
def Spaced : List (Nat × Event) → Prop
  | [] => True
  | (now, event) :: older => Spaced older ∧
    (event = .failure → config.failureThreshold ≤ (failureTimes older).length + 1 →
      ∀ time ∈ (failureTimes older).take (config.failureThreshold - 1),
        now - time ≤ config.windowDuration)

/-- The log agrees with the automaton and the window, and the breaker counts the latest of the
failures. -/
def Logged.Opens (times : List Nat) (s : Logged) : Prop :=
  s.Follows config ∧ Along (Windowed config) s.log ∧ failuresSince s.log <+: times

variable {config} {s : Logged} (hfailure : 1 ≤ config.failureThreshold)
  (hsuccess : 1 ≤ config.successThreshold)

attribute [local simp] Logged.Counts Logged.act nextState failuresSince successesSince openedAt
  transitionTo canExecute checkAndUpdateState recordSuccess recordFailure reset

include hfailure hsuccess

lemma Logged.Counts.act (h : s.Counts config) (op) : (s.act now op).Counts config ∧
    Lawful config s.log ⟨op, now, s.breaker.state, (s.act now op).breaker.state⟩ := by
  unfold Lawful
  obtain ⟨rfl, h⟩ := h
  cases hstate : s.breaker.state with
  | closed =>
    obtain ⟨hcount, hlt⟩ : _ ∧ _ := by simpa only [hstate] using h
    cases op with
    | failure =>
      by_cases hreach : (failuresSince s.log).length + 1 = s.breaker.config.failureThreshold
      · simp [hstate, hcount, hreach]
      have hbelow : ¬s.breaker.config.failureThreshold ≤ (failuresSince s.log).length + 1 := by
        omega
      simp [hstate, hcount, hbelow]
      omega
    | _ => simp [hstate, hcount, hlt, Nat.lt_of_succ_le hfailure]
  | opened =>
    have hsince : s.breaker.lastStateChange = openedAt s.log := by simpa only [hstate] using h
    cases op with
    | query =>
      by_cases hdue : s.breaker.config.timeoutDuration ≤ now - openedAt s.log
      all_goals simp [hstate, hsince, hdue, Nat.lt_of_succ_le hsuccess]
    | _ => simp [hstate, hsince, Nat.lt_of_succ_le hfailure]
  | halfOpen =>
    obtain ⟨hcount, hlt⟩ : _ ∧ _ := by simpa only [hstate] using h
    cases op with
    | success =>
      by_cases hreach : successesSince s.log + 1 = s.breaker.config.successThreshold
      · simp [hstate, hcount, hreach, Nat.lt_of_succ_le hfailure]
      have hbelow : ¬s.breaker.config.successThreshold ≤ successesSince s.log + 1 := by omega
      simp [hstate, hcount, hreach, hbelow]
      omega
    | _ => simp [hstate, hcount, hlt, Nat.lt_of_succ_le hfailure]

lemma Logged.run_follows (created : Nat) (events) :
    (run config created events).Follows config := by
  have hact (now : Nat) (op : Op) (s : Logged) (h : s.Follows config) :
      (s.act now op).Follows config :=
    have hnext := h.1.act now hfailure hsuccess op
    ⟨hnext.1, hnext.2, h.2⟩
  refine foldl_invariant (I := Logged.Follows config) (fun s e h => ?_) events _
    ⟨⟨rfl, rfl, hfailure⟩, trivial⟩
  obtain ⟨now, event⟩ := e
  cases event with
  | failure | success | reset | canExecute => exact hact now _ s h
  | testSuccess | testFailure =>
    simp only [step, test]
    split
    · exact hact now _ _ (hact now _ s h)
    · exact hact now _ s h

omit hfailure hsuccess

/-- Along every run the states are those of the automaton, a closed breaker has seen fewer
failures than the threshold, and requests are refused exactly while an open breaker waits for
its timeout. -/
theorem follows_automaton (hfailure : 1 ≤ config.failureThreshold)
    (hsuccess : 1 ≤ config.successThreshold) (created : Nat) (events : List (Nat × Event)) :
    let s := Logged.run config created events
    Along (Lawful config) s.log ∧
      (s.breaker.state = .closed → (failuresSince s.log).length < config.failureThreshold) ∧
      ∀ now, (s.breaker.canExecute now).1 = false ↔
        s.breaker.state = .opened ∧ now - openedAt s.log < config.timeoutDuration := by
  intro s
  obtain ⟨⟨hconfig, hcounts⟩, hlog⟩ : s.Follows config :=
    Logged.run_follows hfailure hsuccess created events
  refine ⟨hlog, fun hclosed => ?_, fun now => ?_⟩
  · rw [hclosed] at hcounts
    exact hcounts.2
  cases hstate : s.breaker.state with
  | opened =>
    have hsince : s.breaker.lastStateChange = openedAt s.log := by simpa only [hstate] using hcounts
    by_cases hdue : config.timeoutDuration ≤ now - openedAt s.log
    all_goals simp [hstate, hsince, hconfig, hdue]
    omega
  | _ => simp [hstate]

theorem follows_automaton_reopening :
    (Logged.run ⟨1, 1, 30, 60⟩ 0 [(5, .failure), (35, .canExecute), (36, .failure)]).log.map
        Entry.after = [.opened, .halfOpen, .opened] ∧
      Along (Lawful ⟨1, 1, 30, 60⟩)
        (Logged.run ⟨1, 1, 30, 60⟩ 0 [(5, .failure), (35, .canExecute), (36, .failure)]).log :=
  ⟨by decide, (follows_automaton (by decide) (by decide) 0 _).1⟩

/-! ## The window -/

lemma windowed_of_lawful {older : List Entry} {e : Entry} (hlaw : Lawful config older e)
    (hnear : e.before = .closed → e.op = .failure →
      (failuresSince older).length + 1 = config.failureThreshold →
      ∀ time ∈ failuresSince older, e.time - time ≤ config.windowDuration) :
    Windowed config older e := by
  intro hbefore hafter
  have hnext : e.after = _ := hlaw
  cases hop : e.op with
  | failure =>
    have hreach : (failuresSince older).length + 1 = config.failureThreshold := by
      simpa [hafter, hbefore, hop] using hnext
    exact ⟨Nat.le_of_eq hreach.symm, hnear hbefore hop hreach⟩
  | _ => simp [hafter, hbefore, hop] at hnext

include hfailure hsuccess in
lemma Logged.Opens.act (h : s.Opens config times) (op)
    (hnear : s.breaker.state = .closed → op = .failure →
      (failuresSince s.log).length + 1 = config.failureThreshold →
      ∀ time ∈ failuresSince s.log, now - time ≤ config.windowDuration)
    (hcounted : s.breaker.state = .closed → op = .failure ∨ op = .query →
      failuresSince (s.act now op).log <+: times') : (s.act now op).Opens config times' := by
  obtain ⟨⟨hcounts, hlog⟩, hwindowed, -⟩ := h
  obtain ⟨hcounts, hnext⟩ := hcounts.act now hfailure hsuccess op
  refine ⟨⟨hcounts, hnext, hlog⟩, ⟨windowed_of_lawful hnext hnear, hwindowed⟩, ?_⟩
  cases hstate : s.breaker.state with
  | closed =>
    cases op with
    | failure => exact hcounted hstate (.inl rfl)
    | query => exact hcounted hstate (.inr rfl)
    | _ => simp [hstate]
  | _ => simp [hstate]

/-- A breaker opens only on failures within the window when the failure events themselves come
close enough together. -/
theorem opens_within_window (hfailure : 1 ≤ config.failureThreshold)
    (hsuccess : 1 ≤ config.successThreshold) (created : Nat) (events : List (Nat × Event))
    (hspaced : Spaced config events.reverse) :
    Along (Windowed config) (Logged.run config created events).log := by
  suffices hopens : ∀ newest, Spaced config newest →
      (Logged.run config created newest.reverse).Opens config (failureTimes newest) by
    have hrun := (hopens _ hspaced).2.1
    rwa [List.reverse_reverse] at hrun
  intro newest hspaced
  induction newest with
  | nil => exact ⟨⟨⟨rfl, rfl, hfailure⟩, trivial⟩, trivial, List.nil_prefix⟩
  | cons e older ih =>
    obtain ⟨now, event⟩ := e
    have hstep : Logged.run config created ((now, event) :: older).reverse
        = (Logged.run config created older.reverse).step (now, event) := by
      simp [Logged.run]
    rw [hstep]
    have h := ih hspaced.1
    have hquery := h.act now hfailure hsuccess .query nofun
      (fun hclosed _ => by simpa [hclosed] using h.2.2)
    cases event with
    | failure =>
      refine h.act now hfailure hsuccess .failure (fun _ _ hreach => ?_) fun hclosed _ => ?_
      · rw [List.prefix_iff_eq_take.1 h.2.2, ← Nat.add_sub_cancel (failuresSince _).length 1, hreach]
        exact hspaced.2 rfl (Nat.le_trans (Nat.le_of_eq hreach.symm) (Nat.succ_le_succ h.2.2.length_le))
      · simpa [hclosed, failureTimes] using h.2.2
    | success => exact h.act now hfailure hsuccess .success nofun nofun
    | reset => exact h.act now hfailure hsuccess .reset nofun nofun
    | canExecute => exact hquery
    | testSuccess | testFailure =>
      simp only [Logged.step, Logged.test]
      split
      · rename_i hhalf
        exact hquery.act now hfailure hsuccess _ (fun hclosed => nomatch hhalf.symm.trans hclosed)
          fun hclosed => nomatch hhalf.symm.trans hclosed
      · exact hquery

theorem opens_within_window_pair :
    Along (Windowed ⟨2, 1, 30, 60⟩) (Logged.run ⟨2, 1, 30, 60⟩ 0
      [(5, .failure), (7, .success), (500, .failure), (560, .failure)]).log :=
  opens_within_window (by decide) (by decide) 0 _ (by simp [Spaced, failureTimes])

/-- Failures an hour apart open the breaker although its window is a minute. -/
theorem distant_failures_open :
    (Logged.run ⟨2, 1, 30, 60⟩ 0 [(0, .failure), (3600, .failure)]).log.head? =
        some ⟨.failure, 3600, .closed, .opened⟩ ∧ ¬Along (Windowed ⟨2, 1, 30, 60⟩)
        (Logged.run ⟨2, 1, 30, 60⟩ 0 [(0, .failure), (3600, .failure)]).log :=
  ⟨by decide, fun h => absurd (h.1 rfl rfl) (by decide)⟩

end CircuitBreaker

end VllmRouter.Core
