import VllmRouter.Lib.Dict
import VllmRouter.Lib.Machine

/-!
# API keys

`authorize_request` looks a token up in the key cache. On a miss it asks the
validation URLs in turn until one answers 200, writes the verdict to the cache
and answers with it. The calls interleave at every read, reply and write.

A key is let through only after a URL has accepted it. It is refused from the
cache only after every URL has turned it down, as long as no validation call
fails: a failed call counts as a refusal, and its verdict replaces the one that
a faster check of the same key has found.
-/

namespace VllmRouter

open List

/-- How a validation call ends. -/
inductive ValidationReply where
  | status (code : Nat)
  /-- No response arrived: the `Err` of `send`. -/
  | failed
  deriving DecidableEq, Repr

def ValidationReply.turnsDown : ValidationReply → Bool
  | .status code => code ≠ 200
  | .failed => false

/-- The status and the text of a refusal. -/
def authFailure : Nat × String :=
  (401, "You must provide a valid API key. Obtain one from http://helmholtz.cloud")

/-- The token of an `Authorization` header, if it is present and readable. -/
def bearerToken (header : Option String) : Option String :=
  let auth := (header.getD "").toList
  let value := ((auth.drop 7).dropWhile Char.isWhitespace).reverse
  let token := (value.dropWhile Char.isWhitespace).reverse
  if auth.take 7 = "Bearer ".toList ∧ token ≠ [] then some (String.ofList token) else none

/-- Where a call stands. -/
inductive AuthCall where
  /-- Before it reads the cache. -/
  | lookup (token : String)
  /-- In the loop over the URLs, with the replies so far. -/
  | checking (token : String) (replies : List ValidationReply) (validated : Bool)
  /-- Answered, with an error or none; `cached` if the verdict was in the cache. -/
  | answered (token : Option String) (cached : Bool) (error : Option (Nat × String))
  deriving DecidableEq, Repr

/-- A completed check: the token, and the replies in the order of the URLs. -/
abbrev Check := String × List ValidationReply

structure AuthState where
  apiKeyCache : Dict String Bool
  calls : List AuthCall
  checks : List Check

inductive AuthEvent where
  | request (header : Option String)
  /-- A call reads or writes the cache. -/
  | advance (i : Nat)
  /-- The URL that a call has asked replies. -/
  | reply (i : Nat) (r : ValidationReply)
  deriving DecidableEq, Repr

def authorizeRequest (urls : List String) (header : Option String) : AuthCall :=
  if urls = [] then .answered none false none
  else
    match bearerToken header with
    | some token => .lookup token
    | none => .answered none false (some authFailure)

def verdict (valid : Bool) : Option (Nat × String) := if valid then none else some authFailure

@[simp] lemma isNone_verdict (valid) : (verdict valid).isNone = valid := by
  cases valid with
  | true
  | false => rfl

namespace AuthState

def step (urls : List String) (s : AuthState) : AuthEvent → AuthState
  | .request header => { s with calls := s.calls ++ [authorizeRequest urls header] }
  | .advance i =>
    match s.calls[i]? with
    | some (.lookup token) =>
      match s.apiKeyCache.lookup token with
      | some valid =>
        { s with calls := s.calls.set i (.answered (some token) true (verdict valid)) }
      | none => { s with calls := s.calls.set i (.checking token [] false) }
    | some (.checking token replies validated) =>
      if validated ∨ replies.length = urls.length then
        { apiKeyCache := s.apiKeyCache.insert token validated
          calls := s.calls.set i (.answered (some token) false (verdict validated))
          checks := s.checks ++ [(token, replies)] }
      else s
    | _ => s
  | .reply i r =>
    match s.calls[i]? with
    | some (.checking token replies false) =>
      if replies.length < urls.length then
        { s with calls := s.calls.set i (.checking token (replies ++ [r]) (r = .status 200)) }
      else s
    | _ => s

def run (urls : List String) (events : List AuthEvent) : AuthState :=
  events.foldl (step urls) ⟨∅, [], []⟩

/-! ## Verdicts and replies -/

/-- The replies that justify a verdict: a 200, or another answer of every URL. -/
def Justifies (urls : List String) (replies : List ValidationReply) : Bool → Prop
  | true => .status 200 ∈ replies
  | false => replies.length = urls.length ∧ ∀ r ∈ replies, r.turnsDown

/-- A completed check of the token justifies the verdict. -/
def Justified (urls : List String) (checks : List Check) (token : String) (valid : Bool) : Prop :=
  ∃ c ∈ checks, c.1 = token ∧ Justifies urls c.2 valid

/-- A request that is let through, or in a calm run refused from the cache, has a token with a
justified verdict. A check agrees with the replies it has. -/
def Sound (urls : List String) (calm : Prop) (checks : List Check) : AuthCall → Prop
  | .lookup _ => True
  | .checking _ replies true => .status 200 ∈ replies
  | .checking _ replies false => calm → ∀ r ∈ replies, r.turnsDown
  | .answered token cached error => error = none ∨ calm ∧ cached = true →
      ∃ key, token = some key ∧ Justified urls checks key error.isNone

structure Backed (urls : List String) (calm : Prop) (s : AuthState) : Prop where
  cache : ∀ token valid, s.apiKeyCache.lookup token = some valid → valid = true ∨ calm →
    Justified urls s.checks token valid
  calls : ∀ call ∈ s.calls, Sound urls calm s.checks call

section Backed

variable {urls : List String} {s : AuthState} {checks checks' : List Check} {token : String}
  {valid : Bool} {calm : Prop}

lemma sound_answered (h : valid = true ∨ calm → Justified urls checks token valid) (cached) :
    Sound urls calm checks (.answered (some token) cached (verdict valid)) := by
  refine fun hfinal => ⟨token, rfl, ?_⟩
  rw [isNone_verdict]
  refine h (hfinal.imp (fun hnone => ?_) And.left)
  rw [← isNone_verdict valid, hnone]
  rfl

lemma Justified.mono (h : Justified urls checks token valid) (hs : checks ⊆ checks') :
    Justified urls checks' token valid := by
  obtain ⟨c, hc, hjust⟩ := h
  exact ⟨c, hs hc, hjust⟩

lemma Sound.mono (hs : checks ⊆ checks') :
    ∀ {call}, Sound urls calm checks call → Sound urls calm checks' call
  | .lookup _, _ => trivial
  | .checking _ _ true, h => h
  | .checking _ _ false, h => h
  | .answered _ _ _, h => fun hfinal =>
    let ⟨key, htoken, hjust⟩ := h hfinal
    ⟨key, htoken, hjust.mono hs⟩

lemma Backed.setCall (h : Backed urls calm s) (i : Nat) (hcall : Sound urls calm s.checks call) :
    Backed urls calm { s with calls := s.calls.set i call } :=
  ⟨h.cache, forall_mem_set h.calls hcall⟩

/-- A check ends: its verdict goes to the cache. -/
lemma Backed.complete (h : Backed urls calm s) (i) {replies : List ValidationReply}
    (hjust : valid = true ∨ calm → Justifies urls replies valid) :
    Backed urls calm ⟨s.apiKeyCache.insert token valid,
      s.calls.set i (.answered (some token) false (verdict valid)),
      s.checks ++ [(token, replies)]⟩ := by
  have hchecks : s.checks ⊆ s.checks ++ [(token, replies)] := subset_append_left _ _
  have hnew : valid = true ∨ calm → Justified urls (s.checks ++ [(token, replies)]) token valid :=
    fun hvalid => ⟨_, mem_append_right _ mem_cons_self, rfl, hjust hvalid⟩
  constructor
  · intro token' valid' hlookup
    rw [Dict.lookup_insert_eq] at hlookup
    split at hlookup
    · rename_i htoken
      cases hlookup
      rw [htoken]
      exact hnew
    · exact fun hvalid => (h.cache token' valid' hlookup hvalid).mono hchecks
  · exact forall_mem_set (fun call hmem => (h.calls call hmem).mono hchecks)
      (sound_answered hnew false)

/-- **One step**: verdicts stay backed by replies, in a calm run if a reply is not a failure. -/
lemma step_backed (hurls : urls ≠ []) (he : calm → ∀ i, e ≠ .reply i .failed)
    (h : Backed urls calm s) : Backed urls calm (s.step urls e) := by
  cases e with
  | request header =>
    refine ⟨h.cache, forall_mem_append.2 ⟨h.calls, forall_mem_singleton.2 ?_⟩⟩
    unfold authorizeRequest
    rw [if_neg hurls]
    cases bearerToken header with
    | some => trivial
    | none => exact fun hfinal => by simp at hfinal
  | advance i =>
    simp only [step]
    split
    · split
      · rename_i valid hcached
        exact h.setCall i (sound_answered (h.cache _ valid hcached) true)
      · exact h.setCall i fun _ r hr => absurd hr not_mem_nil
    · rename_i validated hi
      split
      · rename_i hend
        have hcall := h.calls _ (mem_of_getElem? hi)
        refine h.complete i ?_
        cases validated with
        | true => exact fun _ => hcall
        | false =>
          exact fun hcalm => ⟨hend.resolve_left Bool.false_ne_true, hcall (hcalm.resolve_left nofun)⟩
      · exact h
    · exact h
  | reply i r =>
    simp only [step]
    split
    · rename_i replies hi
      split
      · refine h.setCall i ?_
        have hbefore : calm → ∀ r ∈ replies, r.turnsDown := h.calls _ (mem_of_getElem? hi)
        by_cases hr : r = .status 200
        · rw [decide_eq_true hr]
          exact mem_append_right _ (mem_singleton.2 hr.symm)
        rw [decide_eq_false hr]
        refine fun hcalm => forall_mem_append.2 ⟨hbefore hcalm, forall_mem_singleton.2 ?_⟩
        cases r with
        | status => exact decide_eq_true fun hcode => hr (congrArg _ hcode)
        | failed => exact absurd rfl (he hcalm i)
      · exact h
    · exact h

/-- **Verdicts are sound.** When validation URLs are configured, every request that is let
through has a token that a URL accepted. When in addition no validation call fails, every
token refused from the cache was turned down by every URL. -/
theorem verdicts_sound (hurls : urls ≠ []) (events : List AuthEvent) :
    ∀ call ∈ (run urls events).calls,
      Sound urls (∀ i, .reply i .failed ∉ events) (run urls events).checks call := by
  have hbacked : Backed urls (∀ i, .reply i .failed ∉ events) (run urls events) := by
    refine foldlRecOn events (step urls) ⟨fun _ _ h => ?_, nofun⟩ fun s h e he => ?_
    · cases h
    · exact step_backed hurls (fun hcalm i heq => hcalm i (heq ▸ he)) h
  exact hbacked.calls

end Backed

/-- One key is accepted and another turned down; both verdicts are used again. -/
def calmEvents : List AuthEvent :=
  [.request (some "Bearer good"), .advance 0, .reply 0 (.status 403), .reply 0 (.status 200),
    .advance 0, .request (some "Bearer bad"), .advance 1, .reply 1 (.status 403),
    .reply 1 (.status 401), .advance 1, .request (some "Bearer good"), .advance 2,
    .request (some "Bearer bad "), .advance 3]

theorem verdicts_sound_calm : (run ["u", "v"] calmEvents).calls
        = [.answered (some "good") false none, .answered (some "bad") false (some authFailure),
          .answered (some "good") true none, .answered (some "bad") true (some authFailure)] ∧
      (∀ i, .reply i .failed ∉ calmEvents) ∧ ∀ call ∈ (run ["u", "v"] calmEvents).calls,
        Sound ["u", "v"] (∀ i, .reply i .failed ∉ calmEvents) (run ["u", "v"] calmEvents).checks
          call :=
  ⟨by decide +kernel, fun i hi => by simp [calmEvents] at hi, verdicts_sound (by decide) _⟩

/-- Two checks of one key; the slower one fails and writes last. -/
def slowFailure : List AuthEvent :=
  [.request (some "Bearer good"), .request (some "Bearer good"), .advance 0, .advance 1,
    .reply 0 (.status 200), .advance 0, .reply 1 .failed, .advance 1,
    .request (some "Bearer good"), .advance 2]

/-- The key is refused from the cache, though the only URL accepted it and never turned it
down. -/
theorem failed_check_locks_out :
    (run ["u"] slowFailure).calls[2]? = some (.answered (some "good") true (some authFailure)) ∧
      (run ["u"] slowFailure).checks = [("good", [.status 200]), ("good", [.failed])] ∧
      ¬ ∀ call ∈ (run ["u"] slowFailure).calls, Sound ["u"] True (run ["u"] slowFailure).checks
        call := by
  have hcall : (run ["u"] slowFailure).calls[2]?
      = some (.answered (some "good") true (some authFailure)) := by decide +kernel
  have hchecks : (run ["u"] slowFailure).checks
      = [("good", [.status 200]), ("good", [.failed])] := by decide +kernel
  refine ⟨hcall, hchecks, fun hsound => ?_⟩
  obtain ⟨_, -, _, hc, -, -, hjust⟩ := hsound _ (mem_of_getElem? hcall) (.inr ⟨trivial, rfl⟩)
  rcases mem_pair.1 hc with rfl | rfl
  · exact absurd (hjust _ mem_cons_self) (by decide)
  · exact absurd (hjust _ mem_cons_self) (by decide)

end AuthState

end VllmRouter
