import Mathlib.Data.String.Basic

/-!
# Chat replies over gRPC (`backend/grpc.rs`)

A worker answers with a stream of messages, each with some token ids and perhaps
the reason why generation ended. The router decodes the tokens incrementally and
either forwards the texts (`streamOpenai`) or collects them (`collectOpenai`).

- `streamed_reply_agrees`: the two loops report the same text, finish reason and
  token counts, and fail on the same streams.
- `collected_text_complete_iff`: what the decoder still holds at the end is lost
  exactly when the last message has no token ids.

The decoder is third-party code and a parameter. Timeouts, stage timings and the
fields of a chunk that no message determines are left out.
-/

namespace VllmRouter.Backend

open String

inductive FinishReason where
  | length
  | stop
  | aborted
  | unknown
deriving DecidableEq, Repr

def finishReasonName : FinishReason → Option String
  | .length => some "length"
  | .stop => some "stop"
  | .aborted => some "abort"
  | .unknown => none

structure SequenceOutput where
  tokenIds : List UInt32
  text : String
  numTokens : Nat
  finishInfo : Option FinishReason
deriving DecidableEq, Repr

/-- `promptInfo` is the number of prompt tokens, if the message has one. -/
structure GenerateResponse where
  promptInfo : Option Nat
  outputs : Option SequenceOutput
deriving DecidableEq, Repr

namespace GenerateResponse

def tokenIds (msg : GenerateResponse) : List UInt32 :=
  msg.outputs.elim [] SequenceOutput.tokenIds

/-- The known finish reason of a message. -/
def finish (msg : GenerateResponse) : Option String :=
  (msg.outputs.bind SequenceOutput.finishInfo).bind finishReasonName

end GenerateResponse

/-- An incremental decoder with states `σ`. -/
structure IncrementalDecoder (σ : Type) where
  pushToken : σ → UInt32 → Except String σ
  nextChunk : σ → σ × Option String
  flush : σ → Except String (σ × Option String)

variable {σ : Type} (decoder : IncrementalDecoder σ)

def emitDetok (st : σ) : List UInt32 → Except String (σ × String)
  | [] => .ok (st, "")
  | id :: ids =>
    match decoder.pushToken st id with
    | .error error => .error error
    | .ok st =>
      match emitDetok (decoder.nextChunk st).1 ids with
      | .error error => .error error
      | .ok (st', out) => .ok (st', (decoder.nextChunk st).2.getD "" ++ out)

/-- The decoded text of a message's tokens, with the flushed text after it if the
message ends the reply. -/
def decodeOutput (st : σ) (ids : List UInt32) (last : Bool) : Except String (σ × String) :=
  match emitDetok decoder st ids with
  | .error error => .error ("detokenization failed: " ++ error)
  | .ok (st, decoded) =>
    if last then
      match decoder.flush st with
      | .error error => .error ("detokenization flush failed: " ++ error)
      | .ok (st, flushed) => .ok (st, decoded ++ flushed.getD "")
    else .ok (st, decoded)

/-- Flushed text is dropped when the message has no token ids. -/
def outputTextAndFinish (preferWorkerText : Bool) (detok : Option σ) (msg : GenerateResponse) :
    Except String (Option σ × String × Option String) :=
  match msg.outputs with
  | none => .ok (detok, "", none)
  | some outputs =>
    if preferWorkerText then .ok (detok, outputs.text, msg.finish)
    else
      match detok with
      | none => .ok (none, outputs.text, msg.finish)
      | some st =>
        match decodeOutput decoder st outputs.tokenIds msg.finish.isSome with
        | .error error => .error error
        | .ok (st, decoded) =>
          .ok (some st, if outputs.tokenIds.isEmpty then outputs.text else decoded, msg.finish)

/-- The token counts after a message; `completion_tokens` saturates. -/
def countTokens (counts : Nat × Nat) (msg : GenerateResponse) : Nat × Nat :=
  (msg.promptInfo.getD counts.1,
    min (counts.2 + msg.outputs.elim 0 SequenceOutput.numTokens) (2 ^ 32 - 1))

/-! ## The two loops -/

inductive StreamChunk where
  | delta (text : String) (includeRole : Bool) (finishReason : Option String)
  | usage (promptTokens completionTokens : Nat)
  | done
  | error (message : String)
deriving DecidableEq, Repr

variable (preferWorkerText : Bool)

/-- The producer of `stream_openai`, from the next item on. -/
def streamOpenai (includeUsage first : Bool) (detok : Option σ) (counts : Nat × Nat) :
    List (Except String GenerateResponse) → List StreamChunk
  | [] => [.error "gRPC stream closed before finish_info"]
  | .error message :: _ => [.error message]
  | .ok msg :: items =>
    let counts := countTokens counts msg
    match outputTextAndFinish decoder preferWorkerText detok msg with
    | .error error => [.error error]
    | .ok (detok, text, finish) =>
      let sends := text ≠ "" || finish.isSome || first
      (if sends then [.delta text first finish] else []) ++
        if finish.isSome then (if includeUsage then [.usage counts.1 counts.2] else []) ++ [.done]
        else streamOpenai includeUsage (first && !sends) detok counts items

structure CollectedReply where
  text : String
  finish : String
  promptTokens : Nat
  completionTokens : Nat
deriving DecidableEq, Repr

/-- `collect_openai`, from the next item on. -/
def collectOpenai (text : String) (finish : Option String) (detok : Option σ)
    (counts : Nat × Nat) :
    List (Except String GenerateResponse) → Except String CollectedReply
  | [] =>
    match finish with
    | none => .error "gRPC stream closed before finish_info"
    | some reason => .ok ⟨text, reason, counts.1, counts.2⟩
  | .error message :: _ => .error ("grpc stream: " ++ message)
  | .ok msg :: items =>
    match outputTextAndFinish decoder preferWorkerText detok msg with
    | .error error => .error error
    | .ok (detok, delta, reason) =>
      collectOpenai (text ++ delta) (reason.or finish) detok (countTokens counts msg) items

/-! ## Streaming and collecting agree -/

/-- Nothing follows a message with a known finish reason. -/
def EndsWithFinish (items : List (Except String GenerateResponse)) : Prop :=
  ∀ before msg after, items = before ++ .ok msg :: after → msg.finish.isSome → after = []

def streamedText : List StreamChunk → String
  | [] => ""
  | .delta text _ _ :: chunks => text ++ streamedText chunks
  | _ :: chunks => streamedText chunks

def streamedFinish (chunks : List StreamChunk) : Option String :=
  chunks.findSome? fun
    | .delta _ _ finish => finish
    | _ => none

def streamedUsage (chunks : List StreamChunk) : Option (Nat × Nat) :=
  chunks.findSome? fun
    | .usage promptTokens completionTokens => some (promptTokens, completionTokens)
    | _ => none

def streamFailed (chunks : List StreamChunk) : Bool :=
  chunks.any fun
    | .error _ => true
    | _ => false

/-- The chunks tell the same as the collected reply, whose text starts with `text`. -/
def Tells (text : String) (chunks : List StreamChunk) : Except String CollectedReply → Prop
  | .error _ => streamFailed chunks = true
  | .ok reply => streamFailed chunks = false ∧ text ++ streamedText chunks = reply.text ∧
      streamedFinish chunks = some reply.finish ∧
      streamedUsage chunks = some (reply.promptTokens, reply.completionTokens)

variable {decoder preferWorkerText}

lemma outputTextAndFinish_finish
    (h : outputTextAndFinish decoder preferWorkerText detok msg = .ok (detok', text, finish)) :
    finish = msg.finish := by
  unfold outputTextAndFinish at h
  split at h
  · rename_i hnone
    cases h
    simp [GenerateResponse.finish, hnone]
  split at h
  · cases h
    rfl
  split at h
  · cases h
    rfl
  split at h
  · cases h
  · cases h
    rfl

lemma Tells.delta {text delta : String} (h : Tells (text ++ delta) chunks reply) (role : Bool) :
    Tells text (.delta delta role none :: chunks) reply := by
  cases reply with
  | error => simpa [Tells, streamFailed] using h
  | ok =>
    simpa [Tells, streamFailed, streamedText, streamedFinish, streamedUsage, append_assoc]
      using h

lemma stream_tells (items) :
    ∀ text first detok counts, EndsWithFinish items →
      Tells text (streamOpenai decoder preferWorkerText true first detok counts items)
        (collectOpenai decoder preferWorkerText text none detok counts items) := by
  induction items with
  | nil => exact fun _ _ _ _ _ => rfl
  | cons item items ih =>
    intro text first detok counts hends
    cases item with
    | error => rfl
    | ok msg =>
      unfold streamOpenai collectOpenai
      cases hout : outputTextAndFinish decoder preferWorkerText detok msg with
      | error => rfl
      | ok out =>
        obtain ⟨detok', delta, finish⟩ := out
        have hfinish := outputTextAndFinish_finish hout
        cases finish with
        | some =>
          obtain rfl := hends [] msg items rfl (by rw [← hfinish]; rfl)
          simp [collectOpenai, Tells, streamFailed, streamedText, streamedFinish, streamedUsage]
        | none =>
          have hrest := fun first => ih (text ++ delta) first detok' (countTokens counts msg)
            fun before msg' after heq => hends (.ok msg :: before) msg' after (congrArg _ heq)
          simp only [Option.isSome_none, Bool.or_false]
          split
          · exact (hrest _).delta first
          rename_i hsends
          obtain rfl : delta = "" := by_contra fun hne => hsends (by simp [hne])
          simpa using hrest _

/-- **Streaming and collecting agree.** On every stream of messages and errors in
which nothing follows a known finish reason, the streamed deltas, finish reason
and usage are those of the collected reply, and one loop fails if the other does. -/
theorem streamed_reply_agrees {items : List (Except String GenerateResponse)}
    (hends : EndsWithFinish items) (detok : Option σ) (promptTokens : Nat) :
    Tells "" (streamOpenai decoder preferWorkerText true true detok (promptTokens, 0) items)
      (collectOpenai decoder preferWorkerText "" none detok (promptTokens, 0) items) :=
  stream_tells items "" true detok (promptTokens, 0) hends

/-! ## The text of a reply -/

lemma emitDetok_append (ids' ids) :
    ∀ {st} {out}, emitDetok decoder st (ids ++ ids') = .ok (st₁, out) →
      ∃ st' before after, emitDetok decoder st ids = .ok (st', before) ∧
        emitDetok decoder st' ids' = .ok (st₁, after) ∧ out = before ++ after := by
  induction ids with
  | nil => exact fun {st out} h => ⟨st, "", out, rfl, h, by simp⟩
  | cons _ _ ih =>
    intro _ _ h
    simp only [List.cons_append, emitDetok] at h ⊢
    split at h
    · cases h
    split at h
    · cases h
    rename_i hemit
    cases h
    obtain ⟨st', _, after, hbefore, hafter, rfl⟩ := ih hemit
    refine ⟨st', _, after, ?_, hafter, (append_assoc ..).symm⟩
    simp [hbefore]

/-- The decoder's chunks and its flush are the decoding of the pushed tokens. -/
def Decodes (decoder : IncrementalDecoder σ) (st : σ) (decode : List UInt32 → String) : Prop :=
  ∀ ids, ∃ st₁ out st₂ rest, emitDetok decoder st ids = .ok (st₁, out) ∧
    decoder.flush st₁ = .ok (st₂, rest) ∧ out ++ rest.getD "" = decode ids

/-- A message without token ids has no text. -/
def GenerateResponse.Plain (msg : GenerateResponse) : Prop :=
  msg.tokenIds = [] → msg.outputs.elim "" SequenceOutput.text = ""

lemma outputTextAndFinish_plain (hplain : msg.Plain)
    (h : decodeOutput decoder st msg.tokenIds msg.finish.isSome = .ok (st', decoded)) :
    outputTextAndFinish decoder false (some st) msg
      = .ok (some st', if msg.tokenIds = [] then "" else decoded, msg.finish) := by
  unfold GenerateResponse.Plain at hplain
  unfold outputTextAndFinish
  obtain ⟨_, outputs⟩ := msg
  cases outputs with
  | none =>
    cases h
    rfl
  | some outputs =>
    simp only [GenerateResponse.tokenIds, Option.elim_some] at hplain h ⊢
    rw [h]
    by_cases hnil : outputs.tokenIds = []
    · simp [hnil, hplain hnil]
    · simp [hnil]

/-- Before the finish reason arrives, the texts are the decoder's chunks. -/
lemma collect_unfinished (items) (msgs : List GenerateResponse) : ∀ {st st₁} {out} text counts,
      (∀ msg ∈ msgs, msg.finish = none ∧ msg.Plain) →
      emitDetok decoder st (msgs.flatMap GenerateResponse.tokenIds) = .ok (st₁, out) →
      ∃ counts', collectOpenai decoder false text none (some st) counts (msgs.map .ok ++ items)
        = collectOpenai decoder false (text ++ out) none (some st₁) counts' items := by
  induction msgs with
  | nil =>
    intro _ _ _ _ counts _ hemit
    cases hemit
    exact ⟨counts, by simp⟩
  | cons msg _ ih =>
    intro st _ _ text counts hmsgs hemit
    obtain ⟨st', before, _, hmsg, hafter, rfl⟩ := emitDetok_append _ _ hemit
    obtain ⟨hfinish, hplain⟩ := hmsgs msg List.mem_cons_self
    have hout : outputTextAndFinish decoder false (some st) msg = .ok (some st', before, none) := by
      have hdecode : decodeOutput decoder st msg.tokenIds msg.finish.isSome = .ok
        (st', before) := by
        simp [decodeOutput, hmsg, hfinish]
      rw [outputTextAndFinish_plain hplain hdecode, hfinish]
      split
      · rename_i hnil
        rw [hnil] at hmsg
        cases hmsg
        rfl
      · rfl
    obtain ⟨counts', heq⟩ := ih (text ++ before) (countTokens counts msg)
      (fun m hm => hmsgs m (List.mem_cons_of_mem _ hm)) hafter
    refine ⟨counts', ?_⟩
    rw [← append_assoc, ← heq]
    simp [collectOpenai, hout]

/-- **Whether the text is complete.** The reply ends with its first message that has
a known finish reason. Its text is the decoding of all token ids exactly if that
message has token ids or the decoder holds nothing back. -/
theorem collected_text_complete_iff {st : σ} {decode : List UInt32 → String}
    (hdecodes : Decodes decoder st decode) {msgs : List GenerateResponse} {last : GenerateResponse}
    (hmsgs : ∀ msg ∈ msgs, msg.finish = none ∧ msg.Plain) (hlast : last.finish.isSome)
    (hplain : last.Plain) (promptTokens : Nat) : ∃ st₁ out st₂ rest reply,
      emitDetok decoder st ((msgs ++ [last]).flatMap GenerateResponse.tokenIds) = .ok (st₁, out) ∧
      decoder.flush st₁ = .ok (st₂, rest) ∧
      collectOpenai decoder false "" none (some st) (promptTokens, 0) ((msgs ++ [last]).map .ok)
        = .ok reply ∧ (reply.text = decode ((msgs ++ [last]).flatMap GenerateResponse.tokenIds) ↔
        last.tokenIds ≠ [] ∨ rest.getD "" = "") := by
  obtain ⟨st₁, _, st₂, rest, hemit, hflush, hdecode⟩ :=
    hdecodes ((msgs ++ [last]).flatMap GenerateResponse.tokenIds)
  have hsplit := hemit
  rw [List.flatMap_append] at hsplit
  obtain ⟨st', before, after, hbefore, hafter, rfl⟩ := emitDetok_append _ _ hsplit
  rw [List.flatMap_singleton] at hafter
  obtain ⟨counts, hcollect⟩ := collect_unfinished [.ok last] msgs "" (promptTokens, 0) hmsgs hbefore
  obtain ⟨reason, hreason⟩ := Option.isSome_iff_exists.1 hlast
  have hlastText : decodeOutput decoder st' last.tokenIds last.finish.isSome
      = .ok (st₂, after ++ rest.getD "") := by
    simp [decodeOutput, hafter, hlast, hflush]
  have hout := outputTextAndFinish_plain hplain hlastText
  rw [hreason] at hout
  refine ⟨st₁, _, st₂, rest, ⟨before ++ if last.tokenIds = [] then "" else after ++ rest.getD "",
    reason, (countTokens counts last).1, (countTokens counts last).2⟩, hemit, hflush, ?_, ?_⟩
  · rw [List.map_append, List.map_singleton, hcollect]
    simp [collectOpenai, hout]
  rw [← hdecode]
  by_cases hnil : last.tokenIds = []
  · rw [hnil] at hafter
    cases hafter
    simp only [hnil, if_true, ne_eq, not_true_eq_false, false_or, append_empty]
    constructor
    · intro heq
      simpa using congrArg toList heq
    · intro hrest
      rw [hrest, append_empty]
  · simp [hnil, append_assoc]

/-! ## A reply that loses its text -/

/-- A decoder that holds everything back until it is flushed. -/
def holdingDecoder : IncrementalDecoder String where
  pushToken st _ := .ok (st ++ "x")
  nextChunk st := (st, none)
  flush st := .ok ("", some st)

def spell (ids : List UInt32) : String := ids.foldl (fun st _ => st ++ "x") ""

lemma holdingDecoder_decodes : Decodes holdingDecoder "" spell := by
  have hemit : ∀ ids st, emitDetok holdingDecoder st ids
      = .ok (ids.foldl (fun st _ => st ++ "x") st, "") := by
    intro ids
    induction ids with
    | nil => exact fun st => rfl
    | cons _ _ ih =>
      intro st
      have htail := ih (st ++ "x")
      unfold emitDetok
      simp only [holdingDecoder] at htail ⊢
      rw [htail]
      rfl
  exact fun ids => ⟨_, _, _, _, hemit ids "", rfl, by simp [spell]⟩

def tokenMessage (finish : Option FinishReason) : GenerateResponse :=
  ⟨none, some ⟨[7], "", 1, finish⟩⟩

def finishMessage : GenerateResponse := ⟨none, some ⟨[], "", 0, some .stop⟩⟩

/-- The text of the first token is held, so that no chunk is sent for it. -/
theorem streamed_reply_agrees_held :
    Tells "" (streamOpenai holdingDecoder false true true (some "") (3, 0)
        ([tokenMessage none, tokenMessage none, tokenMessage (some .stop)].map .ok))
      (collectOpenai holdingDecoder false "" none (some "") (3, 0)
        ([tokenMessage none, tokenMessage none, tokenMessage (some .stop)].map .ok)) := by
  have hends : EndsWithFinish
      ([tokenMessage none, tokenMessage none, tokenMessage (some .stop)].map .ok) := by
    rintro (_ | ⟨_, _ | ⟨_, _ | ⟨_, _⟩⟩⟩) msg after heq hfinish
    · simp at heq
      simp [← heq.1, tokenMessage, GenerateResponse.finish] at hfinish
    · simp at heq
      simp [← heq.2.1, tokenMessage, GenerateResponse.finish] at hfinish
    · simp at heq
      exact heq.2.2.2
    · simp at heq
  exact streamed_reply_agrees hends (some "") 3

theorem collected_text_complete_tokens : ∃ reply,
    collectOpenai holdingDecoder false "" none (some "") (3, 0)
        ([tokenMessage none, tokenMessage (some .stop)].map .ok) = .ok reply ∧
      reply.text = spell [7, 7] := by
  have hmsgs : ∀ msg ∈ [tokenMessage none], msg.finish = none ∧ msg.Plain := by
    intro _ hmsg
    obtain rfl := List.mem_singleton.1 hmsg
    exact ⟨rfl, fun h => nomatch h⟩
  have hplain : (tokenMessage (some .stop)).Plain := fun h => nomatch h
  obtain ⟨_, _, _, _, reply, -, -, hreply, hiff⟩ :=
    collected_text_complete_iff holdingDecoder_decodes hmsgs rfl hplain 3
  exact ⟨reply, hreply, hiff.2 (.inl (by decide))⟩

/-- The finish reason comes in a message of its own, and the flushed text is dropped. -/
theorem flushed_text_dropped : collectOpenai holdingDecoder false "" none (some "") (3, 0)
        [.ok (tokenMessage none), .ok finishMessage] = .ok ⟨"", "stop", 3, 1⟩ ∧
      spell ((tokenMessage none).tokenIds ++ finishMessage.tokenIds) = "x" := by
  decide +kernel

end VllmRouter.Backend
