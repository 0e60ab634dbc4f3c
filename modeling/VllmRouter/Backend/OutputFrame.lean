import VllmRouter.Lib.Machine

/-!
# The first frame with model output (`backend/mod.rs`)

The producer of a streamed body publishes the index of its first frame with model
output, and the consumer compares it with the number of frames it has taken. The
load of the request moves to its decode phase when `on_frame` answers true.

A send is three steps (publish, enqueue, count) and a consumed frame two (take it
from the channel, then `on_frame`); they interleave freely. The channel is first
in, first out, and after the receiver closes it every send fails.
-/

namespace VllmRouter.Backend

/-- Where the producer is within `OutputFrameProducer::send`. -/
inductive SendPc where
  | idle
  | enqueue (hasGeneratedOutput : Bool) (next : Nat)
  | count (next : Nat)
deriving DecidableEq, Repr

/-- The shared index, the two ends and the channel. `sent` keeps the flags of all
frames that entered the channel, `answers` what `on_frame` returned. -/
structure OutputFrames where
  firstOutput : Nat := 0
  emitted : Nat := 0
  consumed : Nat := 0
  sending : SendPc := .idle
  channel : List Bool := []
  holding : Bool := false
  closed : Bool := false
  sent : List Bool := []
  answers : List Bool := []
deriving DecidableEq, Repr

inductive FrameStep where
  | send (hasGeneratedOutput : Bool)
  | produce
  | take
  | onFrame
  | close
deriving DecidableEq, Repr

namespace OutputFrames

/-- `send` up to the enqueueing: a zero index is replaced by the next frame's. -/
def publish (s : OutputFrames) (hasGeneratedOutput : Bool) : OutputFrames :=
  let next := s.emitted + 1
  { s with
    firstOutput := if hasGeneratedOutput ∧ s.firstOutput = 0 then next else s.firstOutput
    sending := .enqueue hasGeneratedOutput next }

/-- `OutputFrameConsumer::on_frame`. -/
def onFrame (s : OutputFrames) : OutputFrames :=
  let consumed := s.consumed + 1
  { s with
    consumed := consumed
    holding := false
    answers := s.answers ++ [decide (s.firstOutput ≠ 0 ∧ s.firstOutput ≤ consumed)] }

/-- A step that is not enabled does nothing. -/
def step (s : OutputFrames) : FrameStep → OutputFrames
  | .send hasGeneratedOutput =>
    match s.sending with
    | .idle => s.publish hasGeneratedOutput
    | _ => s
  | .produce =>
    match s.sending with
    | .idle => s
    | .enqueue flag next =>
      if s.closed then { s with sending := .idle }
      else { s with
        channel := s.channel ++ [flag], sent := s.sent ++ [flag], sending := .count next }
    | .count next => { s with emitted := next, sending := .idle }
  | .take =>
    match s.channel, s.holding with
    | _ :: rest, false => { s with channel := rest, holding := true }
    | _, _ => s
  | .onFrame => if s.holding then s.onFrame else s
  | .close => { s with closed := true }

def run (steps : List FrameStep) : OutputFrames := steps.foldl step {}

/-! ## The invariant -/

/-- The one-based index of the first frame with output, zero without one. -/
def firstTrue : List Bool → Nat
  | [] => 0
  | true :: _ => 1
  | false :: flags => if firstTrue flags = 0 then 0 else firstTrue flags + 1

lemma firstTrue_concat (flag : Bool) (flags) : firstTrue (flags ++ [flag])
    = if flag ∧ firstTrue flags = 0 then flags.length + 1 else firstTrue flags := by
  induction flags with
  | nil => cases flag <;> rfl
  | cons b => cases b <;> grind [firstTrue]

lemma firstTrue_left (h : firstTrue (flags ++ tail) = 0) : firstTrue flags = 0 := by
  induction flags with
  | nil => rfl
  | cons b => cases b <;> grind [firstTrue]

lemma firstTrue_le_iff (flags) : ∀ k,
    firstTrue flags ≠ 0 ∧ firstTrue flags ≤ k ↔ true ∈ flags.take k := by
  induction flags with
  | nil => simp [firstTrue]
  | cons b _ ih =>
    intro k
    cases k with
    | zero => simp
    | succ k =>
      have := ih k
      cases b <;> grind [firstTrue]

/-- The frame that is published and not yet enqueued. -/
def pending : SendPc → List Bool
  | .enqueue flag _ => [flag]
  | _ => []

/-- How far the producer's counter is. -/
def Counted (emitted sent : Nat) : SendPc → Prop
  | .idle => emitted = sent
  | .enqueue _ next => emitted = sent ∧ next = sent + 1
  | .count next => next = sent

/-- The index is that of the first output among the frames that entered the channel
and the one being sent. In a closed channel it may be that of a frame that never enters. -/
structure Tracks (s : OutputFrames) : Prop where
  taken : s.consumed + s.holding.toNat + s.channel.length = s.sent.length
  counted : Counted s.emitted s.sent.length s.sending
  first : ∃ tail, s.firstOutput = firstTrue (s.sent ++ tail) ∧
    (s.closed = true ∨ tail = pending s.sending)
  answers : s.answers = (List.range s.consumed).map fun k => decide (true ∈ s.sent.take (k + 1))

variable {s : OutputFrames}

lemma Tracks.publish (h : Tracks s) (hidle : s.sending = .idle) (flag : Bool) :
    Tracks (s.publish flag) := by
  obtain ⟨htaken, hcounted, ⟨tail, hfirst, htail⟩, hans⟩ := h
  rw [hidle] at hcounted htail
  have hemit : s.emitted = s.sent.length := hcounted
  refine ⟨htaken, ⟨hemit, congrArg (· + 1) hemit⟩, ?_, hans⟩
  have hconcat := firstTrue_concat flag s.sent
  rcases htail with hclosed | rfl
  · by_cases hnew : flag = true ∧ s.firstOutput = 0
    · -- the first output of all is lost
      have hnone := firstTrue_left (hfirst.symm.trans hnew.2)
      refine ⟨[flag], Eq.trans ?_ hconcat.symm, .inl hclosed⟩
      rw [if_pos ⟨hnew.1, hnone⟩, ← hemit]
      exact if_pos hnew
    · exact ⟨tail, (if_neg hnew).trans hfirst, .inl hclosed⟩
  refine ⟨[flag], Eq.trans ?_ hconcat.symm, .inr rfl⟩
  simp only [pending, List.append_nil] at hfirst
  rw [← hfirst, ← hemit]
  rfl

/-- The frame enters the channel; answered frames were there before it. -/
lemma Tracks.enqueue (h : Tracks s) (hsend : s.sending = .enqueue flag next)
    (hopen : s.closed = false) : Tracks { s with
      channel := s.channel ++ [flag], sent := s.sent ++ [flag], sending := .count next } := by
  obtain ⟨_, hcounted, ⟨_, hfirst, htail⟩, hans⟩ := h
  rw [hsend] at hcounted htail
  obtain rfl := htail.resolve_left (by simp [hopen])
  refine ⟨by simp; omega, by simpa [Counted] using hcounted.2,
    ⟨[], by simpa [pending] using hfirst, .inr rfl⟩, hans.trans
      (List.map_congr_left fun k hk => ?_)⟩
  have hk := List.mem_range.1 hk
  rw [List.take_append_of_le_length (by omega)]

lemma Tracks.onFrame (h : Tracks s) (hhold : s.holding = true) : Tracks s.onFrame := by
  obtain ⟨htaken, hcounted, ⟨tail, hfirst, htail⟩, hans⟩ := h
  rw [hhold, Bool.toNat_true] at htaken
  refine ⟨by simpa [OutputFrames.onFrame] using htaken, hcounted, ⟨tail, hfirst, htail⟩, ?_⟩
  show s.answers ++ [_] = (List.range (s.consumed + 1)).map fun k =>
    decide (true ∈ s.sent.take (k + 1))
  rw [List.range_succ, List.map_append, ← hans]
  refine congrArg (fun b => s.answers ++ [b]) (decide_eq_decide.2 ?_)
  rw [hfirst, firstTrue_le_iff, List.take_append_of_le_length (by omega)]

lemma Tracks.step (h : Tracks s) (e) : Tracks (s.step e) := by
  have h' := h
  obtain ⟨htaken, hcounted, ⟨tail, hfirst, htail⟩, hans⟩ := h'
  unfold OutputFrames.step
  cases e with
  | send flag =>
    dsimp only
    split
    · exact h.publish (by assumption) flag
    · exact h
  | produce =>
    dsimp only
    split
    · exact h
    · rename_i hsend
      rw [hsend] at hcounted
      split
      · rename_i hclosed
        exact ⟨htaken, hcounted.1, ⟨tail, hfirst, .inl hclosed⟩, hans⟩
      · rename_i hopen
        exact h.enqueue hsend (by simpa using hopen)
    rename_i hsend
    rw [hsend] at hcounted htail
    exact ⟨htaken, hcounted, ⟨tail, hfirst, htail⟩, hans⟩
  | take =>
    dsimp only
    split
    · rename_i hch hhold
      rw [hch, hhold] at htaken
      refine ⟨?_, hcounted, ⟨tail, hfirst, htail⟩, hans⟩
      simp only [List.length_cons, Bool.toNat_true, Bool.toNat_false] at htaken ⊢
      omega
    · exact h
  | onFrame =>
    dsimp only
    split
    · exact h.onFrame (by assumption)
    · exact h
  | close => exact ⟨htaken, hcounted, ⟨tail, hfirst, .inl rfl⟩, hans⟩

/-- The second frame has output and is published before the first one is consumed;
the third is lost. -/
lemma decode_starts_second : (run [.send false, .produce, .produce, .send true, .take, .onFrame, .produce, .close,
    .produce, .send true, .produce, .take, .onFrame]).answers = [false, true] := by decide

end OutputFrames

end VllmRouter.Backend
