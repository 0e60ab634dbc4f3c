import VllmRouter.Lib.Search
import VllmRouter.Tokenizer.ByteLevel

/-!
# Stop sequences (`tokenizer/stop.rs`)

`StopSequenceDecoder` decodes a token stream piece by piece and stops at a stop
token or a stop string. Text that may be the beginning of a stop string is kept in
a jail until more text decides. Positions count characters where the source
counts bytes of whole characters; the one slice that may fall inside a character,
that of the newly decoded text, counts bytes and panics.
-/

namespace VllmRouter

open List Option
open PrefixTree (Text bytes sliceFrom slices_take)

inductive SequenceDecoderOutput where
  | text (s : Text)
  | held
  | stopped
  | stoppedWithText (s : Text)
  deriving DecidableEq, Repr

/-- The text an output carries. -/
def SequenceDecoderOutput.emitted : SequenceDecoderOutput → Text
  | .text s | .stoppedWithText s => s
  | .held | .stopped => []

structure StopSequenceConfig (T : Type) where
  stopTokens : List T
  stopSequences : List Text
  visibleStopTokens : List T
  visibleStopSequences : List Text

/-- The stop strings, hidden ones first. -/
def StopSequenceConfig.sequences {T : Type} (config : StopSequenceConfig T) : List Text :=
  config.stopSequences ++ config.visibleStopSequences

structure StopSequenceDecoder (T : Type) where
  config : StopSequenceConfig T
  /-- Buffer for partial matches. -/
  jailBuffer : Text
  tokenBuffer : List T
  prefixOffset : Nat
  readOffset : Nat
  stopped : Bool
  skipSpecialTokens : Bool

inductive DecodeFault (E : Type) where
  | error (e : E)
  | panic
  deriving DecidableEq, Repr

namespace StopSequenceDecoder

variable {T E : Type} [DecidableEq T] (decode : List T → Bool → Except E Text)

def new (config : StopSequenceConfig T) (skipSpecialTokens : Bool) : StopSequenceDecoder T :=
  { config := config
    jailBuffer := []
    tokenBuffer := []
    prefixOffset := 0
    readOffset := 0
    stopped := false
    skipSpecialTokens := skipSpecialTokens }

/-- The previous context, what has been output already. -/
def prefixText (d : StopSequenceDecoder T) : Except (DecodeFault E) Text :=
  if d.prefixOffset < d.readOffset then
    (decode ((d.tokenBuffer.take d.readOffset).drop d.prefixOffset)
      d.skipSpecialTokens).mapError .error
  else
    pure []

/-- What the full text adds to the context; none while a character is incomplete
or nothing is added. -/
def addedText (prefixText newFullText : Text) : Except (DecodeFault E) (Option Text) :=
  if newFullText.getLast? = some replacementCharacter then
    pure none
  else if (bytes prefixText).length < (bytes newFullText).length then
    match sliceFrom newFullText (bytes prefixText).length with
    | some newText => pure (some newText)
    | none => throw .panic
  else
    pure none

def decodeNew (d : StopSequenceDecoder T) : Except (DecodeFault E) (Option Text) := do
  let prefixText ← d.prefixText decode
  let newFullText ← (decode (d.tokenBuffer.drop d.prefixOffset) d.skipSpecialTokens).mapError .error
  addedText prefixText newFullText

/-- The first stop string, in the order configured, that occurs in the text. -/
def completeMatch (config : StopSequenceConfig T) (checkText : Text) :
    Option SequenceDecoderOutput :=
  match config.stopSequences.findSome? (findSub · checkText) with
  | some pos =>
    let output := checkText.take pos
    some (if output = [] then .stopped else .stoppedWithText output)
  | none =>
    (config.visibleStopSequences.findSome? fun stopSeq =>
      (findSub stopSeq checkText).map (· + stopSeq.length)).map fun endPos =>
        .stoppedWithText (checkText.take endPos)

/-- The suffix of `n` characters. -/
def lastChars (t : Text) (n : Nat) : Text := t.drop (t.length - n)

/-- The longest suffix that begins a stop string; suffixes are tried shortest
first, up to the length of the stop string. -/
def partialMatchLen (sequences : List Text) (checkText : Text) : Nat :=
  (sequences.flatMap fun stopSeq =>
    (((range checkText.length).map (· + 1)).takeWhile fun n =>
      decide ((bytes (lastChars checkText n)).length < (bytes stopSeq).length)).filter fun n =>
        (lastChars checkText n).isPrefixOf stopSeq).foldl max 0

def processToken (d : StopSequenceDecoder T) (tokenId : T) :
    Except (DecodeFault E) (SequenceDecoderOutput × StopSequenceDecoder T) := do
  if d.stopped then
    pure (.stopped, d)
  else if tokenId ∈ d.config.stopTokens then
    pure (if d.jailBuffer = [] then .stopped else .stoppedWithText d.jailBuffer,
      { d with stopped := true, jailBuffer := [] })
  else if tokenId ∈ d.config.visibleStopTokens then
    let stopText ← (decode [tokenId] d.skipSpecialTokens).mapError .error
    pure (.stoppedWithText (d.jailBuffer ++ stopText), { d with stopped := true, jailBuffer := [] })
  else
    let d := { d with tokenBuffer := d.tokenBuffer ++ [tokenId] }
    match ← d.decodeNew decode with
    | none => pure (.held, d)
    | some newText =>
      let checkText := d.jailBuffer ++ newText
      match completeMatch d.config checkText with
      | some output => pure (output, { d with stopped := true, jailBuffer := [] })
      | none =>
        let safeEnd := checkText.length - partialMatchLen d.config.sequences checkText
        let next := { d with
          jailBuffer := checkText.drop safeEnd
          prefixOffset := d.readOffset
          readOffset := d.tokenBuffer.length }
        -- without a partial match everything is output
        if partialMatchLen d.config.sequences checkText > 0 ∧ checkText.take safeEnd = [] then
          pure (.held, next)
        else
          pure (.text (checkText.take safeEnd), next)

def processTokens (d : StopSequenceDecoder T) : List T →
    Except (DecodeFault E) (List SequenceDecoderOutput × StopSequenceDecoder T)
  | [] => pure ([], d)
  | tokenId :: tokenIds => do
    let (output, d) ← d.processToken decode tokenId
    let (outputs, d) ← processTokens d tokenIds
    pure (output :: outputs, d)

def flush (d : StopSequenceDecoder T) : SequenceDecoderOutput × StopSequenceDecoder T :=
  (.text d.jailBuffer, { d with jailBuffer := [] })

/-! ## Partial matches -/

lemma partialMatchLen_le (sequences t) :
    partialMatchLen sequences t ≤ t.length := by
  unfold partialMatchLen
  refine foldlRecOn _ _ (motive := (· ≤ t.length)) (Nat.zero_le _) fun m hm n hn => ?_
  obtain ⟨w, -, hn⟩ := mem_flatMap.1 hn
  obtain ⟨i, hi, rfl⟩ := mem_map.1 ((takeWhile_sublist _).subset (mem_filter.1 hn).1)
  exact max_le hm (mem_range.1 hi)

lemma le_foldl_max {l : List Nat} : ∀ {m n}, n ∈ l ∨ n ≤ m → n ≤ l.foldl max m := by
  induction l with
  | nil => simp
  | cons a l ih =>
    intro m n h
    exact ih (by grind)

/-- A suffix that begins a stop string is shorter than it in bytes, too. -/
lemma bytes_lt_of_prefix (h : s <+: w) (hlt : s.length < w.length) :
    (bytes s).length < (bytes w).length := by
  obtain ⟨rest, rfl⟩ := h
  have := PrefixTree.length_le_bytes rest
  simp only [bytes_append, length_append] at hlt ⊢
  omega

lemma le_partialMatchLen (hw : w ∈ sequences) (hpos : 0 < n) (hle : n ≤ t.length)
    (hlt : n < w.length) (hpre : lastChars t n <+: w) :
    n ≤ partialMatchLen sequences t := by
  have hlen : (lastChars t n).length = n := by
    simp only [lastChars, length_drop]
    omega
  have hbytes := bytes_lt_of_prefix hpre (hlen.symm ▸ hlt)
  refine le_foldl_max (.inl (mem_flatMap.2 ⟨w, hw, mem_filter.2 ⟨?_, by simpa using hpre⟩⟩))
  -- no shorter suffix stops the search before
  obtain ⟨k, hk⟩ := Nat.exists_eq_add_of_le hle
  rw [hk, range_add, map_append, takeWhile_append_of_pos]
  · exact mem_append_left _ (mem_map.2 ⟨n - 1, by simp; omega, by omega⟩)
  intro j hj
  obtain ⟨i, hi, rfl⟩ := mem_map.1 hj
  have hi := mem_range.1 hi
  have hsuf : lastChars t (i + 1) <:+ lastChars t n := by
    refine suffix_of_suffix_length_le (drop_suffix _ t) (drop_suffix _ t) ?_
    simp only [lastChars, length_drop]
    omega
  obtain ⟨_, hrest⟩ := hsuf
  refine decide_eq_true (Nat.lt_of_le_of_lt ?_ hbytes)
  rw [← hrest, bytes_append, length_append]
  omega

/-! ## What a stop string cuts -/

/-- The text cut at the first occurrence of the first stop string, in the order
configured and hidden ones first, that occurs in it. -/
def cut (config : StopSequenceConfig T) (t : Text) : Text :=
  match config.stopSequences.findSome? (findSub · t) with
  | some pos => t.take pos
  | none =>
    match config.visibleStopSequences.findSome? fun w => (findSub w t).map (· + w.length) with
    | some endPos => t.take endPos
    | none => t

/-- The text is whole and a stop string occurs in it. -/
def Stops (config : StopSequenceConfig T) (t : Text) : Prop :=
  t.getLast? ≠ some replacementCharacter ∧ ∃ w ∈ config.sequences, w <:+: t

omit [DecidableEq T] in
lemma completeMatch_eq_none_iff {config : StopSequenceConfig T} :
    completeMatch config t = none ↔ ∀ w ∈ config.sequences, ¬ w <:+: t := by
  have hnone : ∀ w, findSub w t = none ↔ ¬ w <:+: t := fun w => by
    rw [← findSub_isSome_iff, not_isSome_iff_eq_none]
  unfold completeMatch
  cases h : config.stopSequences.findSome? (findSub · t) with
  | some =>
    obtain ⟨w, hw, hpos⟩ := exists_of_findSome?_eq_some h
    have : w <:+: t := findSub_isSome_iff.1 (isSome_of_eq_some hpos)
    simpa using ⟨w, mem_append_left _ hw, this⟩
  | none =>
    have h := findSome?_eq_none_iff.1 h
    simp only [map_eq_none_iff, findSome?_eq_none_iff]
    grind [StopSequenceConfig.sequences]

omit [DecidableEq T] in
/-- A match behind `e` is a match of the whole text when no stop string starts in `e`. -/
lemma emitted_completeMatch {config : StopSequenceConfig T} (h : completeMatch config t = some o)
    (hclear : ∀ w ∈ config.sequences, ∀ i, w <+: (e ++ t).drop i → e.length ≤ i) :
    e ++ o.emitted = cut config (e ++ t) := by
  have hfind : ∀ w ∈ config.sequences, findSub w (e ++ t) = (findSub w t).map (e.length + ·) :=
    fun w hw => findSub_append (hclear w hw)
  have hhidden : config.stopSequences.findSome? (findSub · (e ++ t)) =
      (config.stopSequences.findSome? (findSub · t)).map (e.length + ·) :=
    findSome?_eq_map fun w hw => hfind w (mem_append_left _ hw)
  have hvisible : (config.visibleStopSequences.findSome? fun w =>
      (findSub w (e ++ t)).map (· + w.length)) = (config.visibleStopSequences.findSome? fun w =>
        (findSub w t).map (· + w.length)).map (e.length + ·) := by
    refine findSome?_eq_map fun w hw => ?_
    rw [hfind w (mem_append_right _ hw)]
    simp [Function.comp_def, Nat.add_assoc]
  rw [cut, hhidden, hvisible]
  rw [completeMatch] at h
  cases hpos : config.stopSequences.findSome? (findSub · t) with
  | some pos =>
    rw [hpos] at h
    obtain rfl := some.inj h
    have hemitted : (if t.take pos = [] then SequenceDecoderOutput.stopped
        else .stoppedWithText (t.take pos)).emitted = t.take pos := by
      split <;> simp_all [SequenceDecoderOutput.emitted]
    refine (congrArg (e ++ ·) hemitted).trans ?_
    simp [take_append, take_of_length_le]
  | none =>
    rw [hpos] at h
    obtain ⟨_, hend, rfl⟩ := map_eq_some_iff.1 h
    simp [hend, SequenceDecoderOutput.emitted, take_append, take_of_length_le]

/-! ## Incremental decoding -/

/-- A context and what follows it: the latter, unless its last character is in doubt. -/
lemma addedText_append (last new) : addedText (E := E) last (last ++ new) =
      .ok (if new.getLast? = some replacementCharacter ∨ new = [] then none else some new) := by
  unfold addedText
  by_cases hnil : new = []
  · simp only [hnil, append_nil, lt_irrefl, if_false, or_true, if_true]
    split <;> rfl
  have hslice : sliceFrom (last ++ new) (bytes last).length = some new := by
    simpa using (slices_take (last ++ new) last.length).1
  have hlt : (bytes last).length < (bytes (last ++ new)).length := by
    have := PrefixTree.length_le_bytes new
    have := length_pos_iff.2 hnil
    rw [bytes_append, length_append]
    omega
  rw [getLast?_append_of_ne_nil _ hnil, if_pos hlt, hslice]
  simp only [hnil, or_false]
  split <;> rfl

section Lossy

variable {decode} {skip : Bool} {tokens : List T} (hlossy : Lossy decode skip tokens)
include hlossy

omit [DecidableEq T] in
/-- What the tokens add to the text read is decoded, and withheld exactly while it ends
in U+FFFD, as an incomplete character reads. -/
lemma decodeNew_spec {d : StopSequenceDecoder T} {before read : Text}
    (hskip : d.skipSpecialTokens = skip) (hpre : d.tokenBuffer <+: tokens)
    (hle : d.prefixOffset ≤ d.readOffset)
    (hbefore : decode (d.tokenBuffer.take d.prefixOffset) skip = .ok before)
    (hend : before.getLast? ≠ some replacementCharacter)
    (hread : decode (d.tokenBuffer.take d.readOffset) skip = .ok read)
    (hend' : read.getLast? ≠ some replacementCharacter) :
    ∃ new, decode d.tokenBuffer skip = .ok (read ++ new) ∧ d.decodeNew decode =
      .ok (if new.getLast? = some replacementCharacter ∨ new = [] then none else some new) := by
  subst hskip
  -- the text read last
  have htake : d.tokenBuffer.take d.prefixOffset ++
      (d.tokenBuffer.take d.readOffset).drop d.prefixOffset = d.tokenBuffer.take d.readOffset := by
    rw [← Nat.min_eq_left hle, ← take_take, Nat.min_eq_left hle, take_append_drop]
  obtain ⟨last, hlast, hall⟩ :=
    hlossy.append (htake ▸ ( take_prefix _ _).trans hpre) hbefore hend
  rw [htake, hread] at hall
  obtain rfl := Except.ok.inj hall
  -- all that follows the context, and what is new of it
  obtain ⟨full, hfull, hall⟩ :=
    hlossy.append ((take_append_drop d.prefixOffset d.tokenBuffer).symm ▸ hpre) hbefore hend
  obtain ⟨new, -, hall'⟩ :=
    hlossy.append ((take_append_drop d.readOffset d.tokenBuffer).symm ▸ hpre) hread hend'
  rw [take_append_drop] at hall hall'
  obtain rfl : full = last ++ new := by
    simpa using Except.ok.inj (hall.symm.trans hall')
  have hprefix : d.prefixText decode = .ok last := by
    unfold prefixText
    split
    · rw [hlast]
      rfl
    rw [drop_eq_nil_of_le (by rw [length_take]; omega), hlossy.nil] at hlast
    exact congrArg _ (Except.ok.inj hlast)
  refine ⟨new, hall', ?_⟩
  rw [decodeNew, hprefix, hfull]
  exact addedText_append last new

/-! ## Runs up to the stop -/

omit hlossy in
/-- The decoder after the tokens `ts` and the output `out`, not stopped: what was read is output
or jailed, and it is all text unless the last character is in doubt; no stop string can still
start in the output, and no whole text so far contained one. -/
structure Holding (decode : List T → Bool → Except E Text) (config : StopSequenceConfig T)
    (skip : Bool) (ts : List T) (out : Text) (d : StopSequenceDecoder T) : Prop where
  config_eq : d.config = config
  skip_eq : d.skipSpecialTokens = skip
  running : d.stopped = false
  buffer_eq : d.tokenBuffer = ts
  offset_le : d.prefixOffset ≤ d.readOffset
  read_le : d.readOffset ≤ ts.length
  boundary : ∃ before, decode (ts.take d.prefixOffset) skip = .ok before ∧
    before.getLast? ≠ some replacementCharacter
  read_eq : decode (ts.take d.readOffset) skip = .ok (out ++ d.jailBuffer)
  read_end : (out ++ d.jailBuffer).getLast? ≠ some replacementCharacter
  caught : ∃ s, decode ts skip = .ok s ∧
    (s.getLast? = some replacementCharacter ∨ s = out ++ d.jailBuffer)
  clear : ∀ w ∈ config.sequences, ∀ x i,
    w <+: (out ++ d.jailBuffer ++ x).drop i → out.length ≤ i
  undecided : ∀ n ≤ ts.length, ∀ s, decode (ts.take n) skip = .ok s → ¬ Stops config s

variable {config : StopSequenceConfig T} {ts : List T} {out : Text} {d : StopSequenceDecoder T}

omit [DecidableEq T] hlossy in
/-- Without a complete match, only the jailed suffix can begin a stop string. -/
lemma clear_jail (hclear : ∀ w ∈ config.sequences, ∀ x i,
      w <+: (out ++ check ++ x).drop i → out.length ≤ i)
    (hnone : ∀ w ∈ config.sequences, ¬ w <:+: check)
    (hsafe : safe = check.length - partialMatchLen config.sequences check) :
    ∀ w ∈ config.sequences, ∀ x i, w <+: (out ++ check ++ x).drop i →
      (out ++ check.take safe).length ≤ i := by
  intro w hw x i hocc
  have hi := hclear w hw x i hocc
  obtain ⟨j, rfl⟩ := Nat.exists_eq_add_of_le hi
  rw [append_assoc, drop_length_add_append] at hocc
  have hle := partialMatchLen_le config.sequences check
  suffices hj : safe ≤ j by
    simp only [length_append, length_take]
    omega
  by_contra hj
  rw [drop_append_of_le_length (by omega)] at hocc
  -- either `w` ends inside the checked text or what is there of it begins `w`
  rcases Nat.lt_or_ge (check.drop j).length w.length with hlt | hge
  · have hpre := prefix_of_prefix_length_le (prefix_append _ x) hocc hlt.le
    have hlast : lastChars check (check.length - j) = check.drop j := by
      rw [lastChars, Nat.sub_sub_self (by omega)]
    have := le_partialMatchLen hw (by omega) (Nat.sub_le _ _) (by simpa using hlt) (hlast ▸ hpre)
    omega
  · have hpre := prefix_of_prefix_length_le hocc (prefix_append _ x) hge
    exact hnone w hw (hpre.isInfix.trans (drop_suffix j check).isInfix)

/-- One token: the decoder goes on, or this token completes the first whole text with a
stop string, and the output is that text cut. -/
lemma Holding.step (h : Holding decode config skip ts out d)
    (hpre : ts ++ [t] <+: tokens) (ht : t ∉ config.stopTokens ∧ t ∉ config.visibleStopTokens) :
    ∃ o d', d.processToken decode t = .ok (o, d') ∧
      (Holding decode config skip (ts ++ [t]) (out ++ o.emitted) d' ∨
      ∃ s, decode (ts ++ [t]) skip = .ok s ∧ Stops config s ∧ out ++ o.emitted = cut config s ∧
        d'.stopped = true ∧ d'.jailBuffer = []) := by
  obtain ⟨rfl, rfl, hrunning, rfl, hoffset, hreadLe, ⟨before, hbefore, hend⟩, hread, hreadEnd, -,
    hclear, hund⟩ := h
  have htake : ∀ n ≤ d.tokenBuffer.length, (d.tokenBuffer ++ [t]).take n = d.tokenBuffer.take n :=
    fun n hn => take_append_of_le_length hn
  rw [← htake _ (hoffset.trans hreadLe)] at hbefore
  obtain ⟨new, hs, hnew⟩ := decodeNew_spec hlossy
    (d := { d with tokenBuffer := d.tokenBuffer ++ [t] }) rfl hpre hoffset hbefore hend
    (by rw [htake _ hreadLe]; exact hread) hreadEnd
  -- no stop string has ended before
  have hund' : ¬ Stops d.config (out ++ d.jailBuffer ++ new) →
      ∀ n ≤ (d.tokenBuffer ++ [t]).length, ∀ s',
      decode ((d.tokenBuffer ++ [t]).take n) d.skipSpecialTokens = .ok s' →
        ¬ Stops d.config s' := by
    intro hns n hn s' hs'
    rcases Nat.lt_or_ge d.tokenBuffer.length n with _ | hge
    · rw [take_of_length_le (by simp; omega), hs] at hs'
      exact Except.ok.inj hs' ▸ hns
    · exact hund n hge s' (htake n hge ▸ hs')
  rw [processToken, if_neg (by simp [hrunning]), if_neg ht.1, if_neg ht.2]
  by_cases hheld : new.getLast? = some replacementCharacter ∨ new = []
  · rw [if_pos hheld] at hnew
    simp only [hnew, bind, Except.bind]
    refine ⟨.held, { d with tokenBuffer := d.tokenBuffer ++ [t] }, rfl, .inl ?_⟩
    have hdoubt : (out ++ d.jailBuffer ++ new).getLast? = some replacementCharacter ∨
        out ++ d.jailBuffer ++ new = out ++ d.jailBuffer := by
      by_cases hnil : new = []
      · exact .inr (by rw [hnil, append_nil])
      · rw [getLast?_append_of_ne_nil _ hnil]
        exact .inl (hheld.resolve_right hnil)
    have hread' := (htake _ hreadLe).symm ▸ hread
    have hstill : out ++ SequenceDecoderOutput.held.emitted = out := append_nil out
    rw [hstill]
    refine ⟨rfl, rfl, hrunning, rfl, hoffset, hreadLe.trans (by simp), ⟨before, hbefore, hend⟩,
      hread', hreadEnd, ⟨_, hs, hdoubt⟩, hclear, hund' ?_⟩
    rcases hdoubt with hfffd | heq
    · exact fun hstops => hstops.1 hfffd
    · rw [heq]
      exact hund _ hreadLe _ hread
  · rw [if_neg hheld] at hnew
    simp only [hnew, bind, Except.bind]
    obtain ⟨hfffd, hnil⟩ := not_or.1 hheld
    rw [← getLast?_append_of_ne_nil (out ++ d.jailBuffer) hnil] at hfffd
    rw [append_assoc] at hs hfffd hund'
    have hcheck : ∀ w ∈ d.config.sequences, ∀ x i,
        w <+: (out ++ (d.jailBuffer ++ new) ++ x).drop i → out.length ≤ i :=
      fun w hw x i hocc => hclear w hw (new ++ x) i (by simpa using hocc)
    cases hmatch : completeMatch d.config (d.jailBuffer ++ new) with
    | some o =>
      refine ⟨o, _, rfl, .inr ⟨_, hs, ⟨hfffd, ?_⟩, emitted_completeMatch hmatch ?_, rfl, rfl⟩⟩
      · by_contra hall
        have hnone := completeMatch_eq_none_iff.2 fun w hw hinf =>
          hall ⟨w, hw, hinf.trans (suffix_append out _).isInfix⟩
        cases hnone.symm.trans hmatch
      · exact fun w hw i hocc => hcheck w hw [] i (by simpa using hocc)
    | none =>
      have hnone := completeMatch_eq_none_iff.1 hmatch
      simp only
      generalize hsafe : (d.jailBuffer ++ new).length -
        partialMatchLen d.config.sequences (d.jailBuffer ++ new) = safe
      have hjoin : out ++ (d.jailBuffer ++ new).take safe ++ (d.jailBuffer ++ new).drop safe =
          out ++ (d.jailBuffer ++ new) := by
        rw [append_assoc, take_append_drop]
      have hholding : Holding decode d.config d.skipSpecialTokens (d.tokenBuffer ++ [t])
          (out ++ (d.jailBuffer ++ new).take safe) { d with
            tokenBuffer := d.tokenBuffer ++ [t]
            jailBuffer := (d.jailBuffer ++ new).drop safe
            prefixOffset := d.readOffset
            readOffset := (d.tokenBuffer ++ [t]).length } := by
        refine ⟨rfl, rfl, hrunning, rfl, hreadLe.trans (by simp), le_rfl,
          ⟨_, (htake _ hreadLe).symm ▸ hread, hreadEnd⟩, ?_, ?_, ⟨_, hs, .inr hjoin.symm⟩, ?_,
          hund' ?_⟩
        · rw [take_length, hjoin]
          exact hs
        · rw [hjoin]
          exact hfffd
        · rw [hjoin]
          exact clear_jail hcheck hnone hsafe.symm
        rintro ⟨-, w, hw, hinf⟩
        obtain ⟨i, hi⟩ := infix_iff_drop.1 hinf
        obtain ⟨j, rfl⟩ := Nat.exists_eq_add_of_le (hcheck w hw [] i (by simpa using hi))
        rw [drop_length_add_append] at hi
        exact hnone w hw (infix_iff_drop.2 ⟨j, hi⟩)
      split
      · rename_i hempty
        rw [hempty.2] at hholding
        exact ⟨.held, _, rfl, .inl hholding⟩
      · exact ⟨.text _, _, rfl, .inl hholding⟩

omit hlossy in
/-- A stopped decoder emits nothing more. -/
lemma processTokens_stopped (hd : d.stopped = true) (more) :
    d.processTokens decode more = .ok (more.map fun _ => .stopped, d) := by
  induction more with
  | nil => rfl
  | cons t _ ih =>
    have htoken : d.processToken decode t = .ok (.stopped, d) := by
      simp only [processToken, hd]
      rfl
    rw [processTokens, htoken]
    simp only [bind, Except.bind, ih]
    rfl

/-- The rest of the stream, up to the first whole text with a stop string. -/
lemma Holding.run (h : Holding decode config skip ts out d)
    (htokens : ts ++ rest = tokens)
    (hrest : ∀ t ∈ rest, t ∉ config.stopTokens ∧ t ∉ config.visibleStopTokens)
    (hn : n ≤ tokens.length) (hs : decode (tokens.take n) skip = .ok s) (hstops : Stops config s)
    (hfirst : ∀ m < n, ∀ s', decode (tokens.take m) skip = .ok s' → ¬ Stops config s') :
    ∃ outs d', d.processTokens decode rest = .ok (outs, d') ∧
      out ++ outs.flatMap SequenceDecoderOutput.emitted = cut config s ∧ d'.stopped = true ∧
      d'.jailBuffer = [] := by
  induction rest generalizing ts out d with
  | nil =>
    subst htokens
    simp only [append_nil] at hn hs
    exact absurd hstops (h.undecided n hn s hs)
  | cons t rest ih =>
    have hassoc : ts ++ [t] ++ rest = tokens := by simpa using htokens
    obtain ⟨o, d1, htoken, hnext⟩ := h.step hlossy ⟨rest, hassoc⟩ (hrest t mem_cons_self)
    rw [processTokens, htoken]
    rcases hnext with hnext | ⟨s', hs', hstops', hcut, hstopped, hjail⟩
    · obtain ⟨outs, d', hrun, hout, hd'⟩ := ih hnext hassoc fun u hu =>
        hrest u (mem_cons_of_mem _ hu)
      refine ⟨o :: outs, d', ?_, by simpa [append_assoc] using hout, hd'⟩
      simp only [bind, Except.bind, hrun]
      rfl
    -- the stop is here: the texts before contain none, and `s` is the first
    have htake : tokens.take (ts.length + 1) = ts ++ [t] := by
      rw [← hassoc, take_append_of_le_length (by simp), take_of_length_le (by simp)]
    have hlen : n = ts.length + 1 := by
      by_contra hne
      rcases Nat.lt_or_gt_of_ne hne with _ | hgt
      · refine h.undecided n (by omega) s ?_ hstops
        rwa [← htokens, take_append_of_le_length (by omega)] at hs
      · exact hfirst _ hgt s' (htake ▸ hs') hstops'
    rw [hlen, htake, hs'] at hs
    cases hs
    refine ⟨o :: rest.map fun _ => .stopped, d1, ?_, ?_, hstopped, hjail⟩
    · simp only [bind, Except.bind, processTokens_stopped hstopped rest]
      rfl
    have hnil : (rest.map fun _ => SequenceDecoderOutput.stopped).flatMap
        SequenceDecoderOutput.emitted = [] := by simp [SequenceDecoderOutput.emitted]
    rw [flatMap_cons, hnil, append_nil]
    exact hcut

omit [DecidableEq T] in
lemma holding_new (hne : ∀ w ∈ config.sequences, w ≠ []) :
    Holding decode config skip [] [] (new config skip) := by
  have hempty : ∀ n, decode ([].take n) skip = .ok [] := by
    intro n
    rw [take_nil]
    exact hlossy.nil
  refine ⟨rfl, rfl, rfl, rfl, le_rfl, le_rfl, ⟨[], hempty 0, by simp⟩, hempty 0, by simp [new],
    ⟨[], hlossy.nil, .inr rfl⟩, by simp, ?_⟩
  rintro n - s hs ⟨-, w, hw, hinf⟩
  cases (hempty n).symm.trans hs
  exact hne w hw (eq_nil_of_infix_nil hinf)

omit [DecidableEq T] hlossy in
/-- When only one stop string occurs, the cut is at its first occurrence, before a
hidden and after a visible one. -/
lemma cut_of_unique (hw : w ∈ config.sequences) (hpos : findSub w s = some pos)
    (honly : ∀ w' ∈ config.sequences, w' <:+: s → w' = w) :
    cut config s = s.take (if w ∈ config.stopSequences then pos else pos + w.length) := by
  have hnone : ∀ w' ∈ config.sequences, w' ≠ w → findSub w' s = none := fun w' hw' hne => by
    rw [← not_isSome_iff_eq_none, findSub_isSome_iff]
    exact fun hinf => hne (honly w' hw' hinf)
  have hfind : ∀ (f : Text → Option Nat) (e : Nat) (l : List Text),
      (∀ w' ∈ l, w' ≠ w → f w' = none) → f w = some e →
        l.findSome? f = if w ∈ l then some e else none := by
    intro f e l hl hfw
    induction l with
    | nil => rfl
    | cons a l ih =>
      have ih := ih fun w' hw' => hl w' (mem_cons_of_mem _ hw')
      by_cases ha : a = w
      · simp [ha, hfw]
      · simp [ih, hl a mem_cons_self ha, Ne.symm ha]
  rw [cut, hfind _ pos _ (fun w' hw' => hnone w' (mem_append_left _ hw')) hpos]
  split_ifs with hhidden
  · rfl
  have hvisible : w ∈ config.visibleStopSequences := (mem_append.1 hw).resolve_left hhidden
  rw [hfind (fun v => (findSub v s).map (· + v.length)) (pos + w.length) _
    (fun w' hw' hne => by rw [hnone w' (mem_append_right _ hw') hne]; rfl)
    (by rw [hpos]; rfl), if_pos hvisible]

omit hlossy in
/-- The output of a stream with a stop string: the text of the first tokens that
make up a whole text with one, cut at the first stop string configured; nothing
follows. Where a single stop string occurs, that is the whole text cut at its
earliest occurrence, however it is split into tokens. -/
theorem emitted_eq_cut {tokenBytes : T → List UInt8} (hdecode : ByteLevel decode skip tokenBytes)
    {whole : Text} (hwhole : tokens.flatMap tokenBytes = bytes whole)
    (hne : ∀ w ∈ config.sequences, w ≠ [])
    (htokens : ∀ t ∈ tokens, t ∉ config.stopTokens ∧ t ∉ config.visibleStopTokens)
    (hocc : ∃ n s, decode (tokens.take n) skip = .ok s ∧ Stops config s) :
    ∃ n s outs d, decode (tokens.take n) skip = .ok s ∧ Stops config s ∧
      (∀ m < n, ∀ s', decode (tokens.take m) skip = .ok s' → ¬ Stops config s') ∧
      (new config skip).processTokens decode tokens = .ok (outs, d) ∧
      outs.flatMap SequenceDecoderOutput.emitted = cut config s ∧
      (∀ more, d.processTokens decode more = .ok (more.map fun _ => .stopped, d)) ∧
      d.flush.1 = .text [] ∧ ∀ w pos, w ∈ config.sequences → findSub w whole = some pos →
        (∀ w' ∈ config.sequences, w' <:+: whole → w' = w) →
          outs.flatMap SequenceDecoderOutput.emitted =
            whole.take (if w ∈ config.stopSequences then pos else pos + w.length) := by
  classical
  have hlossy := hdecode.lossy hwhole
  obtain ⟨s, hs, hstops⟩ := Nat.find_spec hocc
  have hfirst : ∀ m < Nat.find hocc, ∀ s', decode (tokens.take m) skip = .ok s' →
      ¬ Stops config s' := fun m hm s' hs' hst => Nat.find_min hocc hm ⟨s', hs', hst⟩
  have hn : Nat.find hocc ≤ tokens.length := by
    by_contra hgt
    rw [take_of_length_le (by omega)] at hs
    exact hfirst tokens.length (by omega) s (by rwa [take_length]) hstops
  obtain ⟨outs, d, hrun, hout, hstopped, hjail⟩ :=
    (holding_new hlossy hne).run hlossy (nil_append _) htokens hn hs hstops hfirst
  rw [nil_append] at hout
  refine ⟨_, s, outs, d, hs, hstops, hfirst, hrun, hout, processTokens_stopped hstopped,
    by rw [flush, hjail], fun w pos hw hpos honly => ?_⟩
  -- the text at the stop is a part of the whole text
  have hpre : s <+: whole := by
    have hbytes : (tokens.take (Nat.find hocc)).flatMap tokenBytes <+: bytes whole := by
      rw [← hwhole]
      exact ⟨_, by rw [← flatMap_append, take_append_drop]⟩
    exact (hdecode.bytes_of_decode hbytes hs hstops.1).1
  obtain ⟨w', hw', hinf⟩ := hstops.2
  obtain rfl := honly w' hw' (hinf.trans hpre.isInfix)
  rw [findSub_extends hinf hpre] at hpos
  have hlen := (findSub_eq_some_iff.1 hpos).1.length_le
  rw [hout, cut_of_unique hw hpos fun w' hw' h => honly w' hw' (h.trans hpre.isInfix)]
  obtain ⟨_, rfl⟩ := hpre
  simp only [length_drop] at hlen
  have hpos' : pos ≤ s.length := by
    by_contra hgt
    have := length_pos_iff.2 (hne w' hw)
    omega
  split_ifs
  · rw [take_append_of_le_length hpos']
  · rw [take_append_of_le_length (by omega)]

/-! ## Streams without a stop string -/

/-- Tokens in which no stop string occurs. -/
lemma Holding.pass (rest) : ∀ {ts out d}, Holding decode config skip ts out d →
    ts ++ rest = tokens → (∀ t ∈ rest, t ∉ config.stopTokens ∧ t ∉ config.visibleStopTokens) →
    (∀ n s, decode (tokens.take n) skip = .ok s → ¬ Stops config s) →
    ∃ outs d', d.processTokens decode rest = .ok (outs, d') ∧
      Holding decode config skip tokens (out ++ outs.flatMap SequenceDecoderOutput.emitted) d' := by
  induction rest with
  | nil =>
    intro _ _ d h htokens _ _
    exact ⟨[], d, rfl, by simpa [← htokens] using h⟩
  | cons t rest ih =>
    intro ts _ _ h htokens hrest hno
    have hassoc : ts ++ [t] ++ rest = tokens := by simpa using htokens
    obtain ⟨o, _, htoken, hnext | ⟨s, hs, hstops, -⟩⟩ :=
      h.step hlossy ⟨rest, hassoc⟩ (hrest t mem_cons_self)
    · obtain ⟨outs, d', hrun, hholding⟩ := ih hnext hassoc
        (fun u hu => hrest u (mem_cons_of_mem _ hu)) hno
      refine ⟨o :: outs, d', ?_, by simpa using hholding⟩
      rw [processTokens, htoken]
      simp only [bind, Except.bind, hrun]
      rfl
    -- a stop would have been seen in the text so far
    refine absurd hstops (hno (ts ++ [t]).length s ?_)
    rwa [← hassoc, take_left]

/-- **Whether text is lost.** Without a stop string, what was emitted up to the end
of the stream or to a stop token is the whole text if and only if the text does not
end in U+FFFD, as an incomplete last character reads. -/
theorem emitted_whole_iff (hne : ∀ w ∈ config.sequences, w ≠ [])
    (htokens : ∀ t ∈ tokens, t ∉ config.stopTokens ∧ t ∉ config.visibleStopTokens)
    (hno : ∀ n s, decode (tokens.take n) skip = .ok s → ¬ Stops config s) :
    ∃ s outs d, decode tokens skip = .ok s ∧
      (new config skip).processTokens decode tokens = .ok (outs, d) ∧
      (outs.flatMap SequenceDecoderOutput.emitted ++ d.flush.1.emitted = s ↔
        s.getLast? ≠ some replacementCharacter) ∧
      ∀ t v, t ∈ config.stopTokens ∧ v = [] ∨ t ∉ config.stopTokens ∧
          t ∈ config.visibleStopTokens ∧ decode [t] skip = .ok v →
        ∃ o d', d.processToken decode t = .ok (o, d') ∧
          (outs.flatMap SequenceDecoderOutput.emitted ++ o.emitted ++ d'.flush.1.emitted = s ++ v ↔
            s.getLast? ≠ some replacementCharacter) := by
  obtain ⟨outs, d, hrun, hholding⟩ :=
    (holding_new hlossy hne).pass hlossy tokens (nil_append _) htokens hno
  rw [nil_append] at hholding
  obtain ⟨rfl, rfl, hrunning, -, -, -, -, -, hend, ⟨s, hs, hread⟩, -⟩ := hholding
  have hiff : outs.flatMap SequenceDecoderOutput.emitted ++ d.jailBuffer = s ↔
      s.getLast? ≠ some replacementCharacter := by grind
  refine ⟨s, outs, d, hs, hrun, hiff, fun t v ht => ?_⟩
  rw [processToken, if_neg (by simp [hrunning])]
  rcases ht with ⟨ht, rfl⟩ | ⟨hhidden, ht, hv⟩
  · refine ⟨_, _, if_pos ht, ?_⟩
    have hemitted : (if d.jailBuffer = [] then SequenceDecoderOutput.stopped
        else .stoppedWithText d.jailBuffer).emitted = d.jailBuffer := by
      split <;> simp_all [SequenceDecoderOutput.emitted]
    rw [hemitted]
    simpa [flush, SequenceDecoderOutput.emitted] using hiff
  rw [if_neg hhidden, if_pos ht, hv]
  refine ⟨_, _, rfl, ?_⟩
  simpa [flush, SequenceDecoderOutput.emitted, ← append_assoc] using hiff

end Lossy

/-- A tokenizer whose tokens are texts. -/
def decodeTexts (ts : List Text) (_ : Bool) : Except Unit Text := .ok (ts.flatMap id)

/-- The stop string spans two tokens. -/
theorem emitted_eq_cut_across_tokens :
    ∃ outs d, (new ⟨[], [['S', 'T']], [], []⟩ false).processTokens decodeTexts
      [['a', 'S'], ['T', 'b']] = .ok (outs, d) ∧
        outs.flatMap SequenceDecoderOutput.emitted = ['a'] := by
  obtain ⟨-, -, outs, d, -, -, -, hrun, -, -, -, hcut⟩ :=
    @emitted_eq_cut _ _ _ decodeTexts false [['a', 'S'], ['T', 'b']] ⟨[], [['S', 'T']], [], []⟩ _
      (byteLevel_texts Text Unit false id) ['a', 'S', 'T', 'b'] (by decide) (by decide) (by decide)
      ⟨2, _, rfl, by decide, _, mem_cons_self, by decide⟩
  exact ⟨outs, d, hrun, hcut ['S', 'T'] 1 (by decide) (by decide) (by decide)⟩

/-- U+FFFD inside the stream, as bytes that are no character read. -/
theorem emitted_whole_of_texts : ∃ outs d, (new ⟨[], [], [], []⟩ false).processTokens decodeTexts
      [[replacementCharacter], ['b']] = .ok (outs, d) ∧
    outs.flatMap SequenceDecoderOutput.emitted ++ d.flush.1.emitted
      = [replacementCharacter, 'b'] := by
  have hlossy : Lossy decodeTexts false [[replacementCharacter], ['b']] := by
    refine ⟨rfl, fun _ hs _ => ?_⟩
    cases hs
    exact ⟨_, rfl, congrArg _ flatMap_append⟩
  obtain ⟨s, outs, d, hs, hrun, hiff, -⟩ :=
    @emitted_whole_iff _ _ _ decodeTexts false _ hlossy ⟨[], [], [], []⟩ (by decide) (by decide)
      fun _ _ _ h => by simpa [StopSequenceConfig.sequences] using h.2
  cases hs
  exact ⟨outs, d, hrun, hiff.2 (by decide)⟩

/-- Text that came with a last character in doubt is neither emitted nor flushed. -/
theorem text_lost_at_end :
    ((new ⟨[], [], [], []⟩ false).processTokens decodeTexts [['a', replacementCharacter]]).map
      (fun r => r.1.flatMap SequenceDecoderOutput.emitted ++ r.2.flush.1.emitted) = .ok [] := by
  decide +kernel

/-- The stop string configured first wins over one that occurs earlier, unless the
latter has ended a token before. -/
theorem cut_depends_on_tokens :
    ((new ⟨[], [['b'], ['a']], [], []⟩ false).processTokens decodeTexts [['a', 'b']]).map
      (fun r => r.1.flatMap SequenceDecoderOutput.emitted) = .ok ['a'] ∧
    ((new ⟨[], [['b'], ['a']], [], []⟩ false).processTokens decodeTexts [['a'], ['b']]).map
      (fun r => r.1.flatMap SequenceDecoderOutput.emitted) = .ok [] := by
  decide +kernel

end StopSequenceDecoder

end VllmRouter
