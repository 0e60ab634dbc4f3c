import Mathlib.Data.List.Basic

/-!
# Texts and their lengths (`tree.rs`)

The prefix tree counts characters, while Rust indexes strings by bytes. A text
is the list of its characters here, and `bytes` its UTF-8 encoding. The helpers
of the source take a shortcut where the bytes they look at are ASCII; each of
them is shown to agree with the function on characters:

- `advanceByChars_eq`: `advance_by_chars` drops characters.
- `takeChars_eq`: `take_chars` keeps characters.
- `sharedPrefixCount_eq`: `shared_prefix_count` counts equal characters.
- `NodeText.splitAtChar_eq`: `split_at_char` cuts between two characters.

A slice that does not lie on character boundaries panics in the source and is
`none` here.
-/

namespace VllmRouter.PrefixTree

open List UInt8
open String (utf8EncodeChar_ne_nil)

/-- A string, as the list of its characters. -/
abbrev Text := List Char

/-- The UTF-8 bytes of a text. -/
def bytes (s : Text) : List UInt8 := s.flatMap String.utf8EncodeChar

/-- `[u8]::is_ascii`. -/
def isAscii (bs : List UInt8) : Bool := bs.all fun b => decide (b < 128)

/-- `&s[idx..]` with a byte index. -/
def sliceFrom : Text → Nat → Option Text
  | s, 0 => some s
  | [], _ + 1 => none
  | c :: s, idx + 1 =>
    if idx + 1 < (String.utf8EncodeChar c).length then none
    else sliceFrom s (idx + 1 - (String.utf8EncodeChar c).length)

/-- `&s[..idx]` with a byte index. -/
def sliceTo : Text → Nat → Option Text
  | _, 0 => some []
  | [], _ + 1 => none
  | c :: s, idx + 1 =>
    if idx + 1 < (String.utf8EncodeChar c).length then none
    else (sliceTo s (idx + 1 - (String.utf8EncodeChar c).length)).map (c :: ·)

/-- The byte index of `s.char_indices().nth(n)`. -/
def nthIndex (s : Text) (n : Nat) : Option Nat :=
  if n < s.length then some (bytes (s.take n)).length else none

/-- Advance a string slice by `n` characters. -/
def advanceByChars (s : Text) (n : Nat) : Option Text :=
  if n = 0 then some s
  else if (bytes s).length ≤ n then some []
  else if isAscii ((bytes s).take n) then sliceFrom s n
  else
    match nthIndex s n with
    | some idx => sliceFrom s idx
    | none => some []

/-- The first `n` characters of a string. -/
def takeChars (s : Text) (n : Nat) : Option Text :=
  if n = 0 then some []
  else
    match nthIndex s n with
    | some idx => sliceTo s idx
    | none => some s

/-- Character-by-character comparison. -/
def sharedPrefixCountChars (a b : Text) : Nat :=
  ((a.zip b).takeWhile fun p => decide (p.1 = p.2)).length

/-- The length of the common prefix of two byte strings. -/
def commonByteLen (a b : List UInt8) : Nat :=
  ((a.zip b).findIdx? fun p => decide (p.1 ≠ p.2)).getD (min a.length b.length)

/-- Count matching prefix characters between two strings. -/
def sharedPrefixCount (a b : Text) : Nat :=
  if isAscii ((bytes a).take (commonByteLen (bytes a) (bytes b)))
  then commonByteLen (bytes a) (bytes b)
  else sharedPrefixCountChars a b

/-- Node text with its cached character count. -/
structure NodeText where
  text : Text
  charCount : Nat
deriving DecidableEq, Repr

namespace NodeText

def new (text : Text) : NodeText := ⟨text, text.length⟩

def empty : NodeText := ⟨[], 0⟩

def firstChar (nt : NodeText) : Option Char := nt.text.head?

/-- Split the text at a character boundary. -/
def splitAtChar (nt : NodeText) (charIdx : Nat) : Option (NodeText × NodeText) :=
  if charIdx = 0 then some (empty, nt)
  else if nt.charCount ≤ charIdx then some (nt, empty)
  else do
    let byteIdx := (nthIndex nt.text charIdx).getD (bytes nt.text).length
    let first ← sliceTo nt.text byteIdx
    let second ← sliceFrom nt.text byteIdx
    some (⟨first, charIdx⟩, ⟨second, nt.charCount - charIdx⟩)

end NodeText

/-! ## The encoding of one character -/

lemma bytes_cons (c s) :
    bytes (c :: s) = String.utf8EncodeChar c ++ bytes s := rfl

/-- An ASCII first byte is a whole character, and only that character's. -/
lemma encode_of_ascii (h : String.utf8EncodeChar c = b :: rest) (hb : b < 128) :
    rest = [] ∧ b.toNat = c.val.toNat := by
  have hlt : b.toNat < 128 := hb
  unfold String.utf8EncodeChar at h
  simp only at h
  split at h
  · cases h
    rw [toNat_ofNat']
    exact ⟨rfl, by omega⟩
  -- the first byte of a longer encoding has its top bit set
  split at h
  · cases h
    rw [toNat_ofNat'] at hlt
    omega
  split at h
  · cases h
    rw [toNat_ofNat'] at hlt
    omega
  · cases h
    rw [toNat_ofNat'] at hlt
    omega

/-! ## Slices -/

lemma length_le_bytes (s) : s.length ≤ (bytes s).length := by
  induction s with
  | nil => exact Nat.zero_le _
  | cons c =>
    rw [bytes_cons, length_append, length_cons]
    have := length_pos_of_ne_nil (utf8EncodeChar_ne_nil (c := c))
    omega

lemma exists_succ_encode (c) (n : Nat) : ∃ m, (String.utf8EncodeChar c).length + n = m + 1 := by
  have hpos := length_pos_of_ne_nil (utf8EncodeChar_ne_nil (c := c))
  exact ⟨_, (Nat.succ_pred_eq_of_pos (by omega)).symm⟩

/-- Slicing at the end of the first `k` characters. -/
lemma slices_take (s) : ∀ k, sliceFrom s (bytes (s.take k)).length = some (s.drop k) ∧
      sliceTo s (bytes (s.take k)).length = some (s.take k) := by
  induction s with
  | nil =>
    intro k
    rw [take_nil, drop_nil]
    exact ⟨rfl, rfl⟩
  | cons c s ih =>
    intro k
    cases k with
    | zero => exact ⟨rfl, rfl⟩
    | succ k =>
      obtain ⟨m, hm⟩ := exists_succ_encode c (bytes (s.take k)).length
      rw [take_succ_cons, bytes_cons, length_append, hm]
      simp only [sliceFrom, sliceTo]
      rw [if_neg (by omega), if_neg (by omega), ← hm, Nat.add_sub_cancel_left, (ih k).2]
      exact ⟨(ih k).1, rfl⟩

/-- Where the first `n` bytes are ASCII they are `n` characters. -/
lemma sliceFrom_ascii (s) : ∀ n, n < (bytes s).length →
    isAscii ((bytes s).take n) = true → sliceFrom s n = some (s.drop n) := by
  induction s with
  | nil =>
    intro n hn
    exact absurd hn (Nat.not_lt_zero n)
  | cons c s ih =>
    intro n hn hascii
    cases n with
    | zero => rfl
    | succ n =>
      obtain ⟨_, _, henc⟩ := exists_cons_of_ne_nil (utf8EncodeChar_ne_nil (c := c))
      rw [bytes_cons, henc] at hn hascii
      simp only [cons_append, take_succ_cons, isAscii, all_cons, Bool.and_eq_true,
        decide_eq_true_eq] at hascii
      obtain ⟨rfl, -⟩ := encode_of_ascii henc hascii.1
      simp only [cons_append, nil_append, length_cons] at hn
      simp only [sliceFrom, henc, length_cons, length_nil]
      exact ih n (by omega) hascii.2

/-- **`advance_by_chars` drops characters**, on the byte path and on the
character path. -/
lemma advanceByChars_eq (s n) : advanceByChars s n = some (s.drop n) := by
  unfold advanceByChars
  by_cases hzero : n = 0
  · rw [hzero]
    rfl
  rw [if_neg hzero]
  split
  · rename_i hlen
    rw [drop_eq_nil_of_le (Nat.le_trans (length_le_bytes s) hlen)]
  rename_i hlen
  split
  · rename_i hascii
    exact sliceFrom_ascii s n (Nat.lt_of_not_le hlen) hascii
  unfold nthIndex
  by_cases hn : n < s.length
  · simp only [if_pos hn]
    exact (slices_take s n).1
  · simp only [if_neg hn]
    rw [drop_eq_nil_of_le (Nat.le_of_not_lt hn)]

lemma takeChars_eq (s n) : takeChars s n = some (s.take n) := by
  unfold takeChars
  by_cases hzero : n = 0
  · rw [hzero]
    rfl
  rw [if_neg hzero]
  unfold nthIndex
  by_cases hn : n < s.length
  · simp only [if_pos hn]
    exact (slices_take s n).2
  · simp only [if_neg hn]
    rw [take_of_length_le (Nat.le_of_not_lt hn)]

/-- A text with a correct count is cut between two characters, and both halves
have correct counts. -/
lemma NodeText.splitAtChar_eq {nt : NodeText} (hcount : nt.charCount = nt.text.length)
    (hpos : 0 < k) (hlt : k < nt.charCount) :
    nt.splitAtChar k = some (NodeText.new (nt.text.take k), NodeText.new (nt.text.drop k)) := by
  unfold NodeText.splitAtChar
  rw [if_neg (Nat.ne_of_gt hpos), if_neg (Nat.not_le.2 hlt)]
  have hidx : (nthIndex nt.text k).getD (bytes nt.text).length
      = (bytes (nt.text.take k)).length := by
    unfold nthIndex
    rw [if_pos (hcount ▸ hlt)]
    rfl
  simp only [hidx, slices_take, Option.bind_eq_bind, Option.bind_some,
    NodeText.new, length_take, length_drop, hcount]
  rw [Nat.min_eq_left (Nat.le_of_lt (hcount ▸ hlt))]

/-! ## Common prefixes -/

lemma commonByteLen_cons (x y xs ys) :
    commonByteLen (x :: xs) (y :: ys) = if x = y then commonByteLen xs ys + 1 else 0 := by
  unfold commonByteLen
  simp only [zip_cons_cons, findIdx?_cons]
  by_cases h : x = y
  · simp only [h]
    cases (xs.zip ys).findIdx? fun p => decide (p.1 ≠ p.2) with
    | none => simp [Nat.succ_min_succ]
    | some => simp
  · simp [h]

lemma commonByteLen_nil_left (ys) : commonByteLen [] ys = 0 := by simp [commonByteLen]

lemma commonByteLen_nil_right (xs) : commonByteLen xs [] = 0 := by simp [commonByteLen]

/-- Where the common bytes are ASCII they are as many as the common characters. -/
lemma commonByteLen_ascii (a) : ∀ b,
    isAscii ((bytes a).take (commonByteLen (bytes a) (bytes b))) = true →
    commonByteLen (bytes a) (bytes b) = sharedPrefixCountChars a b := by
  induction a with
  | nil =>
    intro b _
    exact commonByteLen_nil_left _
  | cons c a ih =>
    intro b hascii
    cases b with
    | nil => exact commonByteLen_nil_right _
    | cons d b =>
      obtain ⟨x, xs, hc⟩ := exists_cons_of_ne_nil (utf8EncodeChar_ne_nil (c := c))
      obtain ⟨y, ys, hd⟩ := exists_cons_of_ne_nil (utf8EncodeChar_ne_nil (c := d))
      rw [bytes_cons, bytes_cons, hc, hd, cons_append, cons_append, commonByteLen_cons] at hascii ⊢
      unfold sharedPrefixCountChars
      simp only [zip_cons_cons, takeWhile_cons]
      by_cases hxy : x = y
      · -- equal first bytes that are ASCII are equal characters
        subst hxy
        simp only [if_true, take_succ_cons, isAscii, all_cons, Bool.and_eq_true,
          decide_eq_true_eq] at hascii ⊢
        obtain ⟨rfl, hcv⟩ := encode_of_ascii hc hascii.1
        obtain ⟨rfl, hdv⟩ := encode_of_ascii hd hascii.1
        have hcd : c = d := by
          apply Char.ext
          exact UInt32.toNat_inj.1 (hcv.symm.trans hdv)
        rw [if_pos hcd]
        exact congrArg (· + 1) (ih b hascii.2)
      · have hcd : c ≠ d := by
          rintro rfl
          rw [hc] at hd
          exact hxy (cons.inj hd).1
        simp [hxy, hcd]

/-- **`shared_prefix_count` counts equal characters**, on the byte path and on the
character path. -/
lemma sharedPrefixCount_eq (a b) : sharedPrefixCount a b = sharedPrefixCountChars a b := by
  unfold sharedPrefixCount
  split
  · rename_i h
    exact commonByteLen_ascii a b h
  · rfl

/-- Texts with the same first character share it. -/
lemma sharedPrefixCountChars_pos (h : b.head? = some c) :
    0 < sharedPrefixCountChars (c :: rest) b := by
  cases b with
  | nil => cases h
  | cons =>
    cases h
    simp [sharedPrefixCountChars]

/-- The counted characters are a common prefix, and the next ones differ. -/
lemma sharedPrefixCountChars_spec (a) : ∀ b m, sharedPrefixCountChars a b = m →
    m ≤ a.length ∧ m ≤ b.length ∧ a.take m = b.take m ∧
      ∀ x y, a[m]? = some x → b[m]? = some y → x ≠ y := by
  induction a with
  | nil =>
    rintro b m rfl
    exact ⟨Nat.le_refl _, Nat.zero_le _, rfl, nofun⟩
  | cons c a ih =>
    rintro b m rfl
    cases b with
    | nil => exact ⟨Nat.zero_le _, Nat.le_refl _, rfl, nofun⟩
    | cons d b =>
      unfold sharedPrefixCountChars
      simp only [zip_cons_cons, takeWhile_cons]
      by_cases hcd : c = d
      · obtain ⟨h1, h2, h3, h4⟩ := ih b _ rfl
        simp only [hcd, decide_true, if_true, length_cons]
        refine ⟨Nat.succ_le_succ h1, Nat.succ_le_succ h2, ?_, h4⟩
        exact congrArg (d :: ·) h3
      simp only [hcd]
      refine ⟨Nat.zero_le _, Nat.zero_le _, rfl, fun x y hx hy => ?_⟩
      cases hx
      cases hy
      exact hcd

end VllmRouter.PrefixTree
