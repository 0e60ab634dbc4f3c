import VllmRouter.PrefixTree.Text

/-!
# Byte-level tokenizers

A byte-level tokenizer decodes a list of tokens by reading their concatenated
bytes as lossy UTF-8. Behind a text that does not end in U+FFFD the reading starts
anew (`Lossy`). On the tokens of a valid text it is determined by two facts: whole
characters are read as they are, and a last character that is not complete yet is
read as one U+FFFD (`ByteLevel`).
-/

namespace VllmRouter

open List
open PrefixTree (Text bytes bytes_cons)

/-- U+FFFD. -/
def replacementCharacter : Char := '�'

/-- What is decoded of the beginnings of a stream. -/
structure Lossy {T E : Type} (decode : List T → Bool → Except E Text) (skip : Bool)
    (tokens : List T) : Prop where
  nil : decode [] skip = .ok []
  append : ∀ {xs ys s}, xs ++ ys <+: tokens → decode xs skip = .ok s →
    s.getLast? ≠ some replacementCharacter →
      ∃ s', decode ys skip = .ok s' ∧ decode (xs ++ ys) skip = .ok (s ++ s')

structure ByteLevel {T E : Type} (decode : List T → Bool → Except E Text) (skip : Bool)
    (tokenBytes : T → List UInt8) : Prop where
  complete : ∀ {ts s}, ts.flatMap tokenBytes = bytes s → decode ts skip = .ok s
  incomplete : ∀ {ts s c k}, 0 < k → k < (String.utf8EncodeChar c).length →
    ts.flatMap tokenBytes = bytes s ++ (String.utf8EncodeChar c).take k →
      decode ts skip = .ok (s ++ [replacementCharacter])

/-! ## Character boundaries -/

lemma encode_append_inj (h : String.utf8EncodeChar c ++ x = String.utf8EncodeChar d ++ y) :
    c = d ∧ x = y := by
  have hdecode : ∀ c x,
      (String.utf8EncodeChar c ++ x).toByteArray.utf8DecodeChar? 0 = some c := by
    intro c x
    rw [toByteArray_append]
    exact ByteArray.utf8DecodeChar?_utf8EncodeChar_append
  have hc : some c = some d := by rw [← hdecode c x, h, hdecode d y]
  cases hc
  exact ⟨rfl, append_cancel_left h⟩

lemma bytes_append (a b) : bytes (a ++ b) = bytes a ++ bytes b := flatMap_append

/-- What follows a whole text in the bytes of a text is the bytes of a text. -/
lemma exists_of_bytes_eq_append : ∀ {s} {rest},
    bytes s = bytes a ++ rest → ∃ q, s = a ++ q ∧ rest = bytes q := by
  induction a with
  | nil => exact fun {s} _ h => ⟨s, rfl, h.symm⟩
  | cons c a ih =>
    intro s _ h
    cases s with
    | nil => simp [bytes] at h
    | cons =>
      rw [bytes_cons, bytes_cons, append_assoc] at h
      obtain ⟨rfl, hrest⟩ := encode_append_inj h
      obtain ⟨q, rfl, hq⟩ := ih hrest
      exact ⟨q, rfl, hq⟩

lemma bytes_injective (h : bytes a = bytes b) : a = b := by
  obtain ⟨q, rfl, hq⟩ := exists_of_bytes_eq_append (h.trans (append_nil _).symm)
  cases q with
  | nil => simp
  | cons => simp [bytes] at hq

/-- The bytes of a text, cut anywhere: whole characters and possibly a part of one. -/
lemma cut_bytes : ∀ {s}, bs <+: bytes s → (∃ s1, s1 <+: s ∧ bs = bytes s1) ∨
    ∃ s1 c k, 0 < k ∧ k < (String.utf8EncodeChar c).length ∧ s1 ++ [c] <+: s ∧
      bs = bytes s1 ++ (String.utf8EncodeChar c).take k := by
  intro s
  induction s generalizing bs with
  | nil =>
    intro h
    exact .inl ⟨[], nil_prefix, by simpa [bytes] using h⟩
  | cons c s ih =>
    intro h
    rw [bytes_cons] at h
    rcases Nat.lt_or_ge bs.length (String.utf8EncodeChar c).length with hlt | hge
    · have hbs : bs = (String.utf8EncodeChar c).take bs.length := by
        rw [prefix_iff_eq_take, take_append_of_le_length (Nat.le_of_lt hlt)] at h
        exact h
      rcases Nat.eq_zero_or_pos bs.length with h0 | hpos
      · exact .inl ⟨[], nil_prefix, by simpa [bytes] using h0⟩
      · exact .inr ⟨[], c, bs.length, hpos, hlt, by simp, by simpa [bytes] using hbs⟩
    obtain ⟨_, rfl⟩ := prefix_of_prefix_length_le (prefix_append _ _) h hge
    rcases ih ((prefix_append_right_inj _).1 h) with ⟨s1, hs, rfl⟩ | ⟨s1, d, k, h0, hk, hs, rfl⟩
    · exact .inl ⟨c :: s1, by simpa using hs, rfl⟩
    · exact .inr ⟨c :: s1, d, k, h0, hk, by simpa using hs, by simp [bytes_cons]⟩

section

variable {T E : Type} {decode : List T → Bool → Except E Text} {tokenBytes : T → List UInt8}
  {ts tokens : List T} (h : ByteLevel decode skip tokenBytes)
include h

/-- A beginning of a valid text that does not read as incomplete is complete. -/
lemma ByteLevel.bytes_of_decode
    (hpre : ts.flatMap tokenBytes <+: bytes whole) (hs : decode ts skip = .ok s)
    (hend : s.getLast? ≠ some replacementCharacter) :
    s <+: whole ∧ ts.flatMap tokenBytes = bytes s := by
  rcases cut_bytes hpre with ⟨s1, hs1, heq⟩ | ⟨s1, c, k, h0, hk, -, heq⟩
  · cases (h.complete heq).symm.trans hs
    exact ⟨hs1, heq⟩
  · cases (h.incomplete h0 hk heq).symm.trans hs
    simp at hend

/-- On the tokens of a valid text a byte-level tokenizer is lossy. -/
lemma ByteLevel.lossy (hwhole : tokens.flatMap tokenBytes = bytes whole) :
    Lossy decode skip tokens where
  nil := h.complete (by simp [bytes])
  append := by
    intro xs ys s hpre hs hend
    obtain ⟨later, rfl⟩ := hpre
    rw [flatMap_append, flatMap_append, append_assoc] at hwhole
    obtain ⟨-, hxs⟩ := h.bytes_of_decode ⟨_, hwhole⟩ hs hend
    rw [hxs] at hwhole
    obtain ⟨q, -, hq⟩ := exists_of_bytes_eq_append hwhole.symm
    rcases cut_bytes ⟨_, hq⟩ with ⟨s', -, heq⟩ | ⟨s', c, k, h0, hk, -, heq⟩
    · exact ⟨s', h.complete heq, h.complete (by rw [flatMap_append, hxs, heq, bytes_append])⟩
    · refine ⟨_, h.incomplete h0 hk heq, ?_⟩
      rw [← append_assoc]
      exact h.incomplete h0 hk (by rw [flatMap_append, hxs, heq, bytes_append, append_assoc])

end

/-- The tokenizer whose tokens are texts. -/
lemma byteLevel_texts (T E : Type) (skip) (text : T → Text) :
    ByteLevel (E := E) (fun ts _ => .ok (ts.flatMap text)) skip (fun t => bytes (text t)) := by
  have hbytes : ∀ ts : List T, ts.flatMap (fun t => bytes (text t)) = bytes (ts.flatMap text) :=
    fun ts => by simp [bytes, flatMap_assoc]
  constructor
  · intro ts _ h
    rw [bytes_injective ((hbytes ts).symm.trans h)]
  intro ts _ c k _ hk h
  -- a text does not end inside a character
  obtain ⟨q, -, hq⟩ := exists_of_bytes_eq_append ((hbytes ts).symm.trans h)
  cases q with
  | nil =>
    have := congrArg length hq
    simp [bytes] at this hk
    omega
  | cons d q =>
    have happ : String.utf8EncodeChar c ++ [] =
        String.utf8EncodeChar d ++ (bytes q ++ (String.utf8EncodeChar c).drop k) := by
      rw [← append_assoc, ← bytes_cons, ← hq, take_append_drop, append_nil]
    obtain ⟨rfl, hnil⟩ := encode_append_inj happ
    have := congrArg length hnil
    simp only [length_nil, length_append, length_drop] at this
    omega

end VllmRouter
