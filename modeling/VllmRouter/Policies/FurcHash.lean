import Mathlib.Algebra.Ring.Nat
import Mathlib.Data.List.Basic

/-!
# FurcHash (`policies/consistent_hash.rs`)

`furc_hash` reads the bits of an endless sequence of words, which starts with a hash
of the key and goes on by rehashing, and caches the words it has read. Whatever panics
or wraps is `none` here: an index outside the cache, an addition above `u32`, a shift
by the width of the type, and a shift that loses a bit.
-/

namespace VllmRouter.Policies

open List

def maxTries : Nat := 32

def furcShift : Nat := 23

/-- `u32` addition. -/
def addU32 (a b : Nat) : Option Nat := if a + b < 2 ^ 32 then some (a + b) else none

/-- `u32` left shift. -/
def shlU32 (x n : Nat) : Option Nat :=
  if n < 32 ∧ x * 2 ^ n < 2 ^ 32 then some (x * 2 ^ n) else none

/-- The first `d` with `m ≤ 1 << d`. -/
def furcDepth (m : Nat) : (fuel d : Nat) → Option Nat
  | 0, _ => none
  | fuel + 1, d => do
    if m > (← shlU32 1 d) then furcDepth m fuel (d + 1) else some d

/-- The search ends by depth 31 if `m` is at most `2 ^ 31`, and overflows otherwise. -/
lemma furcDepth_eq (fuel : Nat) : ∀ {d}, d + fuel = 33 →
    (m ≤ 2 ^ 31 → d ≤ 31 → ∃ d' ≤ 31, furcDepth m fuel d = some d') ∧
      (2 ^ 31 < m → furcDepth m fuel d = none) := by
  induction fuel with
  | zero => exact fun h => ⟨by omega, fun _ => rfl⟩
  | succ fuel ih =>
    intro d hfuel
    unfold furcDepth
    by_cases hd : d < 32
    · have hpow : 2 ^ d ≤ 2 ^ 31 := Nat.pow_le_pow_right (by decide) (by omega)
      have hbound : shlU32 1 d = some (2 ^ d) := by
        rw [shlU32, Nat.one_mul, if_pos ⟨hd, by omega⟩]
      obtain ⟨hsome, hnone⟩ := @ih (d + 1) (by omega)
      rw [hbound]
      simp only [Option.bind_eq_bind, Option.bind_some]
      split
      · -- the bound is below `m`, so `d` is not 31 yet if `m` is in range
        refine ⟨fun hm _ => hsome hm ?_, hnone⟩
        rcases Nat.lt_or_ge d 31 with hlt | hge
        · omega
        · obtain rfl : d = 31 := by omega
          omega
      · exact ⟨fun _ hd => ⟨d, hd, rfl⟩, by omega⟩
    · rw [shlU32, if_neg (by omega)]
      exact ⟨by omega, fun _ => rfl⟩

/-- The two hash functions. -/
structure MurmurHash where
  hash64a : List UInt8 → UInt32 → UInt64
  rehash64a : UInt64 → UInt64

structure HashCache where
  hashCache : List UInt64
  oldOrd : Int

variable (murmur : MurmurHash) (key : List UInt8)

/-- Word `n` is made and stored. -/
def extendCache (hashCache : List UInt64) (n : Nat) : Option (List UInt64) := do
  let hashValue ← if n = 0 then some (murmur.hash64a key 4193360111)
    else hashCache[n - 1]?.map murmur.rehash64a
  let hashCache := hashCache ++ replicate (n + 1 - hashCache.length) 0
  if n < hashCache.length then some (hashCache.set n hashValue) else none

def furcGetBit (idx : Nat) (c : HashCache) : Option (Bool × HashCache) := do
  let ord := idx / 64
  let c ← if c.oldOrd < ord then
      ((range' (c.oldOrd + 1).toNat (ord - c.oldOrd).toNat).foldlM (extendCache murmur key)
        c.hashCache).map (⟨·, ord⟩)
    else some c
  let hashVal ← c.hashCache[ord]?
  some ((hashVal >>> (idx % 64).toUInt64) &&& 1 ≠ 0, c)

/-- A depth whose bit is set, and the index of the bit. -/
def findBit (d a : Nat) (c : HashCache) : Option (Option (Nat × Nat) × HashCache) := do
  let (bit, c) ← furcGetBit murmur key a c
  if bit then some (some (d, a), c)
  else
    match d with
    | 0 => some (none, c)
    | d + 1 => findBit d d c

/-- `count` more bits of the number. -/
def buildNum : (count num a : Nat) → HashCache → Option (Nat × Nat × HashCache)
  | 0, num, a, c => some (num, a, c)
  | count + 1, num, a, c => do
    let shifted ← shlU32 num 1
    let (bit, c) ← furcGetBit murmur key a c
    let a ← addU32 a furcShift
    buildNum count (shifted ||| bit.toNat) a c

def furcTries (m : Nat) : (tries d a : Nat) → HashCache → Option Nat
  | 0, _, _, _ => some 0
  | tries + 1, d, a, c => do
    match ← findBit murmur key d a c with
    | (none, _) => some 0
    | (some (d, a), c) =>
      let a ← addU32 a furcShift
      let (num, a, c) ← buildNum murmur key (d - 1) 1 a c
      if num < m then some num else furcTries m tries d a c

def furcHash (m : Nat) : Option Nat := do
  if m ≤ 1 then some 0
  else
    let d ← furcDepth m 33 0
    furcTries murmur key m maxTries d d ⟨[], -1⟩

/-! ## The cache -/

/-- The cache holds the words up to `oldOrd`. -/
def HashCache.Built (c : HashCache) : Prop := (c.hashCache.length : Int) = c.oldOrd + 1

lemma extendCache_some (words : List UInt64) : ∃ words',
    extendCache murmur key words words.length = some words' ∧
      words'.length = words.length + 1 := by
  cases words with
  | nil => exact ⟨_, rfl, rfl⟩
  | cons word words => simp [extendCache]

lemma foldlM_extendCache (count : Nat) : ∀ words, ∃ words',
    (range' words.length count).foldlM (extendCache murmur key) words = some words' ∧
      words'.length = words.length + count := by
  induction count with
  | zero => exact fun words => ⟨words, rfl, rfl⟩
  | succ count ih =>
    intro words
    obtain ⟨words1, hextend, hlen1⟩ := extendCache_some murmur key words
    obtain ⟨words2, hrest, hlen2⟩ := ih words1
    refine ⟨words2, ?_, by omega⟩
    rw [range'_succ, foldlM_cons, hextend, ← hlen1]
    exact hrest

lemma furcGetBit_some {c : HashCache} (h : c.Built) (idx : Nat) : ∃ bit c',
    furcGetBit murmur key idx c = some (bit, c') ∧ c'.Built := by
  have hlen : (c.hashCache.length : Int) = c.oldOrd + 1 := h
  by_cases hord : c.oldOrd < (idx / 64 : Nat)
  · obtain ⟨words, hwords, hlen'⟩ := foldlM_extendCache murmur key
      ((idx / 64 : Nat) - c.oldOrd).toNat c.hashCache
    have hstart : (c.oldOrd + 1).toNat = c.hashCache.length := by omega
    have hlast : idx / 64 < words.length := by omega
    simp only [furcGetBit, if_pos hord, hstart, hwords, Option.map_some, Option.bind_eq_bind,
      Option.bind_some, getElem?_eq_getElem hlast]
    refine ⟨_, _, rfl, ?_⟩
    change (words.length : Int) = (idx / 64 : Nat) + 1
    omega
  · have hlast : idx / 64 < c.hashCache.length := by omega
    simp only [furcGetBit, if_neg hord, Option.bind_eq_bind, Option.bind_some,
      getElem?_eq_getElem hlast]
    exact ⟨_, _, rfl, h⟩

/-! ## The loops -/

lemma findBit_some (d : Nat) {a : Nat} {c : HashCache} (h : c.Built) : ∃ found c',
    findBit murmur key d a c = some (found, c') ∧ c'.Built ∧
      ∀ d' a', found = some (d', a') → d' ≤ d ∧ a' ≤ max a d := by
  obtain ⟨bit, c1, hbit, h1⟩ := furcGetBit_some murmur key h a
  unfold findBit
  rw [hbit]
  cases bit with
  | true => exact ⟨_, c1, rfl, h1, by grind⟩
  | false =>
    cases d with
    | zero => exact ⟨_, c1, rfl, h1, by simp⟩
    | succ d =>
      obtain ⟨found, c2, hfind, h2, hfound⟩ := findBit_some d h1
      exact ⟨found, c2, hfind, h2, by grind⟩

lemma buildNum_some (count : Nat) : ∀ {num a c} (w : Nat), c.Built → num < 2 ^ w →
    w + count ≤ 31 → a + 23 * count < 2 ^ 32 → ∃ num' c',
      buildNum murmur key count num a c = some (num', a + 23 * count, c') ∧ c'.Built := by
  induction count with
  | zero => exact fun {num _ c} _ h _ _ _ => ⟨num, c, rfl, h⟩
  | succ count ih =>
    intro num a c w h hnum hw ha
    obtain ⟨bit, c1, hbit, h1⟩ := furcGetBit_some murmur key h a
    have hpow : 2 ^ (w + 1) ≤ 2 ^ 31 := Nat.pow_le_pow_right (by decide) (by omega)
    have hshift : shlU32 num 1 = some (num * 2) := if_pos (by omega)
    have hadd : addU32 a furcShift = some (a + 23) := if_pos (by unfold furcShift; omega)
    have hnum' : num * 2 ||| bit.toNat < 2 ^ (w + 1) :=
      Nat.or_lt_two_pow (by omega) (by have := bit.toNat_lt; omega)
    obtain ⟨num', c2, hrest, h2⟩ := ih (w + 1) h1 hnum' (by omega) (show a + 23 + _ < _ by omega)
    refine ⟨num', c2, ?_, h2⟩
    simp only [buildNum, hshift, hbit, hadd, Option.bind_eq_bind, Option.bind_some, hrest]
    congr 3
    omega

/-- Every try moves the index by at most 31 strides. -/
lemma furcTries_some (m tries : Nat) : ∀ {d a c}, c.Built → d ≤ 31 → tries ≤ 32 →
    a + 713 * tries ≤ 22847 → ∃ r, furcTries murmur key m tries d a c = some r ∧
      (r = 0 ∨ r < m) := by
  induction tries with
  | zero => exact fun _ _ _ _ => ⟨0, rfl, .inl rfl⟩
  | succ tries ih =>
    intro d a c h hd htries ha
    obtain ⟨found, c1, hfind, h1, hfound⟩ := findBit_some murmur key d h
    unfold furcTries
    rw [hfind]
    cases found with
    | none => exact ⟨0, rfl, .inl rfl⟩
    | some p =>
      obtain ⟨d1, a1⟩ := p
      obtain ⟨hd1, ha1⟩ := hfound d1 a1 rfl
      have hadd : addU32 a1 furcShift = some (a1 + 23) := if_pos (by unfold furcShift; omega)
      have hend : a1 + 23 + 23 * (d1 - 1) < 2 ^ 32 := by omega
      obtain ⟨num, c2, hbuild, h2⟩ := buildNum_some murmur key (d1 - 1) 1 h1 Nat.one_lt_two
        (by omega) hend
      simp only [Option.bind_eq_bind, Option.bind_some, hadd, hbuild]
      split
      · exact ⟨num, rfl, .inr ‹_›⟩
      · exact ih h2 (by omega) (by omega) (by omega)

/-- **FurcHash is in range** and returns without a panic or an overflow if and only if
`m` is at most `2 ^ 31`. -/
theorem furcHash_in_range_iff (m : Nat) :
    (∃ r, furcHash murmur key m = some r ∧ r < max m 1) ↔ m ≤ 2 ^ 31 := by
  unfold furcHash
  by_cases hone : m ≤ 1
  · simp [hone]
    omega
  rw [if_neg hone]
  obtain ⟨hsome, hnone⟩ := @furcDepth_eq m 33 0 rfl
  constructor
  · intro ⟨r, hr, _⟩
    by_contra hm
    rw [hnone (by omega)] at hr
    cases hr
  · intro hm
    obtain ⟨d, hd, hdepth⟩ := hsome hm (Nat.zero_le _)
    rw [hdepth]
    have hempty : HashCache.Built ⟨[], -1⟩ := by simp [HashCache.Built]
    obtain ⟨r, hr, hlt⟩ := furcTries_some murmur key m maxTries hempty hd (Nat.le_refl _)
      (show d + 713 * 32 ≤ 22847 by omega)
    exact ⟨r, hr, by omega⟩

/-- The bound for `2 ^ 31 + 1` does not fit in `u32`. -/
theorem furcHash_overflows : furcHash ⟨fun _ _ => 0, id⟩ [] (2 ^ 31 + 1) = none := by
  decide +kernel

end VllmRouter.Policies
