import Mathlib.Algebra.BigOperators.Group.List.Basic
import Mathlib.Algebra.GroupWithZero.Nat
import VllmRouter.Lib.Lru

/-!
# The encode cache (`tokenizer/cache.rs`)

A cache of encode results, bounded by a number of entries and by an estimate of
the bytes they retain. This module has the sections that run under the lock of
one cache: the lookup, the insertion with its evictions, and the clearing.

The byte counter is adjusted by differences. A subtraction that would underflow is
`none`; `insert_spec` says that an insertion into a balanced cache returns, keeps
the counter the sum of the entry sizes and below the budget, and keeps the entry it
inserts. The estimates count retained heap bytes, so their sums are taken not to
overflow; they are natural numbers here. Metrics and logging are left out.
-/

namespace VllmRouter.Tokenizer

open List Option Lru

/-! ## Configuration -/

structure TokenizerCacheConfig where
  maxEntries : Nat
  maxBytes : Nat
  maxEntryBytes : Nat
deriving DecidableEq, Repr

namespace TokenizerCacheConfig

def default : TokenizerCacheConfig := ⟨10000, 64 * 1024 * 1024, 1024 * 1024⟩

/-- Check that every budget is usable. -/
def validate (c : TokenizerCacheConfig) : Except String Unit :=
  if c.maxEntries = 0 then .error "tokenizer cache max_entries must be at least 1"
  else if c.maxBytes = 0 then .error "tokenizer cache max_bytes must be at least 1"
  else if c.maxEntryBytes = 0 then .error "tokenizer cache max_entry_bytes must be at least 1"
  else if c.maxEntryBytes > c.maxBytes then
    .error ("tokenizer cache max_entry_bytes (" ++ toString c.maxEntryBytes ++
      ") must not exceed max_bytes (" ++ toString c.maxBytes ++ ")")
  else .ok ()

lemma validate_ok_iff (c : TokenizerCacheConfig) : c.validate = .ok () ↔
      0 < c.maxEntries ∧ 0 < c.maxEntryBytes ∧ c.maxEntryBytes ≤ c.maxBytes := by
  unfold validate
  split
  · simp [*]
  split
  · simp only [reduceCtorEq, false_iff]
    omega
  split
  · simp [*]
  split
  · simp only [reduceCtorEq, false_iff]
    omega
  · simp only [true_iff]
    omega

example : default.validate = .ok () := by decide +kernel

end TokenizerCacheConfig

/-! ## The state under the lock -/

structure CacheEntry (V : Type) where
  encoding : V
  bytes : Nat
deriving DecidableEq, Repr

structure CacheState (K V : Type) where
  lru : Lru K (CacheEntry V)
  bytes : Nat

/-- Subtraction of `usize`, which may not underflow. -/
def checkedSub (a b : Nat) : Option Nat := if b ≤ a then some (a - b) else none

namespace CacheState

variable {K V : Type}

/-- The eviction loop of `insert`, with the number of evictions so far. -/
def shrink (maxBytes : Nat) : Nat → CacheState K V → Nat → Option (CacheState K V × Nat)
  | 0, _, _ => none
  | fuel + 1, st, evicted =>
    if st.bytes > maxBytes then
      match st.lru.popLru with
      | some (victim, lru) =>
        (checkedSub st.bytes victim.2.bytes).bind fun bytes =>
          shrink maxBytes fuel ⟨lru, bytes⟩ (evicted + 1)
      | none => some (st, evicted)
    else some (st, evicted)

variable [DecidableEq K]

/-- What leaves the counter with the entry that `push` answers, and whether that is
an eviction: a replacement is not one. -/
def dropOld (bytes : Nat) (replacing : Bool) : Option (K × CacheEntry V) → Option (Nat × Nat)
  | some old => (checkedSub bytes old.2.bytes).map fun left => (left, if replacing then 0 else 1)
  | none => some (bytes, 0)

/-- The section of `insert`, with the number of evictions. -/
def insert (st : CacheState K V) (maxBytes : Nat) (input : K) (encoding : V) (bytes : Nat) :
    Option (CacheState K V × Nat) :=
  let pushed := st.lru.push input ⟨encoding, bytes⟩
  (dropOld st.bytes (st.lru.contains input) pushed.2).bind fun left =>
    shrink maxBytes (pushed.1.len + 1) ⟨pushed.1, left.1 + bytes⟩ left.2

/-- The section of `clear`. -/
def clear (st : CacheState K V) : CacheState K V := ⟨sparse st.lru.cap st.lru.capPos, 0⟩

/-- The section of `lookup`. -/
def lookup (st : CacheState K V) (input : K) : CacheState K V × Option V :=
  ({ st with lru := (st.lru.get input).1 }, (st.lru.get input).2.map CacheEntry.encoding)

end CacheState

/-- A cache with its counters. The configuration of a cache that exists is valid. -/
structure EncodeCache (K V : Type) where
  config : TokenizerCacheConfig
  valid : config.validate = .ok ()
  state : CacheState K V
  hits : Nat
  misses : Nat
  evictions : Nat
  oversized : Nat

def EncodeCache.new {K V : Type} (config : TokenizerCacheConfig) :
    Except String (EncodeCache K V) :=
  match h : config.validate with
  | .error e => .error e
  | .ok () =>
    .ok ⟨config, h, ⟨sparse config.maxEntries (config.validate_ok_iff.mp h).1, 0⟩, 0, 0, 0, 0⟩

/-! ## The byte counter -/

section Bytes

variable {K V : Type}

def entryBytes (e : K × CacheEntry V) : Nat := e.2.bytes

/-- The sum of the sizes of the entries. -/
def retained (entries : List (K × CacheEntry V)) : Nat := (entries.map entryBytes).sum

lemma retained_perm (h : l.Perm l') : retained l = retained l' := (h.map entryBytes).sum_nat

lemma retained_append (l l' : List (K × CacheEntry V)) :
    retained (l ++ l') = retained l + retained l' := by
  unfold retained
  rw [map_append, sum_append]

lemma retained_nil : retained ([] : List (K × CacheEntry V)) = 0 := rfl

lemma retained_singleton (e : K × CacheEntry V) : retained [e] = entryBytes e := rfl

lemma retained_cons (e : K × CacheEntry V) (l : List (K × CacheEntry V)) :
    retained (e :: l) = entryBytes e + retained l := rfl

namespace CacheState

/-- The counter is the sum of the sizes. -/
def Balanced (st : CacheState K V) : Prop := st.bytes = retained st.lru.entries

lemma checkedSub_of_eq (h : a = b + c) : checkedSub a b = some c := by
  unfold checkedSub
  rw [if_pos (by omega)]
  congr
  omega

/-- The loop stops with the budget met, before it reaches an entry that fits. -/
lemma shrink_spec {maxBytes : Nat} {last : K × CacheEntry V} (hlast : entryBytes last ≤ maxBytes)
    (fuel) :
    ∀ st n, st.Balanced → st.lru.len < fuel →
      (∃ older, st.lru.entries = older ++ [last]) →
      ∃ st' n', shrink maxBytes fuel st n = some (st', n') ∧ st'.Balanced ∧ st'.bytes ≤ maxBytes ∧
        st'.lru.cap = st.lru.cap ∧ st'.lru.entries <:+ st.lru.entries ∧ last ∈ st'.lru.entries := by
  induction fuel with
  | zero => exact fun st n _ h => absurd h (Nat.not_lt_zero _)
  | succ fuel ih =>
    intro st n hbal hfuel ⟨older, holder⟩
    unfold shrink
    split
    · rename_i hfits
      cases hpop : st.lru.popLru with
      | none =>
        have hnil := popLru_none hpop
        rw [holder] at hnil
        exact absurd hnil (by simp)
      | some popped =>
        obtain ⟨victim, lru⟩ := popped
        obtain ⟨hentries, hcap⟩ := entries_popLru hpop
        have hbytes : st.bytes = victim.2.bytes + retained lru.entries := by
          rw [hbal, hentries]
          rfl
        -- the last entry alone fits, so there is an older one to evict
        obtain ⟨older', holder'⟩ : ∃ older', lru.entries = older' ++ [last] := by
          cases older with
          | nil =>
            rw [hbal, holder] at hfits
            exact absurd hlast (by simpa [retained, entryBytes] using hfits)
          | cons first older' =>
            rw [holder, cons_append] at hentries
            exact ⟨older', (cons.inj hentries).2.symm⟩
        simp only
        rw [checkedSub_of_eq hbytes, bind_some]
        have hlen : lru.len < fuel := by
          unfold len at hfuel ⊢
          rw [hentries, length_cons] at hfuel
          omega
        obtain ⟨st', n', hrun, hbal', hmax, hcap', hsuffix, hmem⟩ :=
          ih ⟨lru, retained lru.entries⟩ (n + 1) rfl hlen ⟨older', holder'⟩
        refine ⟨st', n', hrun, hbal', hmax, hcap'.trans hcap, ?_, hmem⟩
        rw [hentries]
        exact hsuffix.trans (suffix_cons _ _)
    · rename_i hfits
      refine ⟨st, n, rfl, hbal, Nat.le_of_not_lt hfits, rfl, suffix_refl _, ?_⟩
      rw [holder]
      exact mem_append_right _ (mem_singleton_self _)

/-! ## The contents -/

/-- What holds of a cache whose entries were made by `encode` and sized by
`estimate`: the bounds, and that only successful and small results are stored. -/
structure Sound (config : TokenizerCacheConfig) {E : Type} (encode : K → Except E V)
    (estimate : K → V → Nat) (st : CacheState K V) : Prop where
  balanced : st.Balanced
  bytes_le : st.bytes ≤ config.maxBytes
  cap : st.lru.cap = config.maxEntries
  encoded : ∀ k e, (k, e) ∈ st.lru.entries →
    encode k = .ok e.encoding ∧ e.bytes = estimate k e.encoding
  small : ∀ k e, (k, e) ∈ st.lru.entries → e.bytes ≤ config.maxEntryBytes

section Sound

variable {config : TokenizerCacheConfig} {E : Type} {encode : K → Except E V}
  {estimate : K → V → Nat} {st : CacheState K V}

lemma Sound.len_le (h : Sound config encode estimate st) : st.lru.len ≤ config.maxEntries := by
  rw [← h.cap]
  exact st.lru.bounded

lemma Sound.sparse (hpos : 0 < config.maxEntries) :
    Sound config encode estimate ⟨sparse config.maxEntries hpos, 0⟩ :=
  ⟨rfl, Nat.zero_le _, rfl, nofun, nofun⟩

lemma Sound.clear (h : Sound config encode estimate st) : Sound config encode estimate st.clear :=
  ⟨rfl, Nat.zero_le _, h.cap, nofun, nofun⟩

variable [DecidableEq K]

/-- An insertion of an entry that fits returns; the entry stays. -/
lemma insert_spec (hbal : st.Balanced) {maxBytes bytes : Nat} (hfits : bytes ≤ maxBytes)
    (input : K) (encoding : V) :
    ∃ st' n, st.insert maxBytes input encoding bytes = some (st', n) ∧ st'.Balanced ∧
      st'.bytes ≤ maxBytes ∧ st'.lru.cap = st.lru.cap ∧
      (∀ e ∈ st'.lru.entries, e = (input, ⟨encoding, bytes⟩) ∨ e ∈ st.lru.entries) ∧
      (input, ⟨encoding, bytes⟩) ∈ st'.lru.entries := by
  have hperm := st.lru.perm_push input ⟨encoding, bytes⟩
  have hcap := st.lru.cap_push input ⟨encoding, bytes⟩
  have hnewest := st.lru.entries_push input ⟨encoding, bytes⟩
  unfold insert
  simp only
  generalize st.lru.push input ⟨encoding, bytes⟩ = pushed at hperm hcap hnewest ⊢
  obtain ⟨older, hentries⟩ := hnewest
  have hsum := retained_perm hperm
  rw [hentries, retained_append, retained_append, retained_singleton, retained_cons] at hsum
  -- the counter without what leaves is that of the older entries
  obtain ⟨n, hleft⟩ : ∃ n, dropOld st.bytes (st.lru.contains input) pushed.2
      = some (retained older, n) := by
    unfold dropOld
    cases hold : pushed.2 with
    | none =>
      rw [hold, toList_none, retained_nil, entryBytes] at hsum
      have hbytes : st.bytes = retained older := by
        rw [hbal]
        omega
      exact ⟨0, by rw [hbytes]⟩
    | some old =>
      rw [hold, toList_some, retained_singleton, entryBytes, entryBytes] at hsum
      have hbytes : st.bytes = old.2.bytes + retained older := by
        rw [hbal]
        omega
      refine ⟨if st.lru.contains input = true then 0 else 1, ?_⟩
      simp only [checkedSub_of_eq hbytes, map_some]
  rw [hleft, bind_some]
  have hpushed : Balanced ⟨pushed.1, retained older + bytes⟩ := by
    show retained older + bytes = retained pushed.1.entries
    rw [hentries, retained_append, retained_singleton]
    rfl
  obtain ⟨st', n', hrun, hbal', hmax, hcap', hsuffix, hmem⟩ :=
    @shrink_spec K V maxBytes (input, ⟨encoding, bytes⟩) hfits (pushed.1.len + 1) _ n hpushed
      (Nat.lt_succ_self _) ⟨older, hentries⟩
  refine ⟨st', n', hrun, hbal', hmax, hcap'.trans hcap, fun e he => ?_, hmem⟩
  have hin := hperm.mem_iff.1 (mem_append_right _ (hsuffix.subset he))
  exact mem_cons.1 hin

variable (h : Sound config encode estimate st)
include h

/-- A lookup changes the order of the entries only. -/
lemma Sound.lookup (input : K) :
    Sound config encode estimate (st.lookup input).1 := by
  have hperm := st.lru.perm_get input
  refine ⟨?_, h.bytes_le, ?_, fun k e he => ?_, fun k e he => ?_⟩
  · exact h.balanced.trans (retained_perm hperm).symm
  · exact (st.lru.cap_get input).trans h.cap
  · exact h.encoded k e (hperm.mem_iff.1 he)
  · exact h.small k e (hperm.mem_iff.1 he)

/-- A hit answers what `encode` answers. -/
lemma Sound.encode_of_lookup (hit : (st.lookup input).2 = some v) : encode input = .ok v := by
  unfold CacheState.lookup at hit
  rw [get_snd, Option.map_map, Option.map_eq_some_iff] at hit
  obtain ⟨⟨k, e⟩, hfind, rfl⟩ := hit
  obtain ⟨hmem, rfl⟩ := mem_of_find hfind
  exact (h.encoded k e hmem).1

/-- An insertion of a successful, small result returns and keeps its own entry. -/
lemma Sound.insert (hvalid : config.validate = .ok ()) (hv : encode input = .ok v)
    (hsmall : estimate input v ≤ config.maxEntryBytes) :
    ∃ st' n, st.insert config.maxBytes input v (estimate input v) = some (st', n) ∧
      Sound config encode estimate st' ∧
      st'.lru.find input = some (input, ⟨v, estimate input v⟩) := by
  obtain ⟨-, -, hmax⟩ := config.validate_ok_iff.1 hvalid
  obtain ⟨st', n, hrun, hbal, hbytes, hcap, hmem, hown⟩ :=
    insert_spec h.balanced (Nat.le_trans hsmall hmax) input v
  refine ⟨st', n, hrun, ⟨hbal, hbytes, hcap.trans h.cap, fun k e he => ?_, fun k e he => ?_⟩,
    find_of_mem hown⟩
  · rcases hmem _ he with heq | hold
    · cases heq
      exact ⟨hv, rfl⟩
    · exact h.encoded k e hold
  rcases hmem _ he with heq | hold
  · cases heq
    exact hsmall
  · exact h.small k e hold

end Sound

end CacheState

end Bytes

end VllmRouter.Tokenizer
