import Mathlib.Algebra.Order.BigOperators.Group.List
import Mathlib.Algebra.Order.Monoid.Prod
import Mathlib.Algebra.Order.Ring.Int
import VllmRouter.Lib.Fold
import VllmRouter.Lib.Machine
import VllmRouter.Lib.Sums
import VllmRouter.Tokenizer.EncodeCache

/-!
# Concurrent calls of the encode caches

The process holds any number of caches and one total of their occupancy, behind a
lock of its own. `get_or_encode` looks its input up in one section, encodes without
a lock and inserts in another section. A section that changes the occupancy of its
cache publishes the difference before it gives the lock of the cache back: between
the two, sections of other caches may run, but none of its own (`pending`).

A cache is dropped when nobody uses it, so not while one of its calls is in
progress. The encoder and the size estimate are functions of the cache and the
input: the tokenizer of a cache is deterministic.

`PromptEncoder` shares one cache among tokenizers, which it tells apart by an
instance number in the key.
-/

namespace VllmRouter.Tokenizer

open List Option

/-- What `get_or_encode` is given, for each cache and input. -/
structure EncodeEnv (K V E : Type) where
  encode : Nat → K → Except E V
  estimate : Nat → K → V → Nat

/-- The state of a `get_or_encode` of a cache. -/
inductive EncodeCall (K V E : Type) where
  | looking (cache : Nat) (input : K)
  | missed (cache : Nat) (input : K)
  | done (cache : Nat) (input : K) (result : Except E V)

/-- The call has not returned and uses the cache. -/
def EncodeCall.uses {K V E : Type} (i : Nat) : EncodeCall K V E → Bool
  | looking j _ => i = j
  | missed j _ => i = j
  | done .. => false

structure Occupancy where
  entries : Nat
  bytes : Nat
deriving DecidableEq, Repr

/-- `publish_occupancy_delta`: `saturating_add_signed` on both totals. -/
def Occupancy.publish (total : Occupancy) (delta : Int × Int) : Occupancy :=
  ⟨(total.entries + delta.1).toNat, (total.bytes + delta.2).toNat⟩

/-- A cache and the difference that the holder of its lock has still to publish. -/
structure LiveCache (K V : Type) where
  cache : EncodeCache K V
  pending : Option (Int × Int)

structure EncodeProcess (K V E : Type) where
  /-- a cache that was dropped is `none` -/
  caches : List (Option (LiveCache K V))
  calls : List (EncodeCall K V E)
  occupancy : Occupancy

inductive EncodeEvent (K : Type) where
  | create (config : TokenizerCacheConfig)
  /-- a `get_or_encode` is called -/
  | call (i : Nat) (input : K)
  | lookup (c : Nat)
  /-- the call encodes, and inserts a result that is not too large -/
  | finish (c : Nat)
  | clear (i : Nat)
  /-- the holder of the lock of the cache publishes and unlocks -/
  | publish (i : Nat)
  | drop (i : Nat)
deriving DecidableEq, Repr

namespace EncodeProcess

variable {K V E : Type} [DecidableEq K]

def init : EncodeProcess K V E := ⟨[], [], ⟨0, 0⟩⟩

/-- The live cache `i`. -/
def live (s : EncodeProcess K V E) (i : Nat) : Option (LiveCache K V) := s.caches[i]?.join

/-- The live cache `i`, when its lock is free. -/
def unlocked (s : EncodeProcess K V E) (i : Nat) : Option (EncodeCache K V) :=
  (s.live i).bind fun lc => if lc.pending.isNone then some lc.cache else none

/-- The difference between two states of a cache. -/
def delta (before after : CacheState K V) : Int × Int :=
  (after.lru.len - before.lru.len, after.bytes - before.bytes)

variable (s : EncodeProcess K V E) (c i : Nat) (input : K) (cache : EncodeCache K V)

def lookup : EncodeProcess K V E :=
  let found := cache.state.lookup input
  match found.2 with
  | some v =>
    { s with
      caches := s.caches.set i (some ⟨{ cache with state := found.1, hits := cache.hits + 1 },
        none⟩)
      calls := s.calls.set c (.done i input (.ok v)) }
  | none =>
    { s with
      caches := s.caches.set i
        (some ⟨{ cache with state := found.1, misses := cache.misses + 1 }, none⟩)
      calls := s.calls.set c (.missed i input) }

/-- The insertion of a result, which leaves the difference to be published. -/
def insert (v : V)
    (bytes : Nat) : Option (EncodeProcess K V E) :=
  (cache.state.insert cache.config.maxBytes input v bytes).map fun inserted =>
    { s with
      caches := s.caches.set i (some
        ⟨{ cache with state := inserted.1, evictions := cache.evictions + inserted.2 },
          some (delta cache.state inserted.1)⟩)
      calls := s.calls.set c (.done i input (.ok v)) }

/-- `get_or_encode` after the miss. A result that is too large is not stored. -/
def finish (env : EncodeEnv K V E) (s : EncodeProcess K V E) (c i : Nat) (input : K) :
    Option (EncodeProcess K V E) :=
  match s.live i with
  | none => some s
  | some lc =>
    match env.encode i input with
    | .error e => some { s with calls := s.calls.set c (.done i input (.error e)) }
    | .ok v =>
      if env.estimate i input v > lc.cache.config.maxEntryBytes then
        some { s with
          caches := s.caches.set i
            (some { lc with cache := { lc.cache with oversized := lc.cache.oversized + 1 } })
          calls := s.calls.set c (.done i input (.ok v)) }
      else if lc.pending.isNone then s.insert c i input lc.cache v (env.estimate i input v)
      else some s

/-- One section. `none` is a subtraction that underflows; a section that cannot
run, because its lock is held or its turn has not come, changes nothing. -/
def step (env : EncodeEnv K V E) (s : EncodeProcess K V E) :
    EncodeEvent K → Option (EncodeProcess K V E)
  | .create config => match EncodeCache.new config with
    | .error _ => some s
    | .ok cache => some { s with caches := s.caches ++ [some ⟨cache, none⟩] }
  | .call i input => match s.live i with
    | some _ => some { s with calls := s.calls ++ [.looking i input] }
    | none => some s
  | .lookup c => match s.calls[c]? with
    | some (.looking i input) => match s.unlocked i with
      | some cache => some (s.lookup c i input cache)
      | none => some s
    | _ => some s
  | .finish c => match s.calls[c]? with
    | some (.missed i input) => s.finish env c i input
    | _ => some s
  | .clear i => match s.unlocked i with
    | some cache => some { s with
        caches := s.caches.set i (some ⟨{ cache with state := cache.state.clear },
          some (delta cache.state cache.state.clear)⟩) }
    | none => some s
  | .publish i => match s.live i with
    | some ⟨cache, some d⟩ => some { s with
        caches := s.caches.set i (some ⟨cache, none⟩)
        occupancy := s.occupancy.publish d }
    | _ => some s
  | .drop i => match s.unlocked i with
    | some cache =>
      if s.calls.any (EncodeCall.uses i) then some s
      else some { s with
        caches := s.caches.set i none
        occupancy := s.occupancy.publish (-cache.state.lru.len, -cache.state.bytes) }
    | none => some s

def run (env : EncodeEnv K V E) (es : List (EncodeEvent K)) : Option (EncodeProcess K V E) :=
  es.foldlM (step env) init

/-! ## What the caches are for -/

/-- The occupancy of the live caches. -/
def occupied (caches : List (Option (LiveCache K V))) : Occupancy :=
  let live := caches.filterMap fun lc => lc.map LiveCache.cache
  ⟨(live.map fun cache => cache.state.lru.len).sum, (live.map fun cache => cache.state.bytes).sum⟩

/-- What the process shows of its caches. -/
structure Transparent (env : EncodeEnv K V E) (s : EncodeProcess K V E) : Prop where
  /-- a call returns what encoding its input returns -/
  results : ∀ i input r, .done i input r ∈ s.calls → env.encode i input = r
  counted : ∀ i lc, s.live i = some lc →
    lc.cache.state.bytes = retained lc.cache.state.lru.entries
  bounded : ∀ i lc, s.live i = some lc → lc.cache.state.bytes ≤ lc.cache.config.maxBytes ∧
    lc.cache.state.lru.len ≤ lc.cache.config.maxEntries
  /-- an entry holds the result of a successful encoding that is not too large -/
  stored : ∀ i lc, s.live i = some lc → ∀ k e, (k, e) ∈ lc.cache.state.lru.entries →
    env.encode i k = .ok e.encoding ∧ e.bytes = env.estimate i k e.encoding ∧
      e.bytes ≤ lc.cache.config.maxEntryBytes
  /-- the section that inserts an entry does not evict it -/
  ownEntry : ∀ c i input cache v, s.calls[c]? = some (.missed i input) →
    s.unlocked i = some cache → env.encode i input = .ok v →
    env.estimate i input v ≤ cache.config.maxEntryBytes →
    ∃ s' lc, s.step env (.finish c) = some s' ∧ s'.live i = some lc ∧
      lc.cache.state.lru.find input = some (input, ⟨v, env.estimate i input v⟩)
  /-- while nobody has still to publish, the total is the sum over the live caches -/
  occupancy : (∀ i lc, s.live i = some lc → lc.pending = none) → s.occupancy = occupied s.caches

/-! ## The published occupancy -/

/-- What a cache contributes to the total. -/
def published : Option (LiveCache K V) → Int × Int
  | none => 0
  | some lc => (↑lc.cache.state.lru.len, ↑lc.cache.state.bytes) - lc.pending.getD 0

end EncodeProcess

def Occupancy.pair (total : Occupancy) : Int × Int := (total.entries, total.bytes)

variable {total : Occupancy} {d : Int × Int}

lemma Occupancy.eq_of_pair (h : total.pair = total'.pair) : total = total' := by
  obtain ⟨entries, bytes⟩ := total
  obtain ⟨entries', bytes'⟩ := total'
  obtain ⟨hentries, hbytes⟩ := Prod.mk.inj h
  obtain rfl : entries = entries' := Int.natCast_inj.1 hentries
  obtain rfl : bytes = bytes' := Int.natCast_inj.1 hbytes
  rfl

/-- Published totals that do not become negative are not clipped. -/
lemma Occupancy.pair_publish (h : 0 ≤ total.pair + d) :
    (total.publish d).pair = total.pair + d := by
  obtain ⟨hentries, hbytes⟩ := Prod.mk_le_mk.1 h
  exact Prod.ext (Int.toNat_of_nonneg hentries) (Int.toNat_of_nonneg hbytes)

namespace EncodeProcess

variable {K V E : Type} {env : EncodeEnv K V E} {s : EncodeProcess K V E}

structure Sound (env : EncodeEnv K V E) (s : EncodeProcess K V E) : Prop where
  caches : ∀ i lc, s.live i = some lc →
    lc.cache.state.Sound lc.cache.config (env.encode i) (env.estimate i)
  results : ∀ i input r, .done i input r ∈ s.calls → env.encode i input = r
  nonneg : ∀ o ∈ s.caches, 0 ≤ published o
  total : s.occupancy.pair = (s.caches.map published).sum

lemma sound_init : Sound env (init : EncodeProcess K V E) := ⟨nofun, nofun, nofun, rfl⟩

lemma live_eq_some : s.live i = some lc ↔ s.caches[i]? = some (some lc) := by
  unfold live
  rw [join_eq_some_iff]

lemma unlocked_eq_some : s.unlocked i = some cache ↔ s.live i = some ⟨cache, none⟩ := by
  unfold unlocked
  rw [bind_eq_some_iff]
  constructor
  · rintro ⟨⟨_, pending⟩, hlive, hnone⟩
    cases pending with
    | none =>
      cases hnone
      exact hlive
    | some => cases hnone
  · intro hlive
    exact ⟨_, hlive, rfl⟩

/-- When nobody has still to publish, the caches contribute what they hold. -/
lemma sum_published {caches : List (Option (LiveCache K V))}
    (h : ∀ lc, some lc ∈ caches → lc.pending = none) :
    (caches.map published).sum = (occupied caches).pair := by
  induction caches with
  | nil => rfl
  | cons o _ ih =>
    have ih := ih fun lc hlc => h lc (mem_cons_of_mem _ hlc)
    rw [map_cons, sum_cons, ih]
    cases o with
    | none => exact zero_add _
    | some lc =>
      have hnone := h lc mem_cons_self
      simp [published, hnone, sub_zero, occupied, Occupancy.pair, sum_cons]

/-- A section that replaces one cache and publishes the change of its contribution. -/
lemma Sound.replace (h : Sound env s) (hlive : s.live i = some lc)
    {calls : List (EncodeCall K V E)} (hsound : ∀ lc', o = some lc' →
      lc'.cache.state.Sound lc'.cache.config (env.encode i) (env.estimate i))
    (hresults : ∀ i input r, .done i input r ∈ calls → env.encode i input = r)
    (hnonneg : 0 ≤ published o)
    (htotal : total.pair + published (some lc) = s.occupancy.pair + published o) :
    Sound env ⟨s.caches.set i o, calls, total⟩ := by
  have hget := live_eq_some.1 hlive
  refine ⟨fun j lc' hj => ?_, hresults, forall_mem_set h.nonneg hnonneg, ?_⟩
  · rcases getElem?_set_cases (live_eq_some.1 hj) with ⟨rfl, heq⟩ | ⟨-, hold⟩
    · exact hsound lc' heq.symm
    · exact h.caches j lc' (live_eq_some.2 hold)
  have hsum := sum_map_set published (b := o) hget
  rw [← h.total, ← htotal] at hsum
  exact (add_right_cancel hsum).symm

/-- The total that is published is the sum of the contributions. -/
lemma Sound.pair_publish (h : Sound env s) (hlive : s.live i = some lc)
    {o : Option (LiveCache K V)} (hnonneg : 0 ≤ published o)
    (hd : published (some lc) + d = published o) :
    (s.occupancy.publish d).pair + published (some lc) = s.occupancy.pair + published o := by
  have hsum := sum_map_set published (b := o) (live_eq_some.1 hlive)
  have hpos : 0 ≤ ((s.caches.set i o).map published).sum := by
    refine sum_nonneg fun x hx => ?_
    obtain ⟨o', ho', rfl⟩ := mem_map.1 hx
    exact forall_mem_set h.nonneg hnonneg o' ho'
  rw [← h.total, ← hd, add_comm (published (some lc)), ← add_assoc] at hsum
  rw [add_right_cancel hsum] at hpos
  rw [Occupancy.pair_publish hpos, ← hd, add_comm (published (some lc)), add_assoc]

lemma published_nonneg_of_unlocked (cache : EncodeCache K V) :
    0 ≤ published (some ⟨cache, none⟩) := by
  simp only [published, getD_none, sub_zero]
  exact Prod.mk_le_mk.2 ⟨Int.natCast_nonneg _, Int.natCast_nonneg _⟩

lemma published_congr (hlen : cache'.state.lru.len = cache.state.lru.len)
    (hbytes : cache'.state.bytes = cache.state.bytes) :
    published (some ⟨cache', pending⟩) = published (some ⟨cache, pending⟩) := by
  simp [published, hlen, hbytes]

/-- A section that leaves its difference to be published does not change what is
published. -/
lemma published_delta (cache : EncodeCache K V) (after : EncodeCache K V) :
    published (some ⟨after, some (delta cache.state after.state)⟩)
      = published (some ⟨cache, none⟩) := by
  simp only [published, delta, getD_some, getD_none, sub_zero]
  refine Prod.ext ?_ ?_
  · exact sub_sub_cancel _ _
  · exact sub_sub_cancel _ _

section

variable (h : Sound env s)
include h

/-- The section of a cache does not change what is published. -/
lemma Sound.section_ (hlive : s.live i = some lc)
    (hpublished : published (some lc') = published (some lc))
    (hsound : lc'.cache.state.Sound lc'.cache.config (env.encode i) (env.estimate i))
    {calls : List (EncodeCall K V E)}
    (hresults : ∀ i input r, .done i input r ∈ calls → env.encode i input = r) :
    Sound env ⟨s.caches.set i (some lc'), calls, s.occupancy⟩ := by
  refine h.replace hlive ?_ hresults ?_ (by rw [hpublished])
  · intro _ heq
    cases heq
    exact hsound
  · rw [hpublished]
    exact h.nonneg _ (mem_of_getElem? (live_eq_some.1 hlive))

/-- A call returns what encoding its input returns. -/
lemma Sound.results_set (hr : env.encode i input = r) : ∀ j input' r',
      .done j input' r' ∈ s.calls.set c (.done i input r) → env.encode j input' = r' := by
  intro j input' r' hmem
  rcases mem_or_eq_of_mem_set hmem with hold | heq
  · exact h.results j input' r' hold
  · cases heq
    exact hr

lemma Sound.create (hnew : EncodeCache.new config = .ok cache) :
    Sound env { s with caches := s.caches ++ [some ⟨cache, none⟩] } := by
  -- a new cache is empty
  obtain ⟨hvalid, rfl⟩ : ∃ hvalid : config.validate = .ok (), cache = ⟨config, hvalid,
      ⟨Lru.sparse config.maxEntries (config.validate_ok_iff.1 hvalid).1, 0⟩, 0, 0, 0, 0⟩ := by
    unfold EncodeCache.new at hnew
    split at hnew
    · cases hnew
    · rename_i hvalid
      exact ⟨hvalid, (Except.ok.inj hnew).symm⟩
  have hzero : ∀ c : EncodeCache K V, c.state.lru.len = 0 → c.state.bytes = 0 →
      published (some ⟨c, none⟩) = 0 := by
    intro c hlen hbytes
    simp only [published, hlen, hbytes, getD_none, sub_zero]
    rfl
  refine ⟨fun j lc hj => ?_, h.results, fun o ho => ?_, ?_⟩
  · rcases getElem?_append_cases (live_eq_some.1 hj) with hold | ⟨n, hn, hnew⟩
    · exact h.caches j lc (live_eq_some.2 hold)
    match n with
    | 0 =>
      cases hnew
      exact CacheState.Sound.sparse _
  · rcases mem_append.1 ho with hold | hnew
    · exact h.nonneg o hold
    · rw [mem_singleton.1 hnew, hzero _ rfl rfl]
  · rw [map_append, sum_append, map_singleton, sum_singleton, hzero _ rfl rfl, add_zero]
    exact h.total

lemma Sound.publish (hlive : s.live i = some ⟨cache, some d⟩) :
    Sound env { s with
      caches := s.caches.set i (some ⟨cache, none⟩), occupancy := s.occupancy.publish d } := by
  have hd : published (some ⟨cache, some d⟩) + d = published (some ⟨cache, none⟩) := by
    simp [published, sub_zero, sub_add_cancel]
  have hnonneg := published_nonneg_of_unlocked cache
  refine h.replace hlive ?_ h.results hnonneg (h.pair_publish hlive hnonneg hd)
  intro lc heq
  cases heq
  exact h.caches i ⟨cache, some d⟩ hlive

lemma Sound.drop (hlive : s.live i = some ⟨cache, none⟩) : Sound env { s with
      caches := s.caches.set i none
      occupancy := s.occupancy.publish (-cache.state.lru.len, -cache.state.bytes) } := by
  have hd : published (some ⟨cache, none⟩) + (-(cache.state.lru.len : Int),
    -(cache.state.bytes : Int))
      = published (none : Option (LiveCache K V)) := by
    simp only [published, getD_none, sub_zero]
    exact Prod.ext (add_neg_cancel _) (add_neg_cancel _)
  refine h.replace hlive ?_ h.results le_rfl (h.pair_publish hlive le_rfl hd)
  intro lc heq
  cases heq

end

variable [DecidableEq K]

lemma Sound.lookup (h : Sound env s) (hunlocked : s.unlocked i = some cache) :
    Sound env (s.lookup c i input cache) := by
  have hlive := unlocked_eq_some.1 hunlocked
  have hsound := h.caches i _ hlive
  have hlen : (cache.state.lookup input).1.lru.len = cache.state.lru.len :=
    (cache.state.lru.perm_get input).length_eq
  unfold EncodeProcess.lookup
  simp only
  split
  · rename_i v hit
    refine h.section_ hlive ?_ (hsound.lookup input) (h.results_set ?_)
    · exact published_congr hlen rfl
    · exact hsound.encode_of_lookup hit
  refine h.section_ hlive ?_ (hsound.lookup input) fun j input' r hmem => ?_
  · exact published_congr hlen rfl
  rcases mem_or_eq_of_mem_set hmem with hold | heq
  · exact h.results j input' r hold
  · cases heq

/-- An insertion returns, and its entry is in the cache afterwards. -/
lemma Sound.insert (h : Sound env s)
    (hlive : s.live i = some ⟨cache, none⟩) (hv : env.encode i input = .ok v)
    (hsmall : env.estimate i input v ≤ cache.config.maxEntryBytes) :
    ∃ s' lc, s.insert c i input cache v (env.estimate i input v) = some s' ∧ Sound env s' ∧
      s'.live i = some lc ∧
      lc.cache.state.lru.find input = some (input, ⟨v, env.estimate i input v⟩) := by
  obtain ⟨st, n, hrun, hsound, hfind⟩ := (h.caches i _ hlive).insert cache.valid hv hsmall
  unfold EncodeProcess.insert
  rw [hrun]
  refine ⟨_, ⟨{ cache with state := st, evictions := cache.evictions + n },
    some (delta cache.state st)⟩, rfl, ?_, ?_, hfind⟩
  · exact h.section_ hlive (published_delta cache _) hsound (h.results_set hv)
  · refine live_eq_some.2 ?_
    rw [List.getElem?_set_self (List.getElem?_eq_some_iff.1 (live_eq_some.1 hlive)).1]

lemma Sound.finish (h : Sound env s) (c i) (input : K) :
    ∃ s', s.finish env c i input = some s' ∧ Sound env s' := by
  unfold EncodeProcess.finish
  cases hlive : s.live i with
  | none => exact ⟨s, rfl, h⟩
  | some lc =>
    cases hencode : env.encode i input with
    | error => exact ⟨_, rfl, h.caches, h.results_set hencode, h.nonneg, h.total⟩
    | ok v =>
      by_cases hlarge : env.estimate i input v > lc.cache.config.maxEntryBytes
      · simp only [if_pos hlarge]
        refine ⟨_, rfl, h.section_ hlive ?_ ?_ (h.results_set hencode)⟩
        · rfl
        · exact h.caches i lc hlive
      simp only [if_neg hlarge]
      obtain ⟨_, pending⟩ := lc
      cases pending with
      | some => exact ⟨s, rfl, h⟩
      | none =>
        obtain ⟨s', -, hrun, hsound, -⟩ := h.insert hlive hencode (Nat.le_of_not_lt hlarge)
        exact ⟨s', hrun, hsound⟩

/-- Every section returns, and keeps the process sound. -/
lemma Sound.step (h : Sound env s) (e) :
    ∃ s', s.step env e = some s' ∧ Sound env s' := by
  cases e with
  | create =>
    simp only [EncodeProcess.step]
    split
    · exact ⟨s, rfl, h⟩
    · rename_i hnew
      exact ⟨_, rfl, h.create hnew⟩
  | call i input =>
    simp only [EncodeProcess.step]
    split
    · refine ⟨_, rfl, h.caches, fun j input' r hmem => ?_, h.nonneg, h.total⟩
      rcases mem_append.1 hmem with hold | hnew
      · exact h.results j input' r hold
      · cases mem_singleton.1 hnew
    · exact ⟨s, rfl, h⟩
  | lookup =>
    simp only [EncodeProcess.step]
    split
    · split
      · rename_i hunlocked
        exact ⟨_, rfl, h.lookup hunlocked⟩
      · exact ⟨s, rfl, h⟩
    · exact ⟨s, rfl, h⟩
  | finish c =>
    simp only [EncodeProcess.step]
    split
    · exact h.finish c _ _
    · exact ⟨s, rfl, h⟩
  | clear i =>
    simp only [EncodeProcess.step]
    split
    · rename_i cache hunlocked
      have hlive := unlocked_eq_some.1 hunlocked
      exact ⟨_, rfl, h.section_ hlive (published_delta cache _) (h.caches i _ hlive).clear
        h.results⟩
    · exact ⟨s, rfl, h⟩
  | publish =>
    simp only [EncodeProcess.step]
    split
    · rename_i hlive
      exact ⟨_, rfl, h.publish hlive⟩
    · exact ⟨s, rfl, h⟩
  | drop =>
    simp only [EncodeProcess.step]
    split
    · rename_i hunlocked
      split
      · exact ⟨s, rfl, h⟩
      · exact ⟨_, rfl, h.drop (unlocked_eq_some.1 hunlocked)⟩
    · exact ⟨s, rfl, h⟩

lemma run_sound (env : EncodeEnv K V E) (es : List (EncodeEvent K)) :
    ∃ s, run env es = some s ∧ Sound env s :=
  foldlM_rule (P := fun _ s => Sound env s) (l := es) (fun _ e _ _ _ h => h.step e) es [] init rfl
    sound_init

/-! ## What a sound process shows -/

lemma Sound.transparent (h : Sound env s) : Transparent env s where
  results := h.results
  counted := fun i lc hlive => (h.caches i lc hlive).balanced
  bounded := fun i lc hlive => ⟨(h.caches i lc hlive).bytes_le, (h.caches i lc hlive).len_le⟩
  stored := by
    intro i lc hlive k e hmem
    have hsound := h.caches i lc hlive
    exact ⟨(hsound.encoded k e hmem).1, (hsound.encoded k e hmem).2, hsound.small k e hmem⟩
  ownEntry := by
    intro c _ _ _ _ hcall hunlocked hv hsmall
    have hlive := unlocked_eq_some.1 hunlocked
    obtain ⟨s', lc, hrun, -, hlive', hfind⟩ := h.insert hlive hv hsmall (c := c)
    refine ⟨s', lc, ?_, hlive', hfind⟩
    simp only [EncodeProcess.step, hcall, EncodeProcess.finish, hlive, hv,
      if_neg (Nat.not_lt.2 hsmall)]
    exact hrun
  occupancy := by
    intro hpending
    refine Occupancy.eq_of_pair (h.total.trans (sum_published fun lc hlc => ?_))
    obtain ⟨i, hi⟩ := mem_iff_getElem?.1 hlc
    exact hpending i lc (live_eq_some.2 hi)

/-- Every interleaving of the sections returns, and what it shows is as if there
were no cache; the caches stay within their bounds and the totals are exact. -/
theorem run_transparent (env : EncodeEnv K V E) (es : List (EncodeEvent K)) :
    ∃ s, run env es = some s ∧ Transparent env s := by
  obtain ⟨s, hrun, hsound⟩ := run_sound env es
  exact ⟨s, hrun, hsound.transparent⟩

end EncodeProcess

/-! ## The prompt encoder (`backend/encode_cache.rs`) -/

/-- The key of a prompt: two encoders never share an entry. -/
structure EncodingKey where
  inst : Nat
  addSpecialTokens : Bool
  cacheSalt : Option String
  text : String
deriving DecidableEq, Repr

inductive Prompt where
  | tokenIds (ids : List UInt32)
  | text (text : String)
deriving DecidableEq, Repr

/-- A tokenizer of the frontend: the text and whether special tokens are added. -/
abbrev DynTokenizer (E : Type) := String → Bool → Except E (List UInt32)

structure PromptEncoder (E : Type) where
  tokenizer : DynTokenizer E
  /-- the frontend cache, when there is one -/
  cache : Option Nat
  inst : Nat

namespace PromptEncoder

variable {E : Type}

/-- The encoder that `new` makes when `next` instances were made before it. The
counter is a `u64` in the source and does not wrap here. -/
def new (next : Nat) (tokenizer : DynTokenizer E) (cache : Option Nat) : PromptEncoder E × Nat :=
  (⟨tokenizer, cache, next⟩, next + 1)

/-- The answer of `encode`, or the `get_or_encode` that gives it. -/
inductive Answer (E : Type) where
  | done (result : Except E (List UInt32))
  | cached (cache : Nat) (key : EncodingKey)

def encode (enc : PromptEncoder E) (prompt : Prompt) (addSpecialTokens : Bool)
    (cacheSalt : Option String) : Answer E :=
  match prompt with
  | .tokenIds ids => .done (.ok ids)
  | .text text => match enc.cache with
    | none => .done (enc.tokenizer text addSpecialTokens)
    | some i => .cached i ⟨enc.inst, addSpecialTokens, cacheSalt, text⟩

/-- What the encoder answers without a cache. -/
def uncached (enc : PromptEncoder E) (prompt : Prompt) (addSpecialTokens : Bool) :
    Except E (List UInt32) :=
  match prompt with
  | .tokenIds ids => .ok ids
  | .text text => enc.tokenizer text addSpecialTokens

/-- The size of an entry: its overhead, the texts of the key, the shared slice with
its two counters, and the ids. -/
def estimate (overhead : Nat) (key : EncodingKey) (ids : List UInt32) : Nat :=
  overhead + key.text.utf8ByteSize + (key.cacheSalt.map String.utf8ByteSize).getD 0 + 16 + 2 * 8 +
    ids.length * 4

/-- The frontend's calls when the `n`-th encoder was made for `tokenizers n`. -/
def frontendEnv (tokenizers : Nat → DynTokenizer E) (overhead : Nat) :
    EncodeEnv EncodingKey (List UInt32) E where
  encode := fun _ key => tokenizers key.inst key.text key.addSpecialTokens
  estimate := fun _ => estimate overhead

/-- Through the shared cache an encoder answers what its own tokenizer answers. -/
theorem encode_eq_tokenizer (tokenizers : Nat → DynTokenizer E) (overhead : Nat)
    (es : List (EncodeEvent EncodingKey)) :
    ∃ s, EncodeProcess.run (frontendEnv tokenizers overhead) es = some s ∧
      ∀ n cache prompt addSpecialTokens salt, let enc := (new n (tokenizers n) cache).1
        match enc.encode prompt addSpecialTokens salt with
        | .done r => r = enc.uncached prompt addSpecialTokens
        | .cached i key => ∀ r, .done i key r ∈ s.calls → r = enc.uncached prompt
          addSpecialTokens := by
  obtain ⟨s, hrun, hsound⟩ := EncodeProcess.run_sound (frontendEnv tokenizers overhead) es
  refine ⟨s, hrun, fun _ cache prompt _ _ => ?_⟩
  cases prompt with
  | tokenIds => rfl
  | text =>
    cases cache with
    | none => rfl
    | some i => exact fun r hr => (hsound.results i _ r hr).symm

end PromptEncoder

end VllmRouter.Tokenizer
