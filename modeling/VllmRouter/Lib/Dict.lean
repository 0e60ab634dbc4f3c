import Mathlib.Algebra.Order.BigOperators.Group.Finset
import Mathlib.Data.List.AList

/-!
# Finite dictionaries

The hash maps of the router are association lists with pairwise distinct keys
(Mathlib's `AList`). This module adds the in-place operations a program
performs on a map (`modify`, `upsert`, `mapVal`, `retain`), each with the
lemma that says what a lookup sees afterwards. A program reads a dictionary
through `AList.lookup`, so no proof depends on the entry order.
-/

namespace VllmRouter

open List AList

/-- A finite map from `K` to `V`. -/
abbrev Dict (K V : Type) := AList (fun _ : K => V)

namespace Dict

variable {K V : Type} [DecidableEq K]

variable (m : Dict K V)

/-- Update the value stored under `k`, if there is one (`get_mut`). -/
def modify (k : K) (f : V → V) : Dict K V :=
  match m.lookup k with
  | some v => m.insert k (f v)
  | none => m

/-- Update the value under `k`, starting from `d` when it is absent
(`entry(k).or_insert(d)` followed by a mutation). -/
def upsert (k : K) (d : V) (f : V → V) : Dict K V :=
  m.insert k (f ((m.lookup k).getD d))

/-- Apply `f` to every value (`values_mut`). -/
def mapVal (f : V → V) : Dict K V where
  entries := m.entries.map fun e => ⟨e.1, f e.2⟩
  nodupKeys := by
    have h := m.nodupKeys
    rw [nodupKeys_iff_pairwise] at h ⊢
    rw [pairwise_map]
    exact h

/-- Keep the entries whose key satisfies `p` (`retain`). -/
def retain (p : K → V → Bool) : Dict K V where
  entries := m.entries.filter fun e => p e.1 e.2
  nodupKeys := by
    have h := m.nodupKeys
    rw [nodupKeys_iff_pairwise] at h ⊢
    exact h.filter _

/-- The values in entry order. -/
def values : List V := m.entries.map Sigma.snd

@[grind =] lemma lookup_insert_eq (k k' : K) (v : V) :
    (m.insert k v).lookup k' = if k' = k then some v else m.lookup k' := by
  split
  · rename_i h
    subst h
    exact lookup_insert m
  · rename_i h
    exact lookup_insert_ne h

@[grind =] lemma lookup_erase_eq (k k' : K) :
    (m.erase k).lookup k' = if k' = k then none else m.lookup k' := by
  split
  · rename_i h
    subst h
    exact lookup_erase k' m
  · rename_i h
    exact lookup_erase_ne h

@[grind =] lemma lookup_modify (k k' : K) (f : V → V) :
    (m.modify k f).lookup k' = if k' = k then (m.lookup k).map f else m.lookup k' := by
  unfold modify
  cases h : m.lookup k with
  | none =>
    by_cases hk : k' = k
    · subst hk
      simp [h]
    · simp [hk]
  | some v =>
    show (m.insert k (f v)).lookup k' = _
    rw [lookup_insert_eq]
    rfl

@[grind =] lemma lookup_upsert (k k' : K) (d : V) (f : V → V) : (m.upsert k d f).lookup k'
      = if k' = k then some (f ((m.lookup k).getD d)) else m.lookup k' :=
  lookup_insert_eq m k k' _

@[grind =] lemma lookup_mapVal (f : V → V) (k : K) : (m.mapVal f).lookup k = (m.lookup k).map f :=
  dlookup_map₂ (f := fun _ => f) k

lemma mem_entries_iff (k : K) (v : V) :
    (⟨k, v⟩ : Sigma fun _ => V) ∈ m.entries ↔ m.lookup k = some v :=
  (mem_lookup_iff (s := m)).symm

@[grind =] lemma lookup_retain (p : K → V → Bool) (k : K) :
    (m.retain p).lookup k = (m.lookup k).filter (p k) := by
  refine Option.ext fun v => ?_
  have hmem : (m.retain p).lookup k = some v ↔ m.lookup k = some v ∧ p k v = true := by
    rw [← mem_entries_iff, ← mem_entries_iff]
    exact mem_filter
  rw [hmem, Option.filter_eq_some_iff]

lemma mem_values_iff (v : V) : v ∈ m.values ↔ ∃ k, m.lookup k = some v := by
  unfold values
  rw [mem_map]
  constructor
  · rintro ⟨⟨k, w⟩, he, rfl⟩
    exact ⟨k, (mem_entries_iff m k w).1 he⟩
  · rintro ⟨k, h⟩
    exact ⟨⟨k, v⟩, (mem_entries_iff m k v).2 h, rfl⟩

lemma mem_keys_iff (k : K) : k ∈ m.keys ↔ ∃ v, m.lookup k = some v := by
  rw [← AList.mem_keys, ← AList.lookup_isSome, Option.isSome_iff_exists]

lemma entries_eq_nil_iff : m.entries = [] ↔ ∀ k, m.lookup k = none := by
  constructor
  · intro h k
    unfold AList.lookup
    rw [h]
    rfl
  intro h
  cases he : m.entries with
  | nil => rfl
  | cons e l =>
    have hmem : e ∈ m.entries := by
      rw [he]
      exact mem_cons_self
    have hlookup := (mem_entries_iff m e.1 e.2).1 hmem
    rw [h] at hlookup
    cases hlookup

/-- A value that is stored under one key only occurs once. -/
lemma nodup_values {m : Dict K V}
    (h : ∀ k k' v, m.lookup k = some v → m.lookup k' = some v → k = k') : m.values.Nodup := by
  have hkeys := nodupKeys_iff_pairwise.1 m.nodupKeys
  unfold values List.Nodup
  rw [pairwise_map]
  refine hkeys.imp_of_mem fun {e e'} he he' hne heq => hne ?_
  exact h e.1 e'.1 e.2 ((mem_entries_iff m e.1 e.2).1 he)
    (heq ▸ (mem_entries_iff m e'.1 e'.2).1 he')

lemma entries_perm_erase {m : Dict K V} {k : K} {v : V} (h : m.lookup k = some v) :
    m.entries.Perm (⟨k, v⟩ :: (erase k m).entries) := by
  obtain ⟨v', l1, l2, -, hentries, herase⟩ := exists_of_kerase ((mem_keys_iff m k).2 ⟨v, h⟩)
  have hlookup : m.lookup k = some v' := (mem_entries_iff m k v').1 (by rw [hentries]; simp)
  obtain rfl := Option.some.inj (h.symm.trans hlookup)
  show m.entries.Perm (⟨k, v⟩ :: m.entries.kerase k)
  rw [herase, hentries]
  exact perm_middle

lemma length_keys_erase {m : Dict K V} {k : K} {v : V} (h : m.lookup k = some v) :
    (erase k m).keys.length + 1 = m.keys.length := by
  have hmem : k ∈ m.keys := (mem_keys_iff m k).2 ⟨v, h⟩
  rw [keys_erase, length_erase_of_mem hmem]
  have := length_pos_of_mem hmem
  omega

/-- Creating missing entries with the default value is not seen through it. -/
lemma getD_foldl_upsert (ks : List K) (d : V) (k : K) :
    ∀ m : Dict K V, (((ks.foldl (fun m k => m.upsert k d id) m).lookup k).getD d)
      = (m.lookup k).getD d := by
  induction ks with
  | nil => exact fun m => rfl
  | cons first ks ih =>
    intro m
    rw [foldl_cons, ih, lookup_upsert]
    split
    · rename_i hk
      rw [hk]
      rfl
    · rfl

/-- A loop whose body settles one key at a time settles all of them. -/
lemma lookup_foldl {step : Dict K V → K → Dict K V} {r : Option V} {k : K}
    (hstep : ∀ m k', (step m k').lookup k = if k = k' then r else m.lookup k) (ks : List K) :
    ∀ m, (ks.foldl step m).lookup k = if k ∈ ks then r else m.lookup k := by
  induction ks with
  | nil => exact fun m => by simp
  | cons k' ks ih =>
    intro m
    rw [foldl_cons, ih, hstep]
    by_cases hk : k = k'
    · simp [hk]
    · simp [hk]

lemma lookup_foldl_insert (v : V) (ks : List K) (k : K) (m : Dict K V) :
    (ks.foldl (fun m k => m.insert k v) m).lookup k = if k ∈ ks then some v else m.lookup k :=
  lookup_foldl (fun m k' => lookup_insert_eq m k' k v) ks m

@[grind =] lemma lookup_foldl_erase (ks : List K) (k : K) (m : Dict K V) :
    (ks.foldl (fun m k => m.erase k) m).lookup k = if k ∈ ks then none else m.lookup k :=
  lookup_foldl (fun m k' => lookup_erase_eq m k' k) ks m

/-! ## Sums over the values -/

/-- The sum of `f` over the values. -/
def total {M : Type} [AddCommMonoid M] (f : V → M) : M := (m.values.map f).sum

variable {M : Type} [AddCommMonoid M] (f : V → M)

lemma sum_kerase (k : K) (l : List (Sigma fun _ => V)) :
    ((l.kerase k).map fun e => f e.2).sum + ((l.dlookup k).map f).getD 0
      = (l.map fun e => f e.2).sum := by
  induction l with
  | nil => exact add_zero _
  | cons e rest ih =>
    obtain ⟨k', v⟩ := e
    by_cases h : k = k'
    · subst h
      rw [show kerase k (⟨k, v⟩ :: rest) = rest from kerase_cons_eq rfl, dlookup_cons_eq]
      exact add_comm _ _
    · rw [kerase_cons_ne h, dlookup_cons_ne _ _ h, map_cons, map_cons,
        sum_cons, sum_cons, add_assoc, ih]

omit [DecidableEq K] in
lemma total_eq_sum : m.total f = (m.entries.map fun e => f e.2).sum := by
  unfold total values
  rw [map_map]
  rfl

lemma total_erase (k : K) :
    Dict.total (m.erase k) f + ((m.lookup k).map f).getD 0 = m.total f := by
  rw [total_eq_sum, total_eq_sum]
  exact sum_kerase f k m.entries

lemma total_insert (k : K) (v : V) :
    Dict.total (m.insert k v) f + ((m.lookup k).map f).getD 0 = m.total f + f v := by
  have hsplit : Dict.total (m.insert k v) f = f v + Dict.total (m.erase k) f := by rfl
  rw [hsplit, add_assoc, total_erase, add_comm]

end Dict

end VllmRouter
