import Mathlib.Data.List.Nodup

/-!
# Recency-ordered maps of fixed capacity

A map of at most `cap` entries in the order of their last use, least recent first.
A read moves the entry to the end; a write puts it there and answers the entry it
replaced or, when the map is full, the least recent one, which leaves. That keys
are distinct and the capacity is respected is part of the type.

What the operations do to the contents is said by permutations (`perm_get`,
`perm_push`, `entries_popLru`), so that any total over the entries can be followed
through them.
-/

namespace VllmRouter

open List

structure Lru (K V : Type) where
  cap : Nat
  /-- least recently used first -/
  entries : List (K × V)
  capPos : 0 < cap
  nodup : (entries.map Prod.fst).Nodup
  bounded : entries.length ≤ cap

namespace Lru

variable {K V : Type}

/-- An empty map. -/
def sparse (cap : Nat) (h : 0 < cap) : Lru K V := ⟨cap, [], h, nodup_nil, Nat.zero_le cap⟩

variable (c : Lru K V)

def len : Nat := c.entries.length

/-- Take the least recent entry out. -/
def popLru : Option ((K × V) × Lru K V) :=
  match h : c.entries with
  | [] => none
  | e :: rest => some (e,
      { cap := c.cap
        entries := rest
        capPos := c.capPos
        nodup := by
          have := c.nodup
          rw [h] at this
          exact this.of_cons
        bounded := by
          have := c.bounded
          rw [h, length_cons] at this
          omega })

lemma entries_popLru {c c' : Lru K V} {e : K × V} (h : c.popLru = some (e, c')) :
    c.entries = e :: c'.entries ∧ c'.cap = c.cap := by
  unfold popLru at h
  split at h
  · cases h
  rename_i e' rest hentries
  cases h
  exact ⟨hentries, rfl⟩

lemma popLru_none {c : Lru K V} (h : c.popLru = none) : c.entries = [] := by
  unfold popLru at h
  split at h
  · rename_i hentries
    exact hentries
  · cases h

lemma nodup_append_singleton {l : List (K × V)} (h : (l.map Prod.fst).Nodup) {k : K} (v : V)
    (hk : ∀ e ∈ l, e.1 ≠ k) : ((l ++ [(k, v)]).map Prod.fst).Nodup := by
  rw [map_append]
  refine List.Nodup.append h (nodup_singleton k) (disjoint_singleton.2 fun hmem => ?_)
  obtain ⟨e, he, heq⟩ := mem_map.1 hmem
  exact hk e he heq

variable [DecidableEq K]

def find (k : K) : Option (K × V) := c.entries.find? fun e => e.1 = k

def contains (k : K) : Bool := (c.find k).isSome

/-- The entries other than the one of `k`. -/
def others (k : K) : List (K × V) := c.entries.filter fun e => e.1 ≠ k

lemma nodup_others (k : K) : ((c.others k).map Prod.fst).Nodup :=
  c.nodup.sublist (filter_sublist.map Prod.fst)

lemma ne_of_mem_others {c : Lru K V} {k : K} : ∀ e ∈ c.others k, e.1 ≠ k :=
  fun _ he => of_decide_eq_true (mem_filter.1 he).2

lemma mem_of_find {c : Lru K V} {k : K} {e : K × V} (h : c.find k = some e) :
    e ∈ c.entries ∧ e.1 = k :=
  ⟨mem_of_find?_eq_some h, by simpa using find?_some h⟩

lemma ne_of_find_none {c : Lru K V} {k : K} (h : c.find k = none) :
    ∀ e ∈ c.entries, e.1 ≠ k := fun e he => by simpa using find?_eq_none.1 h e he

/-- The entry that was found, and the others. -/
lemma perm_find {c : Lru K V} {k : K} {e : K × V} (h : c.find k = some e) :
    (e :: c.others k).Perm c.entries := by
  obtain ⟨hmem, hkey⟩ := mem_of_find h
  have hnodup : c.entries.Nodup := List.Nodup.of_map Prod.fst c.nodup
  have hcons : (e :: c.others k).Nodup := by
    refine nodup_cons.2 ⟨fun he => ne_of_mem_others e he hkey, hnodup.filter _⟩
  refine (perm_ext_iff_of_nodup hcons hnodup).2 fun x => ?_
  rw [mem_cons, others, mem_filter, decide_eq_true_eq]
  constructor
  · rintro (rfl | ⟨hx, -⟩)
    · exact hmem
    · exact hx
  intro hx
  by_cases hk : x.1 = k
  · exact .inl (inj_on_of_nodup_map c.nodup hx hmem (hk.trans hkey.symm))
  · exact .inr ⟨hx, hk⟩

lemma length_others {c : Lru K V} {k : K} {e : K × V} (h : c.find k = some e) :
    (c.others k).length + 1 = c.entries.length := by
  simpa using (perm_find h).length_eq

/-- The map with `(k, v)` as its most recent entry, in place of the old entry of `k`. -/
def refresh (k : K) (v : V) (h : (c.find k).isSome = true) : Lru K V where
  cap := c.cap
  entries := c.others k ++ [(k, v)]
  capPos := c.capPos
  nodup := nodup_append_singleton (c.nodup_others k) v ne_of_mem_others
  bounded := by
    obtain ⟨e, he⟩ := Option.isSome_iff_exists.mp h
    have := length_others he
    have := c.bounded
    rw [length_append, length_singleton]
    omega

/-- Read `k`; an entry that is read becomes the most recent one. -/
def get (k : K) : Lru K V × Option V :=
  match h : c.find k with
  | some e => (c.refresh k e.2 (by rw [h]; rfl), some e.2)
  | none => (c, none)

/-- Write `k`. The answer is the entry that was replaced, or the least recent one
when it had to leave. -/
def push (k : K) (v : V) : Lru K V × Option (K × V) :=
  match h : c.find k with
  | some e => (c.refresh k v (by rw [h]; rfl), some e)
  | none =>
    if hroom : c.entries.length < c.cap then
      ({ cap := c.cap
         entries := c.entries ++ [(k, v)]
         capPos := c.capPos
         nodup := nodup_append_singleton c.nodup v (ne_of_find_none h)
         bounded := by simpa using Nat.succ_le_of_lt hroom }, none)
    else
      ({ cap := c.cap
         entries := c.entries.tail ++ [(k, v)]
         capPos := c.capPos
         nodup := nodup_append_singleton (c.nodup.sublist ((tail_sublist _).map _)) v
           fun e he => ne_of_find_none h e (mem_of_mem_tail he)
         bounded := by
           have := c.bounded
           have := c.capPos
           simp only [length_append, length_tail, length_singleton]
           omega }, c.entries.head?)

/-! ## What the operations do to the contents -/

lemma get_snd (k : K) : (c.get k).2 = (c.find k).map Prod.snd := by
  unfold get
  split
  · rename_i e h
    exact (congrArg (Option.map Prod.snd) h).symm
  · rename_i h
    exact (congrArg (Option.map Prod.snd) h).symm

@[simp] lemma cap_get (k : K) : (c.get k).1.cap = c.cap := by
  unfold get
  split <;> rfl

lemma perm_get (k : K) : (c.get k).1.entries.Perm c.entries := by
  unfold get
  split
  · rename_i e h
    obtain ⟨-, hkey⟩ := mem_of_find h
    have he : (k, e.2) = e := by rw [← hkey]
    show (c.others k ++ [(k, e.2)]).Perm c.entries
    rw [he]
    exact (perm_append_singleton e _).trans (perm_find h)
  · exact List.Perm.refl _

@[simp] lemma cap_push (k : K) (v : V) : (c.push k v).1.cap = c.cap := by
  unfold push
  split
  · rfl
  · split <;> rfl

/-- A write adds its entry and takes the answered one out. -/
lemma perm_push (k : K) (v : V) :
    ((c.push k v).2.toList ++ (c.push k v).1.entries).Perm ((k, v) :: c.entries) := by
  unfold push
  split
  · rename_i e h
    show (e :: (c.others k ++ [(k, v)])).Perm _
    refine ((perm_append_singleton (k, v) _).cons e).trans ?_
    exact (List.Perm.swap _ _ _).trans ((perm_find h).cons _)
  split
  · exact perm_append_singleton _ _
  show (c.entries.head?.toList ++ (c.entries.tail ++ [(k, v)])).Perm _
  have hsplit : c.entries.head?.toList ++ c.entries.tail = c.entries := by cases c.entries <;> rfl
  rw [← append_assoc, hsplit]
  exact perm_append_singleton _ _

/-- The entry that was written is the most recent one. -/
lemma entries_push (k : K) (v : V) : ∃ rest, (c.push k v).1.entries = rest ++ [(k, v)] := by
  unfold push
  split
  · exact ⟨_, rfl⟩
  split
  · exact ⟨_, rfl⟩
  · exact ⟨_, rfl⟩

lemma find_of_mem {c : Lru K V} {k : K} {v : V} (h : (k, v) ∈ c.entries) :
    c.find k = some (k, v) := by
  cases hfind : c.find k with
  | none => exact absurd rfl (ne_of_find_none hfind _ h)
  | some e =>
    obtain ⟨hmem, hkey⟩ := mem_of_find hfind
    rw [inj_on_of_nodup_map c.nodup hmem h hkey]

end Lru

end VllmRouter
