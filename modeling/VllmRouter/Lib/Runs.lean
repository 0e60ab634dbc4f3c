import Mathlib.Data.List.Basic

/-!
# Maximal runs of positions

A set of positions decomposes into maximal runs `[start, stop)`. A program
that visits the positions in increasing order builds this decomposition by
extending the last interval while the positions are adjacent and opening a
new one otherwise (`pushDepth`). `Decomposes P n segs` says that `segs` lists,
in increasing order, exactly the maximal runs of the positions below `n` that
satisfy `P`; it is kept by one visit (`decomposes_push`, `decomposes_skip`).
-/

namespace VllmRouter

open List

/-- `[a, b)` is a maximal run of `P`: non-empty, inside `P`, and extendable
neither to the right nor to the left. -/
structure IsMaximalRun (P : Nat → Prop) (a b : Nat) : Prop where
  lt : a < b
  inside : ∀ d, a ≤ d → d < b → P d
  right : ¬ P b
  left : ∀ c, c + 1 = a → ¬ P c

/-- Record one more position: extend the last interval when it ends at
`depth`, open a new one otherwise. -/
def pushDepth (segs : List (Nat × Nat)) (depth : Nat) : List (Nat × Nat) :=
  match segs.getLast? with
  | some (a, e) => if e = depth then segs.dropLast ++ [(a, depth + 1)]
      else segs ++ [(depth, depth + 1)]
  | none => segs ++ [(depth, depth + 1)]

/-- `segs` is the increasing list of the maximal runs of the positions below
`n` that satisfy `P`. -/
structure Decomposes (P : Nat → Prop) (n : Nat) (segs : List (Nat × Nat)) : Prop where
  sorted : segs.Pairwise fun x y => x.2 < y.1
  runs : ∀ a b, (a, b) ∈ segs ↔ IsMaximalRun (fun d => P d ∧ d < n) a b

lemma decomposes_zero (P : Nat → Prop) : Decomposes P 0 [] := by
  refine { sorted := List.Pairwise.nil, runs := fun a b => ?_ }
  constructor
  · intro h
    cases h
  · intro h
    exact absurd (h.inside a (Nat.le_refl a) h.lt).2 (Nat.not_lt_zero a)

variable {P : Nat → Prop} {n : Nat} {segs : List (Nat × Nat)}

variable {a b : Nat}

lemma IsMaximalRun.congr (h : ∀ d, P d ↔ Q d) (hr : IsMaximalRun P a b) : IsMaximalRun Q a b where
  lt := hr.lt
  inside d h1 h2 := (h d).1 (hr.inside d h1 h2)
  right := fun hq => hr.right ((h b).2 hq)
  left c hc hq := hr.left c hc ((h c).2 hq)

lemma Decomposes.congr (h : ∀ d, (P d ∧ d < n) ↔ (Q d ∧ d < m)) (hd : Decomposes P n segs) :
    Decomposes Q m segs where
  sorted := hd.sorted
  runs a b := (hd.runs a b).trans ⟨fun hr => hr.congr h, fun hr => hr.congr fun d => (h d).symm⟩

/-- Every interval of a decomposition ends at or before the bound. -/
lemma Decomposes.stop_le (hd : Decomposes P n segs) (h : (a, b) ∈ segs) : b ≤ n := by
  have hr := (hd.runs a b).1 h
  have hlt := hr.lt
  have := (hr.inside (b - 1) (by omega) (by omega)).2
  omega

/-- A position that does not satisfy `P` changes nothing. -/
lemma decomposes_skip (hd : Decomposes P n segs) (hn : ¬ P n) : Decomposes P (n + 1) segs := by
  refine hd.congr fun d => ?_
  constructor
  · rintro ⟨hp, hlt⟩
    exact ⟨hp, Nat.lt_succ_of_lt hlt⟩
  rintro ⟨hp, hlt⟩
  refine ⟨hp, Nat.lt_of_le_of_ne (Nat.le_of_lt_succ hlt) ?_⟩
  rintro rfl
  exact hn hp

/-- Going down from a position of `P` there is a leftmost start of its run. -/
lemma exists_run_start (hd : P d) :
    ∃ a, a ≤ d ∧ (∀ x, a ≤ x → x ≤ d → P x) ∧ ∀ c, c + 1 = a → ¬ P c := by
  induction d with
  | zero =>
    refine ⟨0, Nat.le_refl 0, fun x _ h2 => ?_, fun c hc => absurd hc (Nat.succ_ne_zero c)⟩
    exact (Nat.le_zero.1 h2) ▸ hd
  | succ d ih =>
    by_cases hp : P d
    · obtain ⟨a, ha, hin, hleft⟩ := ih hp
      refine ⟨a, Nat.le_succ_of_le ha, fun x h1 h2 => ?_, hleft⟩
      rcases Nat.lt_or_ge x (d + 1) with h | h
      · exact hin x h1 (Nat.le_of_lt_succ h)
      · exact (Nat.le_antisymm h2 h) ▸ hd
    refine ⟨d + 1, Nat.le_refl _, fun x h1 h2 => (Nat.le_antisymm h2 h1) ▸ hd, ?_⟩
    intro c hc hpc
    exact hp (Nat.succ.inj hc ▸ hpc)

/-- Below the bound, a run that stops before `n` is the same run at the next
bound. -/
lemma isMaximalRun_succ_iff (hb : b < n) : IsMaximalRun (fun d => P d ∧ d < n) a b
      ↔ IsMaximalRun (fun d => P d ∧ d < n + 1) a b := by
  constructor
  · intro h
    refine ⟨h.lt, fun d h1 h2 => ?_, fun hr => h.right ⟨hr.1, hb⟩, fun c hc hr => ?_⟩
    · exact ⟨(h.inside d h1 h2).1, by omega⟩
    · have := h.lt
      exact h.left c hc ⟨hr.1, by omega⟩
  intro h
  refine ⟨h.lt, fun d h1 h2 => ?_, fun hr => h.right ⟨hr.1, by omega⟩, fun c hc hr => ?_⟩
  · exact ⟨(h.inside d h1 h2).1, by omega⟩
  · exact h.left c hc ⟨hr.1, by omega⟩

/-- A run at bound `n + 1` whose last possible position satisfies `P` either
stops before `n` or covers `n`. -/
lemma IsMaximalRun.stop_cases (hn : P n) (h : IsMaximalRun (fun d => P d ∧ d < n + 1) a b) :
    b < n ∨ b = n + 1 := by
  have hlt := h.lt
  have hlast := (h.inside (b - 1) (by omega) (by omega)).2
  rcases Nat.lt_trichotomy b n with hb | hb | hb
  · exact .inl hb
  · subst hb
    exact absurd ⟨hn, Nat.lt_succ_self b⟩ h.right
  · exact .inr (by omega)

/-- Two maximal runs that end at the same place start at the same place. -/
lemma IsMaximalRun.start_unique (h : IsMaximalRun P a b) (h' : IsMaximalRun P a' b) : a = a' := by
  have hl := h.lt
  have hl' := h'.lt
  rcases Nat.lt_trichotomy a a' with hlt | heq | hlt
  · exact absurd (h.inside (a' - 1) (by omega) (by omega)) (h'.left (a' - 1) (by omega))
  · exact heq
  · exact absurd (h'.inside (a - 1) (by omega) (by omega)) (h.left (a - 1) (by omega))

/-- In a decomposition the interval that ends at the bound is the last one. -/
lemma Decomposes.getLast?_of_stop (hd : Decomposes P n segs) (h : (a, n) ∈ segs) :
    segs.getLast? = some (a, n) := by
  obtain ⟨pre, post, rfl⟩ := append_of_mem h
  cases post with
  | nil => simp
  | cons x post =>
    have hx : x ∈ pre ++ (a, n) :: x :: post := by simp
    have hle := hd.stop_le (a := x.1) (b := x.2) hx
    have hlt := ((hd.runs x.1 x.2).1 hx).lt
    have hsort := (pairwise_append.1 hd.sorted).2.1
    have hnx : n < x.1 := (pairwise_cons.1 hsort).1 x (by simp)
    omega

/-- The last interval of a decomposition ends at the bound exactly when the
position before the bound satisfies `P`. -/
lemma Decomposes.exists_stop (hd : Decomposes P (n + 1) segs) (hn : P n) :
    ∃ a, segs.getLast? = some (a, n + 1) := by
  obtain ⟨a, ha, hin, hleft⟩ := exists_run_start (P := P) hn
  have hrun : IsMaximalRun (fun d => P d ∧ d < n + 1) a (n + 1) := by
    refine ⟨by omega, fun d h1 h2 => ⟨hin d h1 (by omega), h2⟩, fun h => ?_, fun c hc h => ?_⟩
    · exact absurd h.2 (Nat.lt_irrefl _)
    · exact hleft c hc h.1
  exact ⟨a, hd.getLast?_of_stop ((hd.runs a (n + 1)).2 hrun)⟩

/-- The intervals that stop before `n`, and a last one that covers it. -/
lemma Decomposes.append (hd : Decomposes P n segs) (hn : P n)
    (hrun : IsMaximalRun (fun d => P d ∧ d < n + 1) a (n + 1))
    (hsorted : (init ++ [(a, n + 1)]).Pairwise fun x y => x.2 < y.1)
    (hinit : ∀ x y, (x, y) ∈ init ↔ (x, y) ∈ segs ∧ y < n) :
    Decomposes P (n + 1) (init ++ [(a, n + 1)]) := by
  refine ⟨hsorted, fun x y => ?_⟩
  rw [mem_append, mem_singleton, hinit]
  constructor
  · rintro (⟨h, hy⟩ | h)
    · exact (isMaximalRun_succ_iff hy).1 ((hd.runs x y).1 h)
    · cases h
      exact hrun
  intro h
  rcases h.stop_cases hn with hy | rfl
  · exact .inl ⟨(hd.runs x y).2 ((isMaximalRun_succ_iff hy).2 h), hy⟩
  · exact .inr (by rw [h.start_unique hrun])

/-- A position that satisfies `P` is recorded by `pushDepth`. -/
lemma decomposes_push (hd : Decomposes P n segs) (hn : P n) :
    Decomposes P (n + 1) (pushDepth segs n) := by
  -- the new interval is opened when no interval ends at `n`
  have hopen : (∀ x ∈ segs, x.2 < n) → Decomposes P (n + 1) (segs ++ [(n, n + 1)]) := by
    intro hbelow
    refine hd.append hn ⟨Nat.lt_succ_self n, fun d h1 h2 => ⟨?_, h2⟩, fun h => ?_, ?_⟩ ?_
      fun x y => ⟨fun h => ⟨h, hbelow _ h⟩, And.left⟩
    · exact (by omega : d = n) ▸ hn
    · exact absurd h.2 (Nat.lt_irrefl _)
    · rintro c rfl hc
      obtain ⟨a, hlast⟩ := hd.exists_stop hc.1
      exact absurd (hbelow _ (mem_of_getLast? hlast)) (Nat.lt_irrefl _)
    · refine pairwise_append.2 ⟨hd.sorted, pairwise_singleton _ _, fun x hx y hy => ?_⟩
      rw [mem_singleton.1 hy]
      exact hbelow x hx
  unfold pushDepth
  cases hlast : segs.getLast? with
  | none =>
    rw [getLast?_eq_none_iff] at hlast
    subst hlast
    exact hopen (by simp)
  | some x =>
    obtain ⟨a, e⟩ := x
    show Decomposes P (n + 1) (if e = n then _ else _)
    have hmem := mem_of_getLast? hlast
    by_cases he : e = n
    · -- the last interval is extended
      subst he
      rw [if_pos rfl]
      obtain ⟨init, rfl⟩ := getLast?_eq_some_iff.1 hlast
      have hold := (hd.runs a e).1 hmem
      have hlt := hold.lt
      obtain ⟨hpre, -, hcross⟩ := pairwise_append.1 hd.sorted
      have hbelow : ∀ x ∈ init, x.2 < a := fun x hx => hcross x hx (a, e) (mem_singleton.2 rfl)
      rw [dropLast_concat]
      refine hd.append hn ⟨by omega, fun d h1 h2 => ⟨?_, h2⟩, fun h => ?_, fun c hc h => ?_⟩ ?_
        fun x y => ?_
      · rcases Nat.lt_or_ge d e with h | h
        · exact (hold.inside d h1 h).1
        · exact (by omega : d = e) ▸ hn
      · exact absurd h.2 (Nat.lt_irrefl _)
      · exact hold.left c hc ⟨h.1, by omega⟩
      · refine pairwise_append.2 ⟨hpre, pairwise_singleton _ _, fun x hx y hy => ?_⟩
        rw [mem_singleton.1 hy]
        exact hbelow x hx
      rw [mem_append, mem_singleton]
      constructor
      · exact fun h => ⟨.inl h, Nat.lt_trans (hbelow _ h) hlt⟩
      · rintro ⟨h | h, hy⟩
        · exact h
        · exact absurd (congrArg Prod.snd h) (Nat.ne_of_lt hy)
    · rw [if_neg he]
      refine hopen fun x hx => ?_
      have hle := hd.stop_le (a := x.1) (b := x.2) hx
      refine Nat.lt_of_le_of_ne hle fun heq => he ?_
      have hx' : (x.1, n) ∈ segs := heq ▸ hx
      have := hd.getLast?_of_stop hx'
      rw [hlast] at this
      cases this
      rfl

/-- A decomposition is empty exactly when no position satisfies `P`. -/
lemma Decomposes.eq_nil_iff (hd : Decomposes P n segs) : segs = [] ↔ ∀ d, d < n → ¬ P d := by
  constructor
  · rintro rfl
    induction n with
    | zero => exact fun d h => absurd h (Nat.not_lt_zero d)
    | succ n ih =>
      have hn : ¬ P n := by
        intro hp
        obtain ⟨a, ha⟩ := hd.exists_stop hp
        cases ha
      have hd' : Decomposes P n [] := by
        refine hd.congr fun d => ?_
        constructor
        · rintro ⟨hp, hlt⟩
          refine ⟨hp, Nat.lt_of_le_of_ne (Nat.le_of_lt_succ hlt) ?_⟩
          rintro rfl
          exact hn hp
        · rintro ⟨hp, hlt⟩
          exact ⟨hp, Nat.lt_succ_of_lt hlt⟩
      intro d hlt
      rcases Nat.lt_succ_iff_lt_or_eq.1 hlt with h | rfl
      · exact ih hd' d h
      · exact hn
  · intro h
    refine eq_nil_iff_forall_not_mem.2 fun x hx => ?_
    have hr := (hd.runs x.1 x.2).1 hx
    have := hr.inside x.1 (Nat.le_refl _) hr.lt
    exact h x.1 this.2 this.1

end VllmRouter
