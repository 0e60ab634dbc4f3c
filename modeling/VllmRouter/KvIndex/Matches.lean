import VllmRouter.KvIndex.Representation

/-!
# `findMatches` answers from the observations

A query is answered in two passes, and each has its own specification.

- The walk down the tree collects, depth by depth, the claims of the block the
  query's prefix leads to (`nodeClaims_spec`). It reads whole edges where
  `locate` reads one block at a time.
- The collapse turns the claims into one hit per `(target, tier)`, whose
  segments are the maximal runs of the depths that are held (`Collapsed`).

Together with the representation they give the reference answer over the set
of active observations.
-/

namespace VllmRouter.KvIndex

open List

variable {q : List Hash} {cs : List (List OwnerTier)}

namespace GroupShard

/-! ## The walk -/

/-- Read a run of blocks from a position. -/
def readRun (sh : GroupShard) (pos : Position) (q : List Hash) : Option Position :=
  q.foldlM sh.readBlock pos

/-- The claims of the block right before a position. -/
def claimsAt (sh : GroupShard) (pos : Position) : Option (List OwnerTier) :=
  (sh.nodes[pos.1]?).bind fun n => n.claims[pos.2 - 1]?

variable {sh : GroupShard}

lemma readRun_append (pos p q) :
    sh.readRun pos (p ++ q) = (sh.readRun pos p).bind fun pos' => sh.readRun pos' q :=
  foldlM_append

lemma readRun_singleton (pos h) :
    sh.readRun pos [h] = sh.readBlock pos h := by
  show (sh.readBlock pos h).bind (fun pos' => some pos') = _
  cases sh.readBlock pos h <;> rfl

/-- A run that fails keeps failing when it is extended. -/
lemma readRun_take_none (h : sh.readRun pos (q.take m) = none) (hle : m ≤ d) :
    sh.readRun pos (q.take d) = none := by
  obtain ⟨k, rfl⟩ := Nat.exists_eq_add_of_le hle
  rw [take_add, readRun_append, h]
  rfl

/-- Reading along the edge of a child, up to where the query follows it. -/
lemma readRun_edge (hn : sh.nodes[i]? = some n) (hc : sh.nodes[child]? = some c)
    (hchild : n.children.lookup h = some child) (hq : q.head? = some h) (hm : m ≤ c.edge.length)
    (hmatch : c.locals.take m = q.take m) :
    ∀ j, 0 < j → j ≤ m → sh.readRun (i, n.edge.length) (q.take j) = some (child, j) := by
  intro j
  induction j with
  | zero => exact fun hj => absurd hj (Nat.lt_irrefl 0)
  | succ j ih =>
    intro _ hj
    cases j with
    | zero =>
      have hone : q.take 1 = [h] := by
        cases q with
        | nil => cases hq
        | cons =>
          cases hq
          rfl
      rw [hone, readRun_singleton]
      simp [readBlock, hn, hchild]
    | succ j =>
      have hlt : j + 1 < c.edge.length := by omega
      have hb := getElem?_eq_getElem hlt
      have hqj : q[j + 1]? = some c.edge[j + 1].localHash := by
        have hget := congrArg (·[j + 1]?) hmatch
        simp only [getElem?_take, if_pos (show j + 1 < m by omega)] at hget
        rw [← hget]
        unfold TreeNode.locals
        rw [getElem?_map, hb]
        rfl
      rw [take_add_one, hqj, readRun_append, ih (Nat.succ_pos j) (by omega)]
      show sh.readRun (child, j + 1) [c.edge[j + 1].localHash] = _
      rw [readRun_singleton]
      simp [readBlock, hc, hb]

/-- The walk below the end of node `i` returns the claims of every block that
the rest of the query reads. -/
lemma walk_spec (hwf : WellFormed sh) :
    ∀ fuel i n q, sh.nodes[i]? = some n →
      q.length ≤ fuel → ∃ cs, sh.walk fuel (q.head?.bind fun h => n.children.lookup h) q = some cs ∧
        cs.length ≤ q.length ∧ ∀ d, d < q.length →
          cs[d]? = (sh.readRun (i, n.edge.length) (q.take (d + 1))).bind sh.claimsAt := by
  intro fuel
  induction fuel with
  | zero =>
    intro i n q hn hfuel
    obtain rfl := length_eq_zero_iff.1 (Nat.le_zero.1 hfuel)
    exact ⟨[], rfl, Nat.le_refl 0, fun d hd => absurd hd (Nat.not_lt_zero d)⟩
  | succ _ ih =>
    intro i n q hn hfuel
    cases q with
    | nil => exact ⟨[], rfl, Nat.le_refl 0, fun d hd => absurd hd (Nat.not_lt_zero d)⟩
    | cons h rest =>
      cases hchild : n.children.lookup h with
      | none =>
        refine ⟨[], by simp [walk, hchild], Nat.zero_le _, fun d _ => ?_⟩
        have hfirst : sh.readRun (i, n.edge.length) ((h :: rest).take 1) = none := by
          show sh.readRun (i, n.edge.length) [h] = none
          rw [readRun_singleton]
          simp [readBlock, hn, hchild]
        rw [readRun_take_none hfirst (Nat.succ_le_succ (Nat.zero_le d))]
        rfl
      | some child =>
        obtain ⟨c, hc, hhead⟩ := hwf.child i n h child hn hchild
        have hlen := hwf.claims_length child c hc
        obtain ⟨m, hm⟩ : ∃ m, advance c.edge (h :: rest) = m := ⟨_, rfl⟩
        obtain ⟨hle, _, hmatch, hdiff⟩ :=
          zip_takeWhile_spec EdgeBlock.localHash id c.edge (h :: rest) m hm
        rw [map_id] at hmatch hdiff
        have hpos : 0 < m := by
          refine Nat.pos_of_ne_zero ?_
          rintro rfl
          rw [head?_eq_getElem?] at hhead
          exact hdiff h h hhead rfl rfl
        have hedge := readRun_edge hn hc hchild (show (h :: rest).head? = some h from rfl)
          hle hmatch
        -- the blocks of this edge that match
        have hhere : ∀ d, d < m →
            (sh.readRun (i, n.edge.length) ((h :: rest).take (d + 1))).bind sh.claimsAt
              = c.claims[d]? := by
          intro d hd
          rw [hedge (d + 1) (Nat.succ_pos d) hd]
          show (sh.nodes[child]?).bind _ = _
          rw [hc]
          rfl
        by_cases hpartial : m < c.edge.length
        · refine ⟨c.claims.take m, ?_, ?_, fun d hd => ?_⟩
          · simp [walk, hchild, hc, hm, hpartial, Nat.not_lt.2 (hlen ▸ hle)]
          · rw [length_take]
            omega
          rw [getElem?_take]
          by_cases hdm : d < m
          · rw [if_pos hdm, hhere d hdm]
          -- past the divergence nothing can be read
          have hq := getElem?_eq_getElem (show m < (h :: rest).length by omega)
          have hb := getElem?_eq_getElem hpartial
          have hne : c.edge[m].localHash ≠ (h :: rest)[m] := by
            refine hdiff _ _ ?_ hq
            rw [getElem?_map, hb]
            rfl
          have hstop : sh.readRun (i, n.edge.length) ((h :: rest).take (m + 1)) = none := by
            rw [take_add_one, hq, readRun_append, hedge m hpos (Nat.le_refl m)]
            show sh.readRun (child, m) [(h :: rest)[m]] = none
            rw [readRun_singleton]
            simp [readBlock, hc, hb, hne]
          rw [if_neg hdm, readRun_take_none hstop (by omega)]
          rfl
        · have hfull : m = c.edge.length := by omega
          obtain ⟨deeper, hrun, hdlen, hdeep⟩ := ih child c ((h :: rest).drop m) hc
            (by rw [length_drop]; simp only [length_cons] at hfuel ⊢; omega)
          refine ⟨c.claims.take m ++ deeper, ?_, ?_, fun d hd => ?_⟩
          · have hnot : ¬ (m = 0 ∨ m < c.edge.length) := by omega
            simp only [walk, head?_cons, Option.bind_some, hchild, hc, hm,
              Option.bind_eq_bind, if_neg (Nat.not_lt.2 (hlen ▸ hle)), if_neg hnot, hrun]
          · rw [length_append, length_take]
            rw [length_drop] at hdlen
            omega
          have htake : (c.claims.take m).length = m := by
            rw [length_take]
            omega
          by_cases hdm : d < m
          · rw [getElem?_append_left (by omega), getElem?_take, if_pos hdm, hhere d hdm]
          obtain ⟨k, rfl⟩ := Nat.exists_eq_add_of_le (Nat.le_of_not_lt hdm)
          have hbelow : sh.readRun (i, n.edge.length) ((h :: rest).take (m + (k + 1)))
              = sh.readRun (child, c.edge.length) (((h :: rest).drop m).take (k + 1)) := by
            rw [take_add, readRun_append, hedge m hpos (Nat.le_refl m), Option.bind_some, ← hfull]
          rw [getElem?_append_right (by omega), htake, Nat.add_sub_cancel_left,
            hdeep k (by rw [length_drop]; omega), Nat.add_assoc, hbelow]

/-- The claims along a query are those of the blocks its prefixes lead to. -/
lemma nodeClaims_spec (hwf : WellFormed sh) (q) :
    ∃ cs, sh.nodeClaims q = some cs ∧ cs.length ≤ q.length ∧
      ∀ d, d < q.length → cs[d]? = (sh.locate (q.take (d + 1))).bind sh.claimsAt := by
  obtain ⟨r, hr, hedge⟩ := hwf.root
  obtain ⟨cs, hrun, hlen, hcs⟩ := walk_spec hwf q.length rootRef r q hr le_rfl
  refine ⟨cs, ?_, hlen, fun d hd => ?_⟩
  · simp [nodeClaims, hr, hrun]
  have h := hcs d hd
  rw [hedge] at h
  exact h

/-- `key` claims the block at depth `d` of the query exactly when one of its
active keys names the prefix up to `d`. -/
lemma Represents.mem_nodeClaims (hrep : Represents path pre sh)
    (hcs : ∀ d, d < q.length → cs[d]? = (sh.locate (q.take (d + 1))).bind sh.claimsAt)
    (hd : d < q.length) (key) :
    key ∈ cs[d]?.getD [] ↔ ∃ s, sh.Active key s ∧ path s = q.take (d + 1) := by
  rw [hcs d hd]
  constructor
  · intro hkey
    cases hloc : sh.locate (q.take (d + 1)) with
    | none => simp [hloc] at hkey
    | some pos =>
      obtain ⟨i, k⟩ := pos
      rw [hloc] at hkey
      obtain ⟨n, hn, hpath, hzero⟩ := hrep.locate_at hloc
      cases hcl : n.claims[k - 1]? with
      | none => simp [claimsAt, hn, hcl] at hkey
      | some cl =>
        have hmem : key ∈ cl := by simpa [claimsAt, hn, hcl] using hkey
        have hlt : k - 1 < n.edge.length :=
          hrep.wf.claims_length i n hn ▸ (List.getElem?_eq_some_iff.1 hcl).1
        have hb := List.getElem?_eq_getElem hlt
        obtain ⟨s, hs, hact⟩ := (hrep.claim hn hb hcl key).1 hmem
        refine ⟨s, hact, ?_⟩
        -- a position that was reached by reading a block lies behind a block
        have hk0 : k ≠ 0 := fun hk => hrep.wf.ne_root hn hb (hzero hk)
        rw [hrep.alias_path hn hb hs, hpath, Nat.sub_add_cancel (Nat.pos_of_ne_zero hk0)]
  · rintro ⟨s, hact, hpath⟩
    obtain ⟨i, hi⟩ := Option.isSome_iff_exists.1 (hrep.wf.claimed_known key s hact)
    obtain ⟨n, idx, b, hn, hb, hs⟩ := hrep.wf.anchored s i hi
    have hlt := (List.getElem?_eq_some_iff.1 hb).1
    have hcl := List.getElem?_eq_getElem
      ((hrep.wf.claims_length i n hn).symm ▸ hlt : idx < n.claims.length)
    have hloc := hrep.locate_block hn hb
    rw [← hrep.alias_path hn hb hs, hpath] at hloc
    have hmem := (hrep.claim hn hb hcl key).2 ⟨s, hs, hact⟩
    rw [hloc]
    simpa [claimsAt, hn, hcl] using hmem

end GroupShard

/-! ## The collapse -/

/-- The claim counts for the hit `hk`. -/
def CountsFor (hk : RoutableTarget × StorageTier) (claim : OwnerTier) : Prop :=
  claim.1.target = hk.1 ∧ claim.2 = hk.2

/-- Some claim at depth `d` counts for `hk`. -/
def HeldAt (cs : List (List OwnerTier)) (hk : RoutableTarget × StorageTier) (d : Nat) : Prop :=
  ∃ claim ∈ cs[d]?.getD [], CountsFor hk claim

/-- Some local claim at depth `d` counts for `hk`. -/
def LocalAt (cs : List (List OwnerTier)) (hk : RoutableTarget × StorageTier) (d : Nat) : Prop :=
  ∃ claim ∈ cs[d]?.getD [], CountsFor hk claim ∧ claim.1.locality = .local

/-- The segments collected for `hk` so far. -/
def segmentsOf (best : Hits) (hk : RoutableTarget × StorageTier) : List (Nat × Nat) :=
  ((best.lookup hk).map TierMatch.segments).getD []

/-- The hit collected for `hk` so far is local. -/
def IsLocal (best : Hits) (hk : RoutableTarget × StorageTier) : Prop :=
  (best.lookup hk).map TierMatch.locality = some .local

/-- A hit is labelled with its own key, is of a tier of interest and has a
segment. -/
def Labelled (tiers : List StorageTier) (best : Hits) : Prop :=
  ∀ hk m, best.lookup hk = some m →
    (m.target, m.tier) = hk ∧ hk.2 ∈ tiers ∧ m.segments ≠ []

/-- The hits after the first `n` depths. -/
structure Collapsed (tiers : List StorageTier) (cs : List (List OwnerTier)) (n : Nat)
    (best : Hits) : Prop where
  labelled : Labelled tiers best
  segments : ∀ hk, hk.2 ∈ tiers → Decomposes (HeldAt cs hk) n (segmentsOf best hk)
  isLocal : ∀ hk, hk.2 ∈ tiers → (IsLocal best hk ↔ ∃ d, d < n ∧ LocalAt cs hk d)

/-- The hits while depth `n` is being credited: `done` are the claims of that
depth seen so far. -/
structure Crediting (tiers : List StorageTier) (n : Nat) (best₀ : Hits)
    (done : List OwnerTier) (best : Hits) (seen : List (RoutableTarget × StorageTier)) :
    Prop where
  labelled : Labelled tiers best
  seen_iff : ∀ hk, hk ∈ seen ↔ hk.2 ∈ tiers ∧ ∃ claim ∈ done, CountsFor hk claim
  segments : ∀ hk, segmentsOf best hk
    = if hk ∈ seen then pushDepth (segmentsOf best₀ hk) n else segmentsOf best₀ hk
  isLocal : ∀ hk, hk.2 ∈ tiers → (IsLocal best hk ↔ IsLocal best₀ hk ∨
    ∃ claim ∈ done, CountsFor hk claim ∧ claim.1.locality = .local)

lemma pushDepth_ne_nil (segs depth) : pushDepth segs depth ≠ [] := by
  unfold pushDepth
  split
  · split <;> simp
  · simp

/-- The key of the hit a claim counts for. -/
def hitKey (claim : OwnerTier) : RoutableTarget × StorageTier := (claim.1.target, claim.2)

lemma countsFor_iff (hk claim) :
    CountsFor hk claim ↔ hk = hitKey claim := by
  constructor
  · rintro ⟨h1, h2⟩
    exact Prod.ext h1.symm h2.symm
  · rintro rfl
    exact ⟨rfl, rfl⟩

section Credit

variable {tiers : List StorageTier} {n : Nat} {best₀ best : Hits} {done : List OwnerTier}
  {seen : List (RoutableTarget × StorageTier)} {claim : OwnerTier}

lemma crediting_refl (hlab : Labelled tiers best₀) (n : Nat) :
    Crediting tiers n best₀ [] best₀ [] where
  labelled := hlab
  seen_iff hk := by simp
  segments hk := by simp
  isLocal hk _ := by simp

/-- What crediting one claim of a tier of interest writes: a labelled hit whose
segments grow once per depth and whose locality prefers the closest copy. -/
lemma creditClaim_eq (hlab : Labelled tiers best) (htier : claim.2 ∈ tiers) (n seen) :
    ∃ e, creditClaim tiers n (best, seen) claim
        = (best.insert (hitKey claim) e, seen.insert (hitKey claim)) ∧
      (e.target, e.tier) = hitKey claim ∧
      e.segments = (if hitKey claim ∈ seen then segmentsOf best (hitKey claim)
        else pushDepth (segmentsOf best (hitKey claim)) n) ∧
      (e.locality = .local ↔ IsLocal best (hitKey claim) ∨ claim.1.locality = .local) := by
  -- the entry before its segments are extended
  obtain ⟨e0, he0, hlabel, hsegs, hloc⟩ : ∃ e0,
      (let entry := (best.lookup (hitKey claim)).getD
          ⟨claim.1.target, claim.2, [], claim.1.locality⟩
        if claim.1.locality = .local then { entry with locality := .local } else entry) = e0 ∧
      (e0.target, e0.tier) = hitKey claim ∧
      e0.segments = segmentsOf best (hitKey claim) ∧
      (e0.locality = .local ↔ IsLocal best (hitKey claim) ∨ claim.1.locality = .local) := by
    refine ⟨_, rfl, ?_⟩
    cases hold : best.lookup (hitKey claim) with
    | none =>
      have hkey : (claim.1.target, claim.2) = hitKey claim := rfl
      by_cases hl : claim.1.locality = .local
      · simp [hl, segmentsOf, hold, hkey]
      · simp [hl, segmentsOf, IsLocal, hold, hkey]
    | some m =>
      have hm := (hlab _ m hold).1
      by_cases hl : claim.1.locality = .local
      · simp [hl, segmentsOf, hold, hm]
      · simp [hl, segmentsOf, IsLocal, hold, hm]
  by_cases hseen : hitKey claim ∈ seen
  · refine ⟨e0, ?_, hlabel, by rw [if_pos hseen, hsegs], hloc⟩
    rw [insert_of_mem hseen]
    unfold creditClaim
    rw [if_pos htier]
    show (if hitKey claim ∈ seen then _ else _) = _
    rw [if_pos hseen]
    exact congrArg (fun e => (best.insert (hitKey claim) e, seen)) he0
  refine ⟨{ e0 with segments := pushDepth e0.segments n }, ?_, hlabel,
    by rw [if_neg hseen, hsegs], hloc⟩
  unfold creditClaim
  rw [if_pos htier]
  show (if hitKey claim ∈ seen then _ else _) = _
  rw [if_neg hseen]
  exact congrArg (fun e => (best.insert (hitKey claim)
    { e with segments := pushDepth e.segments n }, seen.insert (hitKey claim))) he0

lemma exists_mem_concat {p : α → Prop} (hno : ¬ p a) :
    (∃ c ∈ l ++ [a], p c) ↔ ∃ c ∈ l, p c := by
  simp only [mem_append, mem_singleton, or_and_right, exists_or, exists_eq_left, hno, or_false]

/-- Crediting one more claim of the depth. -/
lemma Crediting.credit (hcr : Crediting tiers n best₀ done best seen) (claim) :
    Crediting tiers n best₀ (done ++ [claim]) (creditClaim tiers n (best, seen) claim).1
      (creditClaim tiers n (best, seen) claim).2 := by
  by_cases htier : claim.2 ∈ tiers
  · obtain ⟨e, heq, hlabel, hsegs, hloc⟩ := creditClaim_eq hcr.labelled htier n seen
    rw [heq]
    have hsegs' : e.segments = pushDepth (segmentsOf best₀ (hitKey claim)) n := by
      rw [hsegs, hcr.segments]
      split
      · rfl
      · rfl
    constructor
    · intro hk m hm
      rw [Dict.lookup_insert_eq] at hm
      split at hm
      · next h =>
        cases hm
        exact ⟨hlabel.trans h.symm, h ▸ htier, hsegs' ▸ pushDepth_ne_nil _ n⟩
      · exact hcr.labelled hk m hm
    · intro hk
      rw [mem_insert_iff, hcr.seen_iff]
      simp only [mem_append, mem_singleton]
      constructor
      · rintro (rfl | ⟨ht, c, hc, hcount⟩)
        · exact ⟨htier, claim, .inr rfl, (countsFor_iff _ _).2 rfl⟩
        · exact ⟨ht, c, .inl hc, hcount⟩
      rintro ⟨ht, c, hc | rfl, hcount⟩
      · exact .inr ⟨ht, c, hc, hcount⟩
      · exact .inl ((countsFor_iff _ _).1 hcount)
    · intro hk
      have hlook : segmentsOf (best.insert (hitKey claim) e) hk
          = if hk = hitKey claim then e.segments else segmentsOf best hk := by
        unfold segmentsOf
        rw [Dict.lookup_insert_eq]
        split <;> rfl
      rw [hlook, hcr.segments]
      split
      · rename_i h
        subst h
        rw [if_pos (mem_insert_self), hsegs']
      · rename_i h
        simp [mem_insert_iff, h]
    · intro hk ht
      have hlook : IsLocal (best.insert (hitKey claim) e) hk
          ↔ if hk = hitKey claim then e.locality = .local else IsLocal best hk := by
        unfold IsLocal
        rw [Dict.lookup_insert_eq]
        split <;> simp
      rw [hlook]
      by_cases h : hk = hitKey claim
      · subst h
        rw [hloc, hcr.isLocal _ ht]
        simp only [mem_append, mem_singleton, countsFor_iff]
        constructor
        · rintro ((h | ⟨c, hc, hcount⟩) | h)
          · exact .inl h
          · exact .inr ⟨c, .inl hc, hcount⟩
          · exact .inr ⟨claim, .inr rfl, rfl, h⟩
        rintro (h | ⟨c, hc | rfl, hcount⟩)
        · exact .inl (.inl h)
        · exact .inl (.inr ⟨c, hc, hcount⟩)
        · exact .inr hcount.2
      · rw [if_neg h, hcr.isLocal hk ht]
        refine or_congr_right (exists_mem_concat fun hcount => ?_).symm
        exact h ((countsFor_iff _ _).1 hcount.1)
  · -- a claim of another tier is skipped
    have hskip : creditClaim tiers n (best, seen) claim = (best, seen) := if_neg htier
    have hno : ∀ hk, hk.2 ∈ tiers → ¬ CountsFor hk claim :=
      fun hk ht hcount => htier (hcount.2 ▸ ht)
    rw [hskip]
    refine ⟨hcr.labelled, fun hk => ?_, hcr.segments, fun hk ht => ?_⟩
    · rw [hcr.seen_iff]
      exact and_congr_right fun ht => (exists_mem_concat (hno hk ht)).symm
    rw [hcr.isLocal hk ht]
    exact or_congr_right (exists_mem_concat fun hcount => hno hk ht hcount.1).symm

/-- Crediting all claims of a depth. -/
lemma Crediting.foldl (rest) :
    ∀ done best (seen : List (RoutableTarget × StorageTier)),
      Crediting tiers n best₀ done best seen → Crediting tiers n best₀ (done ++ rest)
        (rest.foldl (creditClaim tiers n) (best, seen)).1
        (rest.foldl (creditClaim tiers n) (best, seen)).2 := by
  induction rest with
  | nil =>
    intro _ _ _ hcr
    rw [append_nil]
    exact hcr
  | cons claim _ ih =>
    intro done _ _ hcr
    have h := ih (done ++ [claim]) _ _ (hcr.credit claim)
    rw [append_assoc] at h
    exact h

/-- One depth of the collapse extends the runs by one position. -/
lemma Collapsed.depth (hcol : Collapsed tiers cs n best) (howners : cs[n]? = some owners) :
    Collapsed tiers cs (n + 1) (creditDepth tiers best n owners) := by
  have hcr := Crediting.foldl (n := n) owners [] best [] (crediting_refl hcol.labelled n)
  rw [nil_append] at hcr
  have hheld : ∀ hk, HeldAt cs hk n ↔ ∃ claim ∈ owners, CountsFor hk claim := by
    intro hk
    unfold HeldAt
    rw [howners]
    rfl
  refine ⟨hcr.labelled, fun hk ht => ?_, fun hk ht => ?_⟩
  · have hsegs : segmentsOf (creditDepth tiers best n owners) hk = _ := hcr.segments hk
    rw [hsegs]
    by_cases hh : HeldAt cs hk n
    · rw [if_pos ((hcr.seen_iff hk).2 ⟨ht, (hheld hk).1 hh⟩)]
      exact decomposes_push (hcol.segments hk ht) hh
    · rw [if_neg fun h => hh ((hheld hk).2 ((hcr.seen_iff hk).1 h).2)]
      exact decomposes_skip (hcol.segments hk ht) hh
  have hloc : IsLocal (creditDepth tiers best n owners) hk ↔ _ := hcr.isLocal hk ht
  rw [hloc, hcol.isLocal hk ht]
  have hlocal : LocalAt cs hk n
      ↔ ∃ claim ∈ owners, CountsFor hk claim ∧ claim.1.locality = .local := by
    unfold LocalAt
    rw [howners]
    rfl
  rw [← hlocal]
  constructor
  · rintro (⟨d, hd, h⟩ | h)
    · exact ⟨d, Nat.lt_succ_of_lt hd, h⟩
    · exact ⟨n, Nat.lt_succ_self n, h⟩
  rintro ⟨d, hd, h⟩
  rcases Nat.lt_succ_iff_lt_or_eq.1 hd with hd | rfl
  · exact .inl ⟨d, hd, h⟩
  · exact .inr h

end Credit

/-- The collapse of all depths. -/
lemma collapse_collapsed (tiers cs rest) :
    ∀ n best, cs.drop n = rest → n ≤ cs.length → Collapsed tiers cs n best →
      Collapsed tiers cs cs.length (collapse tiers best n rest) := by
  induction rest with
  | nil =>
    intro n _ hdrop hn hcol
    have : n = cs.length := Nat.le_antisymm hn (List.drop_eq_nil_iff.1 hdrop)
    exact this ▸ hcol
  | cons owners _ ih =>
    intro n _ hdrop _ hcol
    have howners : cs[n]? = some owners := by
      rw [← List.head?_drop, hdrop]
      rfl
    have hlt := (List.getElem?_eq_some_iff.1 howners).1
    refine ih (n + 1) _ ?_ hlt (hcol.depth howners)
    rw [← List.drop_drop, hdrop]
    rfl

lemma collapsed_zero (tiers cs) :
    Collapsed tiers cs 0 ∅ where
  labelled hk m hm := by cases hm
  segments hk _ := decomposes_zero _
  isLocal hk _ := by
    constructor
    · intro h
      cases h
    · rintro ⟨d, hd, -⟩
      exact absurd hd (Nat.not_lt_zero d)

end VllmRouter.KvIndex
