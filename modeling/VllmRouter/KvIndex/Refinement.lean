import VllmRouter.KvIndex.Matches

/-!
# The block index refines a set of observations

For every sequence of calls in which an engine key always names the same full
path, the shard answers every query from the set of active observations: each
`(target, tier)` of interest that holds a prefix of the query is reported once,
with the maximal runs of the depths it holds.
-/

namespace VllmRouter.KvIndex

open GroupShard Observations List

/-- The contract on the engine's keys: each key of a store names the path of
its parent followed by the local hashes up to its block. -/
def ShardOp.Respects (path : Hash → List Hash) : ShardOp → Prop
  | .store _ _ parentSeq blocks => NamesPaths path parentSeq blocks
  | _ => True

/-- Some active observation of `owner` at `tier` names the query's prefix up to
depth `d`. -/
def Names (path : Hash → List Hash) (obs : Observations) (q : List Hash)
    (tier : StorageTier) (d : Nat) (owner : ResidencyOwner) : Prop :=
  d < q.length ∧ ∃ s, ((owner, tier), s) ∈ obs.active ∧ path s = q.take (d + 1)

/-- The target holds depth `d` of the query at `tier`. -/
def Held (path : Hash → List Hash) (obs : Observations) (q : List Hash)
    (target : RoutableTarget) (tier : StorageTier) (d : Nat) : Prop :=
  ∃ owner, owner.target = target ∧ Names path obs q tier d owner

/-- The reference answer to a query over a set of observations. -/
structure Answers (path : Hash → List Hash) (obs : Observations) (query : MatchQuery)
    (ms : List TierMatch) : Prop where
  /-- one row per `(target, tier)` -/
  distinct : (ms.map fun m => (m.target, m.tier)).Nodup
  /-- the rows are the targets that hold something at a tier of interest -/
  reported : ∀ target tier, (∃ m ∈ ms, m.target = target ∧ m.tier = tier) ↔
    tier ∈ query.tiersOfInterest ∧ ∃ d, Held path obs query.localHashes target tier d
  /-- the segments are in increasing order -/
  sorted : ∀ m ∈ ms, m.segments.Pairwise fun x y => x.2 < y.1
  /-- and are exactly the maximal runs of held depths -/
  segments : ∀ m ∈ ms, ∀ a b, (a, b) ∈ m.segments ↔
    IsMaximalRun (Held path obs query.localHashes m.target m.tier) a b
  /-- a row is local when one of the observations is a worker's own copy -/
  locality : ∀ m ∈ ms, m.locality = .local ↔
    ∃ d source dpRank incarnation,
      (ResidencyOwner.worker source dpRank incarnation).target = m.target ∧
      Names path obs query.localHashes m.tier d (.worker source dpRank incarnation)

lemma locality_eq_local_iff (owner : ResidencyOwner) :
    owner.locality = .local ↔ ∃ source dpRank inc, owner = .worker source dpRank inc := by
  cases owner <;> simp [ResidencyOwner.locality]

/-- Rows of labelled hits are distinct. -/
lemma nodup_labels (hlab : Labelled tiers best) :
    (best.values.map fun m => (m.target, m.tier)).Nodup := by
  have hkeys : best.values.map (fun m => (m.target, m.tier)) = best.keys := by
    unfold Dict.values AList.keys keys
    rw [map_map]
    refine map_congr_left fun e he => ?_
    exact (hlab e.1 e.2 ((Dict.mem_entries_iff best e.1 e.2).1 he)).1
  rw [hkeys]
  exact best.keys_nodup

/-- A shard that represents the paths of its observations answers every query. -/
lemma findMatches_answers (hrep : Represents path pre sh) (hobs : Observes sh obs) (query) :
    ∃ ms, sh.findMatches query = some ms ∧ Answers path obs query ms := by
  obtain ⟨cs, hrun, _, hcs⟩ := nodeClaims_spec hrep.wf query.localHashes
  let best := collapse query.tiersOfInterest ∅ 0 cs
  have hcol : Collapsed query.tiersOfInterest cs cs.length best :=
    collapse_collapsed query.tiersOfInterest cs cs 0 ∅ rfl (Nat.zero_le _) (collapsed_zero _ _)
  -- a claim found at depth `d` is an observation that names the prefix up to `d`
  have hnames : ∀ owner tier d, (owner, tier) ∈ cs[d]?.getD [] ↔
      Names path obs query.localHashes tier d owner := by
    intro _ _ d
    by_cases hd : d < query.localHashes.length
    · rw [hrep.mem_nodeClaims hcs hd]
      unfold Names
      simp only [hd, true_and, hobs.active]
    · have hnone : cs[d]? = none := getElem?_eq_none (by omega)
      simp [Names, hd, hnone]
  have hheld : ∀ hk d, HeldAt cs hk d ↔ Held path obs query.localHashes hk.1 hk.2 d := by
    rintro ⟨_, tier⟩ d
    constructor
    · rintro ⟨⟨owner, tier'⟩, hmem, htarget, rfl⟩
      exact ⟨owner, htarget, (hnames owner tier' d).1 hmem⟩
    · rintro ⟨owner, htarget, h⟩
      exact ⟨(owner, tier), (hnames owner tier d).2 h, htarget, rfl⟩
  have hbound : ∀ hk d, HeldAt cs hk d → d < cs.length := by
    rintro _ _ ⟨_, hmem, -⟩
    by_contra hd
    rw [getElem?_eq_none (Nat.le_of_not_lt hd)] at hmem
    cases hmem
  let ms := best.values.filter fun m => decide (m.segments ≠ [])
  have hms : ∀ m, m ∈ ms ↔ best.lookup (m.target, m.tier) = some m := by
    intro m
    rw [mem_filter, Dict.mem_values_iff]
    constructor
    · rintro ⟨⟨hk, hm⟩, -⟩
      rw [(hcol.labelled hk m hm).1]
      exact hm
    · intro hm
      exact ⟨⟨_, hm⟩, decide_eq_true (hcol.labelled _ m hm).2.2⟩
  have hsegs : ∀ m ∈ ms, segmentsOf best (m.target, m.tier) = m.segments := by
    intro m hm
    unfold segmentsOf
    rw [(hms m).1 hm]
    rfl
  have hdec : ∀ m ∈ ms, Decomposes (HeldAt cs (m.target, m.tier)) cs.length m.segments := by
    intro m hm
    rw [← hsegs m hm]
    exact hcol.segments _ (hcol.labelled _ m ((hms m).1 hm)).2.1
  refine ⟨ms, ?_, ?_, ?_, ?_, ?_, ?_⟩
  · simp only [findMatches, hrun]
    rfl
  · exact (nodup_labels hcol.labelled).sublist (filter_sublist.map _)
  · intro target tier
    constructor
    · rintro ⟨m, hm, rfl, rfl⟩
      have hl := hcol.labelled _ m ((hms m).1 hm)
      refine ⟨hl.2.1, ?_⟩
      by_contra hno
      refine hl.2.2 ((hdec m hm).eq_nil_iff.2 fun d _ hd => hno ⟨d, ?_⟩)
      exact (hheld _ d).1 hd
    rintro ⟨htier, d, hd⟩
    have hat := (hheld (target, tier) d).2 hd
    have hne : segmentsOf best (target, tier) ≠ [] := fun hnil =>
      (hcol.segments (target, tier) htier).eq_nil_iff.1 hnil d (hbound _ d hat) hat
    cases hlook : best.lookup (target, tier) with
    | none => simp [segmentsOf, hlook] at hne
    | some m =>
      have hl := (hcol.labelled _ m hlook).1
      refine ⟨m, (hms m).2 (hl ▸ hlook), ?_, ?_⟩
      · exact congrArg Prod.fst hl
      · exact congrArg Prod.snd hl
  · exact fun m hm => (hdec m hm).sorted
  · intro m hm a b
    rw [(hdec m hm).runs a b]
    have hiff : ∀ d, (HeldAt cs (m.target, m.tier) d ∧ d < cs.length) ↔
        Held path obs query.localHashes m.target m.tier d := by
      intro d
      rw [← hheld (m.target, m.tier) d]
      exact ⟨fun h => h.1, fun h => ⟨h, hbound _ d h⟩⟩
    exact ⟨fun h => h.congr hiff, fun h => h.congr fun d => (hiff d).symm⟩
  intro m hm
  have hlook := (hms m).1 hm
  have hl := hcol.isLocal _ (hcol.labelled _ m hlook).2.1
  have hself : IsLocal best (m.target, m.tier) ↔ m.locality = .local := by
    unfold IsLocal
    rw [hlook]
    simp
  rw [← hself, hl]
  constructor
  · rintro ⟨d, -, ⟨owner, _⟩, hmem, ⟨htarget, rfl⟩, hloc⟩
    obtain ⟨source, dpRank, inc, rfl⟩ := (locality_eq_local_iff owner).1 hloc
    exact ⟨d, source, dpRank, inc, htarget, (hnames _ _ d).1 hmem⟩
  rintro ⟨d, _, _, _, htarget, hn⟩
  have hmem := (hnames _ _ d).2 hn
  exact ⟨d, hbound (m.target, m.tier) d ⟨_, hmem, htarget, rfl⟩, _, hmem, ⟨htarget, rfl⟩, rfl⟩

/-- The shard after a run of calls that respect the contract. -/
lemma runOps_represents (ops) (hops : ∀ op ∈ ops, op.Respects path) :
    ∃ sh, runOps ops = some sh ∧ (∃ pre, Represents path pre sh) ∧ Observes sh (run ops) := by
  refine foldlM_rule (P := fun done sh => (∃ pre, Represents path pre sh) ∧ Observes sh (run done))
    ?_ ops [] GroupShard.new rfl ⟨⟨_, represents_new path⟩, observes_new⟩
  rintro _ op _ _ rfl ⟨⟨pre, hrep⟩, hobs⟩
  have hop := hops op (by simp)
  obtain ⟨sh', hrun, hrep', hobs'⟩ := applyOp_observes (closed_represents path) ⟨pre, hrep⟩
    hobs op fun _ _ _ _ sh' heq hstore => by
      subst heq
      exact hrep.store hop hstore
  refine ⟨sh', hrun, hrep', ?_⟩
  unfold run
  rw [foldl_append]
  exact hobs'

/-- **The index refines the set of observations**: after any calls that respect
the key contract, every query returns the reference answer. -/
theorem findMatches_refines_observations (path : Hash → List Hash) (ops : List ShardOp)
    (hops : ∀ op ∈ ops, op.Respects path) (query : MatchQuery) :
    ∃ sh ms, runOps ops = some sh ∧ sh.findMatches query = some ms ∧
      Answers path (run ops) query ms := by
  obtain ⟨sh, hrun, ⟨_, hrep⟩, hobs⟩ := runOps_represents ops hops
  obtain ⟨ms, hfind, hans⟩ := findMatches_answers hrep hobs query
  exact ⟨sh, ms, hrun, hfind, hans⟩

/-- A run that splits an edge at a divergence and below an interior parent,
aliases a block, and evicts one block in the middle of a prefix. -/
def sampleOps : List ShardOp :=
  [.store (.worker "w0" 0 0) .device none [("s1", "a"), ("s2", "b"), ("s3", "c")],
    .store (.cacheOwner "pool" "w1" 0) .external none [("t1", "a"), ("t2", "x")],
    .store (.worker "w0" 0 0) .hostPinned (some "s2") [("u3", "d")],
    .remove (.worker "w0" 0 0) .device ["s2"]]

/-- The paths that the keys of `sampleOps` name. -/
def samplePath (seq : Hash) : List Hash :=
  ([("s1", ["a"]), ("s2", ["a", "b"]), ("s3", ["a", "b", "c"]), ("t1", ["a"]),
    ("t2", ["a", "x"]), ("u3", ["a", "b", "d"])].lookup seq).getD []

lemma sampleOps_respects : ∀ op ∈ sampleOps, op.Respects samplePath := by
  -- a store names its paths when a check over its positions says so
  have hcheck : ∀ parentSeq blocks, ((List.range blocks.length).all fun i => decide
        (blocks[i]?.map (fun b => samplePath b.1)
          = some (parentPath samplePath parentSeq ++ (blocks.take (i + 1)).map Prod.snd))) = true →
      NamesPaths samplePath parentSeq blocks := by
    intro _ _ h i _ hb
    have hlt := (List.getElem?_eq_some_iff.1 hb).1
    have hi := List.all_eq_true.1 h i (List.mem_range.2 hlt)
    rw [decide_eq_true_eq, hb] at hi
    exact Option.some.inj hi
  intro op hop
  simp only [sampleOps, List.mem_cons, List.not_mem_nil, or_false] at hop
  rcases hop with rfl | rfl | rfl | rfl
  · exact hcheck _ _ (by decide)
  · exact hcheck _ _ (by decide)
  · exact hcheck _ _ (by decide)
  · trivial

/-- The eviction leaves a gap: the device hit has two maximal segments. -/
theorem findMatches_refines_observations_sample : (∀ op ∈ sampleOps, op.Respects samplePath) ∧
      ((runOps sampleOps).bind fun sh => sh.findMatches ⟨0, ["a", "b", "c"], [.device]⟩)
        = some [⟨⟨"w0", 0⟩, .device, [(0, 1), (2, 3)], .local⟩] ∧
      ∃ sh ms, runOps sampleOps = some sh ∧
        sh.findMatches ⟨0, ["a", "b", "c"], [.device]⟩ = some ms ∧
        Answers samplePath (run sampleOps) ⟨0, ["a", "b", "c"], [.device]⟩ ms :=
  ⟨sampleOps_respects, by decide,
    findMatches_refines_observations samplePath sampleOps sampleOps_respects _⟩

end VllmRouter.KvIndex
