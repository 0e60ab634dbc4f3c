import VllmRouter.Lib.Machine
import VllmRouter.KvIndex.Atomic

/-!
# A query between suspensions (`KvBlockIndexer::find_matches`)

A query loads the source generation, walks the tree one node lock at a time,
tests every hit against the suspended sources and loads the generation again.
`suspend_source` and `resume_source` are two steps each, in opposite orders: a
suspension inserts the source and then bumps the generation, a resume bumps the
generation and then removes the source. This module interleaves them.

- `IndexThreads`: the index, the running calls and the running queries.
  `repairing` is not in the source: the sources that are suspended and for
  which no resume has begun since.
- `Hidden`: why a source under repair stays out of a query's answer. It is
  suspended with no resume on its way, or the generation has moved.
- `query_skips_repairing`: a query never returns a hit with a claim that it read
  while the hit's source was under repair.

What the writers of the tree do is left open: a `write` puts any shard in the
place of the old one. So the result holds for all steps of `store`, `remove` and
`clear_source`, the last of which is the rest of `invalidate_source` after its
suspension. The generation is a natural number here and wraps in the source.
-/

namespace VllmRouter.KvIndex

open List

/-- A publisher rank, the key of `suspended_sources`. -/
abbrev SourceRank := SourceId × Nat

def RoutableTarget.sourceRank (t : RoutableTarget) : SourceRank := (t.instanceId, t.dpRank)

/-! ## The steps -/

/-- A call that changes which sources are suspended. -/
inductive SourceCall where
  | suspend (source : SourceRank)
  | resume (source : SourceRank)
deriving DecidableEq, Repr

/-- Where such a call is: each of them is two steps. -/
inductive SourcePc where
  | first
  | second
  | done
deriving DecidableEq, Repr

/-- Where a query of the index is. `during` has one entry for each depth that
was read: the sources under repair at that moment. -/
inductive FindPc where
  /-- Before the first generation load. -/
  | load
  | walk (generation : Nat) (pc : QueryPc) (during : List (List SourceRank))
  /-- Testing the hits; without one left, before the second generation load. -/
  | filter (generation : Nat) (nodeClaims : List (List OwnerTier))
      (during : List (List SourceRank)) (left kept : List TierMatch)
  | done (nodeClaims : List (List OwnerTier)) (during : List (List SourceRank))
      (result : List TierMatch)
  | panicked
deriving DecidableEq, Repr

/-- The depths read by a step are read while `repairing` are under repair. -/
def readDuring (repairing : List SourceRank) (during : List (List SourceRank))
    (pc : QueryPc) : List (List SourceRank) :=
  during ++ replicate (pc.nodeClaims.length - during.length) repairing

/-- One step of a query of the index. -/
def FindPc.step (idx : KvBlockIndexer) (repairing : List SourceRank) (query : MatchQuery) :
    FindPc → FindPc
  | .load => .walk idx.sourceGeneration .start []
  | .walk generation pc during =>
    match query.step (idx.shard query.groupIdx) pc with
    | none => .panicked
    | some (.done nodeClaims) =>
      .filter generation nodeClaims (readDuring repairing during (.done nodeClaims))
        (query.hits nodeClaims) []
    | some pc => .walk generation pc (readDuring repairing during pc)
  | .filter generation nodeClaims during (hit :: left) kept =>
    .filter generation nodeClaims during left
      (if idx.isSuspended hit.target.instanceId hit.target.dpRank then kept else kept ++ [hit])
  | .filter generation nodeClaims during [] kept =>
    .done nodeClaims during (if idx.sourceGeneration ≠ generation then [] else kept)
  | .done nodeClaims during result => .done nodeClaims during result
  | .panicked => .panicked

/-- The index with the calls and queries that run on it. -/
structure IndexThreads where
  idx : KvBlockIndexer
  repairing : List SourceRank
  calls : List (SourceCall × SourcePc)
  queries : List (MatchQuery × FindPc)

/-- Whose step is next. -/
inductive IndexEvent where
  | call (i : Nat)
  | query (i : Nat)
  /-- Some writer's step on one shard. -/
  | write (groupIdx : Nat) (sh : GroupShard)

namespace IndexThreads

/-- A new index, with the calls and queries that will run on it. -/
def start (calls : List SourceCall) (queries : List MatchQuery) : IndexThreads where
  idx := KvBlockIndexer.new
  repairing := []
  calls := calls.map fun c => (c, .first)
  queries := queries.map fun q => (q, .load)

def bump (idx : KvBlockIndexer) : KvBlockIndexer :=
  { idx with sourceGeneration := idx.sourceGeneration + 1 }

variable (s : IndexThreads)

/-- One step of a `suspend_source` or `resume_source`. -/
def stepCall (i : Nat) : SourceCall × SourcePc → IndexThreads
  | (.suspend src, .first) => { s with
      idx := { s.idx with suspendedSources := s.idx.suspendedSources.insert src () }
      repairing := s.repairing.insert src
      calls := s.calls.set i (.suspend src, .second) }
  | (.suspend src, .second) => { s with
      idx := bump s.idx
      calls := s.calls.set i (.suspend src, .done) }
  | (.resume src, .first) => { s with
      idx := bump s.idx
      repairing := s.repairing.filter fun other => decide (other ≠ src)
      calls := s.calls.set i (.resume src, .second) }
  | (.resume src, .second) => { s with
      idx := { s.idx with suspendedSources := s.idx.suspendedSources.erase src }
      calls := s.calls.set i (.resume src, .done) }
  | (_, .done) => s

def step : IndexEvent → IndexThreads
  | .call i =>
    match s.calls[i]? with
    | none => s
    | some c => s.stepCall i c
  | .query i =>
    match s.queries[i]? with
    | none => s
    | some (q, pc) => { s with queries := s.queries.set i (q, pc.step s.idx s.repairing q) }
  | .write groupIdx sh => { s with idx := { s.idx with shards := s.idx.shards.insert groupIdx sh } }

def run (es : List IndexEvent) : IndexThreads := es.foldl step s

/-- A resume of the source has bumped the generation and not yet removed the
source. -/
def resuming (src : SourceRank) : Bool :=
  decide ((SourceCall.resume src, SourcePc.second) ∈ s.calls)

/-- No suspension of a source begins while a resume of it is between its two
steps. The tasks of the subscriber see to that: there is one for each publisher
rank, and it makes one call after the other. -/
def soleGuard : IndexEvent → Bool
  | .call i =>
    match s.calls[i]? with
    | some (.suspend src, .first) => !s.resuming src
    | _ => true
  | _ => true

end IndexThreads

/-! ## Why a source under repair stays out of the answer -/

open IndexThreads

variable {s s' : IndexThreads} {src : SourceRank} {generation : Nat}

def IndexThreads.Suspended (s : IndexThreads) (src : SourceRank) : Prop :=
  s.idx.isSuspended src.1 src.2 = true

/-- The source is suspended, and no resume of it is on its way. -/
def Blocked (s : IndexThreads) (src : SourceRank) : Prop :=
  s.Suspended src ∧ s.resuming src = false

/-- For a query that loaded `generation`: the source will fail the test of the
hits, or the query will see that the generation has moved. -/
def Hidden (s : IndexThreads) (generation : Nat) (src : SourceRank) : Prop :=
  Blocked s src ∨ generation < s.idx.sourceGeneration

/-- A query has one entry for each depth it read, and what was under repair then is hidden
from it. -/
structure Reads (s : IndexThreads) (generation : Nat) (nodeClaims : List (List OwnerTier))
    (during : List (List SourceRank)) : Prop where
  length : during.length = nodeClaims.length
  loaded : generation ≤ s.idx.sourceGeneration
  hidden : ∀ repairing ∈ during, ∀ src ∈ repairing, Hidden s generation src

/-- What a query knows about the sources under repair when it read. -/
def FindPc.Ok (s : IndexThreads) : FindPc → Prop
  | .load => True
  | .walk generation pc during => Reads s generation pc.nodeClaims during
  | .filter generation nodeClaims during _ kept => Reads s generation nodeClaims during ∧
      ∀ m ∈ kept, ∀ repairing ∈ during, m.target.sourceRank ∈ repairing →
        generation < s.idx.sourceGeneration
  | .done nodeClaims during result => during.length = nodeClaims.length ∧
      ∀ m ∈ result, ∀ repairing ∈ during, m.target.sourceRank ∉ repairing
  | .panicked => True

/-- The invariant: a source under repair is held back. -/
structure Shielded (s : IndexThreads) : Prop where
  held : ∀ src ∈ s.repairing, Blocked s src
  queries : ∀ (i : Nat) q pc, s.queries[i]? = some (q, pc) → FindPc.Ok s pc

lemma shielded_start (calls queries) :
    Shielded (start calls queries) where
  held src hsrc := by cases hsrc
  queries i q pc h := by
    simp only [start, getElem?_map, Option.map_eq_some_iff] at h
    obtain ⟨q', _, hpc⟩ := h
    cases hpc
    trivial

/-- A step of another thread: the generation only grows, and a source that is
hidden from a query stays hidden from it. -/
structure Shields (s s' : IndexThreads) : Prop where
  generation : s.idx.sourceGeneration ≤ s'.idx.sourceGeneration
  hidden : ∀ generation src, generation ≤ s.idx.sourceGeneration →
    Hidden s generation src → Hidden s' generation src

lemma Shields.reads (h : Shields s s') (hr : Reads s generation nodeClaims during) :
    Reads s' generation nodeClaims during :=
  ⟨hr.length, hr.loaded.trans h.generation,
    fun repairing hmem src hsrc => h.hidden _ _ hr.loaded (hr.hidden repairing hmem src hsrc)⟩

lemma Shields.ok (h : Shields s s') {pc : FindPc} (hpc : pc.Ok s) : pc.Ok s' := by
  cases pc with
  | load
  | panicked => trivial
  | walk => exact h.reads hpc
  | filter =>
    exact ⟨h.reads hpc.1, fun m hm repairing hr hsrc =>
      (hpc.2 m hm repairing hr hsrc).trans_le h.generation⟩
  | done => exact hpc

/-- A bump takes every source out of the answers of the running queries. -/
lemma shields_bump (hgen : s'.idx.sourceGeneration = s.idx.sourceGeneration + 1) :
    Shields s s' where
  generation := by rw [hgen]; exact Nat.le_succ _
  hidden generation src hle _ := .inr (by rw [hgen]; exact Nat.lt_succ_of_le hle)

lemma resuming_iff : s.resuming src = false ↔
    (SourceCall.resume src, SourcePc.second) ∉ s.calls := by
  simp [resuming]

lemma suspended_iff : s.Suspended src ↔ (s.idx.suspendedSources.lookup src).isSome := by rfl

/-- A call that steps to `c` starts no resume of a source other than the one `c`
resumes. -/
lemma resuming_set (hcalls : s'.calls = s.calls.set i c) (hc : c ≠ (.resume src, .second))
    (h : s.resuming src = false) : s'.resuming src = false := by
  rw [resuming_iff] at h ⊢
  rw [hcalls]
  intro hmem
  rcases mem_or_eq_of_mem_set hmem with hold | heq
  · exact h hold
  · exact hc heq.symm

/-- A step that neither moves the generation nor ends a suspension, and starts
no resume. -/
lemma shields_of_suspended (hgen : s'.idx.sourceGeneration = s.idx.sourceGeneration)
    (hkeep : ∀ src, Blocked s src → Blocked s' src) : Shields s s' where
  generation := hgen.ge
  hidden _ src _ hhid := hhid.imp (hkeep src) fun hlt => hlt.trans_eq hgen.symm

/-- A walk never drops claims it has collected. -/
lemma MatchQuery.step_length {query : MatchQuery} (h : query.step sh pc = some pc') :
    pc.nodeClaims.length ≤ pc'.nodeClaims.length := by
  cases pc with
  | start => exact Nat.zero_le _
  | read _ qi nodeClaims =>
    simp only [MatchQuery.step, Option.bind_eq_bind, Option.bind_eq_some_iff] at h
    obtain ⟨c, _, hstep⟩ := h
    have hext : pc'.nodeClaims = nodeClaims
        ++ c.claims.take (GroupShard.advance c.edge (query.localHashes.drop qi)) := by
      split_ifs at hstep with hlen hend
      · cases hstep
        rfl
      split at hstep
      · cases hstep
        rfl
      · cases hstep
        rfl
    rw [hext, length_append]
    exact Nat.le_add_right _ _
  | done =>
    cases h
    exact le_rfl

/-! ## Every step -/

/-- A step of a query, seen by the query itself. -/
lemma FindPc.step_ok (h : Shielded s) (query) {pc : FindPc} (hpc : pc.Ok s) :
    (pc.step s.idx s.repairing query).Ok s := by
  have hread : ∀ {generation during pc pc'}, Reads s generation (QueryPc.nodeClaims pc) during →
      query.step (s.idx.shard query.groupIdx) pc = some pc' →
      Reads s generation pc'.nodeClaims (readDuring s.repairing during pc') := by
    intro _ _ _ _ hr hstep
    have hle := MatchQuery.step_length hstep
    have hlen := hr.length
    refine ⟨?_, hr.loaded, fun repairing hmem src hsrc => ?_⟩
    · simp only [readDuring, length_append, length_replicate]
      omega
    rcases mem_append.1 hmem with hold | hnew
    · exact hr.hidden repairing hold src hsrc
    · rw [(mem_replicate.1 hnew).2] at hsrc
      exact .inl (h.held src hsrc)
  cases pc with
  | load => exact ⟨rfl, le_rfl, nofun⟩
  | walk _ pc =>
    simp only [FindPc.step]
    cases hstep : query.step (s.idx.shard query.groupIdx) pc with
    | none => trivial
    | some pc' =>
      cases pc' with
      | start
      | read => exact hread hpc hstep
      | done => exact ⟨hread hpc hstep, nofun⟩
  | filter generation _ _ left kept =>
    obtain ⟨hreads, hkept⟩ := hpc
    cases left with
    | nil =>
      -- the second load: kept hits of sources that were under repair saw a bump
      refine ⟨hreads.length, fun m hm repairing hr hsrc => ?_⟩
      by_cases hgen : s.idx.sourceGeneration = generation
      · rw [if_neg (not_not.2 hgen)] at hm
        exact absurd (hkept m hm repairing hr hsrc) (by rw [hgen]; exact Nat.lt_irrefl _)
      · rw [if_pos hgen] at hm
        cases hm
    | cons =>
      refine ⟨hreads, fun m hm repairing hr hsrc => ?_⟩
      split at hm
      · exact hkept m hm repairing hr hsrc
      rename_i hsus
      rcases mem_append.1 hm with hold | hnew
      · exact hkept m hold repairing hr hsrc
      rw [mem_singleton.1 hnew] at hsrc
      rcases hreads.hidden repairing hr _ hsrc with ⟨hsuspended, _⟩ | hlt
      · exact absurd hsuspended hsus
      · exact hlt
  | done => exact hpc
  | panicked => trivial

/-- A step that leaves the queries alone and shields them. -/
lemma Shielded.of_shields (h : Shielded s) (hsh : Shields s s')
    (hqueries : s'.queries = s.queries) (hheld : ∀ src ∈ s'.repairing, Blocked s' src) :
    Shielded s' where
  held := hheld
  queries i q pc hq := hsh.ok (h.queries i q pc (hqueries ▸ hq))

lemma Shielded.stepCall (h : Shielded s) (hc : s.calls[i]? = some c)
    (hg : soleGuard s (.call i) = true) :
    Shielded (s.stepCall i c) := by
  simp only [soleGuard, hc] at hg
  obtain ⟨call, pc⟩ := c
  cases call with
  | suspend src =>
    have hother : ∀ (pc' : SourcePc) (x : SourceRank),
        (SourceCall.suspend src, pc') ≠ (.resume x, .second) := nofun
    cases pc with
    | first =>
      have hfree : s.resuming src = false := by simpa using hg
      have hsus : ∀ x, (s.stepCall i (.suspend src, .first)).Suspended x ↔
          x = src ∨ s.Suspended x := by
        intro x
        rw [suspended_iff, suspended_iff]
        simp only [IndexThreads.stepCall, Dict.lookup_insert_eq]
        by_cases hx : x = src <;> simp [hx]
      refine h.of_shields (shields_of_suspended rfl fun x hx =>
          ⟨(hsus x).2 (.inr hx.1), resuming_set rfl (hother _ x) hx.2⟩) rfl fun x hx => ?_
      rcases mem_insert_iff.1 hx with rfl | hold
      · exact ⟨(hsus x).2 (.inl rfl), resuming_set rfl (hother _ x) hfree⟩
      · obtain ⟨hsuspended, hres⟩ := h.held x hold
        exact ⟨(hsus x).2 (.inr hsuspended), resuming_set rfl (hother _ x) hres⟩
    | second =>
      exact h.of_shields (shields_bump rfl) rfl
        fun x hx => ⟨(h.held x hx).1, resuming_set rfl (hother _ x) (h.held x hx).2⟩
    | done => exact h
  | resume src =>
    cases pc with
    | first =>
      refine h.of_shields (shields_bump rfl) rfl fun x hx => ?_
      obtain ⟨hmem, hne⟩ := mem_filter.1 hx
      exact ⟨(h.held x hmem).1, resuming_set rfl
        (fun heq => of_decide_eq_true hne (by cases heq; rfl)) (h.held x hmem).2⟩
    | second =>
      -- the source that leaves the set is not the one of a hidden claim
      have hmoving : s.resuming src = true := by simpa [resuming] using mem_of_getElem? hc
      have hkeep : ∀ x, Blocked s x → Blocked (s.stepCall i (.resume src, .second)) x := by
        rintro x ⟨hx, hres⟩
        have hne : x ≠ src := fun heq => by
          rw [heq, hmoving] at hres
          cases hres
        refine ⟨?_, resuming_set rfl nofun hres⟩
        rw [suspended_iff] at hx ⊢
        simp only [IndexThreads.stepCall, Dict.lookup_erase_eq, if_neg hne]
        exact hx
      exact h.of_shields (shields_of_suspended rfl hkeep) rfl fun x hx => hkeep x (h.held x hx)
    | done => exact h

lemma step_shielded (hg : soleGuard s e = true) (h : Shielded s) : Shielded (s.step e) := by
  cases e with
  | call i =>
    cases hc : s.calls[i]? with
    | none =>
      simp only [IndexThreads.step, hc]
      exact h
    | some =>
      simp only [IndexThreads.step, hc]
      exact h.stepCall hc hg
  | query i =>
    cases hq : s.queries[i]? with
    | none =>
      simp only [IndexThreads.step, hq]
      exact h
    | some qpc =>
      obtain ⟨q, pc⟩ := qpc
      simp only [IndexThreads.step, hq]
      refine ⟨h.held, fun j q' pc' hj => ?_⟩
      have hsh : Shields s { s with
          queries := s.queries.set i (q, pc.step s.idx s.repairing q) } :=
        ⟨le_rfl, fun _ _ _ hhid => hhid⟩
      rcases getElem?_set_cases hj with ⟨_, heq⟩ | ⟨_, hold⟩
      · cases heq
        exact hsh.ok (FindPc.step_ok h q (h.queries i q pc hq))
      · exact hsh.ok (h.queries j q' pc' hold)
  | write groupIdx sh =>
    have hsh : Shields s (s.step (.write groupIdx sh)) := ⟨le_rfl, fun _ _ _ hhid => hhid⟩
    exact h.of_shields hsh rfl h.held

/-! ## The answer of a query -/

/-- **No query mixes suspended data.** Whatever is interleaved with a query, as
long as no suspension of a source begins inside a resume of the same source: for
a hit that the query returns, no claim was read while the hit's source was under
repair. -/
theorem query_skips_repairing {calls : List SourceCall} {queries : List MatchQuery}
    {es : List IndexEvent}
    (hguard : guardedRun IndexThreads.step soleGuard (start calls queries) es = true) :
    ∀ (i : Nat) q nodeClaims during result,
      ((start calls queries).run es).queries[i]? = some (q, .done nodeClaims during result) →
      during.length = nodeClaims.length ∧
      ∀ m ∈ result, ∀ (d : Nat) cl repairing, nodeClaims[d]? = some cl →
        during[d]? = some repairing → (∃ key ∈ cl, key.1.target = m.target ∧ key.2 = m.tier) →
        m.target.sourceRank ∉ repairing := by
  intro i q _ _ _ hq
  have hsh : Shielded ((start calls queries).run es) :=
    foldl_guarded (fun s e hg hs => step_shielded hg hs) es _ hguard (shielded_start calls queries)
  obtain ⟨hlength, hskips⟩ := hsh.queries i q _ hq
  refine ⟨hlength, fun m hm d cl repairing _ hd _ => ?_⟩
  exact hskips m hm repairing (mem_of_getElem? hd)

/-- One block of the source `w`, and a query for it. -/
def oneBlock : GroupShard :=
  (GroupShard.new.store (.worker "w" 0 0) .device none [("s", "b")]).getD GroupShard.new

def oneQuery : MatchQuery := ⟨0, ["b"], [.device]⟩

/-- Two overlapping calls: `w` is suspended, a resume of it bumps the generation,
and `w` is suspended again. Then a query reads the claim of `w`, the first resume
removes the source, and the query goes on. -/
def overlapping : List IndexEvent :=
  [.write 0 oneBlock, .call 0, .call 0, .call 1, .call 2, .call 2,
    .query 0, .query 0, .query 0, .call 1, .query 0, .query 0]

/-- The query returns a hit of `w` that it read while `w` was under repair: both
generation loads come after the bumps, and the test of the hit comes after the
removal of the source. -/
theorem query_reads_overlapped :
    ((start [.suspend ("w", 0), .resume ("w", 0), .suspend ("w", 0)] [oneQuery]).run
        overlapping).queries[0]? = some (oneQuery, .done [[(.worker "w" 0 0, .device)]] [[("w", 0)]]
          [⟨⟨"w", 0⟩, .device, [(0, 1)], .local⟩]) := by
  decide +kernel

/-- A repair of `w`, and then a query while another source is suspended. -/
def separate : List IndexEvent :=
  [.write 0 oneBlock, .call 0, .call 0, .call 1, .call 1, .call 2, .call 2, .query 0, .query 0,
    .query 0, .query 0, .query 0]

def separateStart : IndexThreads :=
  start [.suspend ("w", 0), .resume ("w", 0), .suspend ("v", 0)] [oneQuery]

/-- The query returns the hit of `w`. -/
theorem query_skips_repairing_separate :
    guardedRun IndexThreads.step soleGuard separateStart separate = true ∧
      (separateStart.run separate).queries[0]?
        = some (oneQuery, .done [[(.worker "w" 0 0, .device)]] [[("v", 0)]]
            [⟨⟨"w", 0⟩, .device, [(0, 1)], .local⟩]) ∧ ("w", 0) ∉ [("v", 0)] := by
  have hguard : guardedRun IndexThreads.step soleGuard separateStart separate = true := by
    decide +kernel
  have hdone : (separateStart.run separate).queries[0]?
        = some (oneQuery, .done [[(.worker "w" 0 0, .device)]] [[("v", 0)]]
            [⟨⟨"w", 0⟩, .device, [(0, 1)], .local⟩]) := by
    decide +kernel
  refine ⟨hguard, hdone, ?_⟩
  exact (query_skips_repairing hguard 0 _ _ _ _ hdone).2 _ (mem_singleton_self _) 0 _ _
    rfl rfl ⟨_, mem_singleton_self _, rfl, rfl⟩

end VllmRouter.KvIndex
