import Mathlib.Data.List.Permutation
import VllmRouter.KvIndex.Concurrency

/-!
# Concurrent calls on a shard

The guarantees of the interleaving model, for every schedule of calls that
respect the contract on the engine's keys and whose writers have pairwise
distinct owners. No step panics, and

- once the writers are done, queries are answered as if the calls had run one
  after the other;
- what a running query reports was there at some moment while it ran
  (`run_claims_seen`);
- a hash whose anchor was moved is resolved again at most as often as its path is
  long (`Coherent.retries_le`).

The contract is needed: with a key that names two paths there is a schedule that
no order of the calls explains.
-/

namespace VllmRouter.KvIndex

open Threads List Option Thread GroupShard

variable {path : Hash → List Hash} {v sh₀ : GroupShard} {calls : List Call}

/-! ## Running queries -/

/-- Query `j` is in the middle of its walk. -/
def Threads.Reading (s : Threads) (j : Nat) (q : MatchQuery) : Prop :=
  ∃ child qi nodeClaims, s.threads[j]? = some (.query q (.read child qi nodeClaims))

/-- Every claim that a query has read was on its path when it read it. -/
lemma run_claims_seen (hrep : Represents path pre sh₀) (hobs : Observes sh₀ obs0)
    (hnames : ∀ call, Call.store call ∈ calls → NamesPaths path call.parentSeq call.blocks)
    (howners : (calls.filterMap Call.owner).Nodup) (schedule) :
    ∀ j q pc, ((start sh₀ calls).run schedule).threads[j]? = some (.query q pc) →
      ∀ d cl, pc.nodeClaims[d]? = some cl → ∃ before after, schedule = before ++ after ∧
        ((start sh₀ calls).run before).Reading j q ∧
        ((start sh₀ calls).run before).sh.claimsOn (q.localHashes.take (d + 1)) = some cl := by
  induction schedule using reverseRecOn with
  | nil =>
    intro _ _ _ hu _ _ hcl
    obtain ⟨c, -, hstart⟩ := getElem?_start hu
    cases c <;> cases hstart
    cases hcl
  | append_singleton schedule i ih =>
    intro j q pc hu d cl hcl
    obtain ⟨_, _, -, -, hco, -⟩ := run_coherent hrep hobs hnames howners schedule
    obtain ⟨_, _, hmoved⟩ := hco.moved i
    rw [run_snoc] at hu
    -- what the query had read before this step
    have hbefore : ∀ pc0, ((start sh₀ calls).run schedule).threads[j]?
          = some (.query q pc0) → pc0.nodeClaims[d]? = some cl →
        ∃ before after, schedule ++ [i] = before ++ after ∧
          ((start sh₀ calls).run before).Reading j q ∧
          ((start sh₀ calls).run before).sh.claimsOn (q.localHashes.take (d + 1))
            = some cl := by
      intro pc0 hu0 hcl0
      obtain ⟨before, after, heq, h⟩ := ih j q pc0 hu0 d cl hcl0
      exact ⟨before, after ++ [i], by rw [heq, append_assoc], h⟩
    generalize ((start sh₀ calls).run schedule).step i = s' at hu hmoved
    cases hmoved with
    | idle => exact hbefore pc hu hcl
    | store ht hmove
    | remove =>
      rcases getElem?_set_cases hu with ⟨_, heq⟩ | ⟨_, hold⟩
      · cases heq
      · exact hbefore pc hold hcl
    | query ht hstep =>
      rcases getElem?_set_cases hu with ⟨rfl, heq⟩ | ⟨_, hold⟩
      · obtain ⟨rfl, rfl⟩ := query.inj heq
        obtain ⟨_, hstep', -, hread⟩ := MatchQuery.step_spec hco.shadows hco.rep (hco.ok j _ ht)
        obtain rfl := some.inj (hstep.symm.trans hstep')
        rcases hread d cl hcl with hold | ⟨⟨child, qi, nodeClaims, rfl⟩, -, hon⟩
        · exact hbefore _ ht hold
        · exact ⟨schedule, [j], rfl, ⟨child, qi, nodeClaims, ht⟩, hon⟩
      · exact hbefore pc hold hcl

/-- The segments of a hit are runs of the depths that its claims hold. -/
lemma hits_heldAt {query : MatchQuery} {nodeClaims : List (List OwnerTier)}
    (hm : m ∈ query.hits nodeClaims) (hseg : seg ∈ m.segments) (hle : seg.1 ≤ d) (hlt : d < seg.2) :
    HeldAt nodeClaims (m.target, m.tier) d := by
  have hcol : Collapsed query.tiersOfInterest nodeClaims nodeClaims.length
      (collapse query.tiersOfInterest ∅ 0 nodeClaims) :=
    collapse_collapsed _ nodeClaims nodeClaims 0 ∅ rfl (Nat.zero_le _) (collapsed_zero _ _)
  obtain ⟨hk, hlook⟩ := (Dict.mem_values_iff _ m).1 (mem_filter.1 hm).1
  obtain ⟨rfl, htier, -⟩ := hcol.labelled hk m hlook
  have hsegs : segmentsOf (collapse query.tiersOfInterest ∅ 0 nodeClaims) (m.target, m.tier)
      = m.segments := by
    unfold segmentsOf
    rw [hlook]
    rfl
  have hdec := hcol.segments (m.target, m.tier) htier
  rw [hsegs] at hdec
  exact (((hdec.runs seg.1 seg.2).1 hseg).inside d hle hlt).1

/-! ## Resolving again -/

/-- The hash that a writer is resolving, and how often it had to start again. -/
def Thread.resolving : Thread → Option (Hash × Nat)
  | .store _ (.resolve (some seq) _ retries) => some (seq, retries)
  | .store _ (.lock (some seq) _ retries _) => some (seq, retries)
  | .remove call (.resolve i _ retries) => call.seqHashes[i]?.map fun seq => (seq, retries)
  | .remove call (.lock i _ retries _) => call.seqHashes[i]?.map fun seq => (seq, retries)
  | _ => none

lemma Coherent.retries_le (h : Coherent path obs0 s pre v) {j : Nat} (ht : s.threads[j]? = some t)
    {seq : Hash} (hres : t.resolving = some (seq, retries)) : retries ≤ (path seq).length := by
  have hok := h.ok j t ht
  cases t with
  | store _ pc =>
    obtain ⟨-, hok⟩ := hok
    cases pc with
    | resolve cursor =>
      cases cursor with
      | none => cases hres
      | some =>
        cases hres
        exact (hok.2.2 seq rfl).2.le h.rep
    | lock cursor =>
      cases cursor with
      | none => cases hres
      | some =>
        cases hres
        exact (hok.2.2.2 seq rfl).le h.rep
    | check
    | claim bi child
    | done => cases hres
  | remove _ pc =>
    cases pc with
    | resolve =>
      obtain ⟨s', hs', hretry⟩ := hok
      simp only [resolving, hs'] at hres
      cases hres
      exact hretry.le h.rep
    | lock =>
      obtain ⟨s', hs', hfol⟩ := hok
      simp only [resolving, hs', map_some] at hres
      cases hres
      exact hfol.le h.rep
    | next i
    | count i removed
    | uncount i
    | done => cases hres
  | query q pc
  | panicked => cases hres

/-! ## The guarantees -/

/-- **Concurrent calls linearize.** After any calls that respect the contract, any
number of stores and removes of pairwise distinct owners run in any interleaving
with any queries. No thread panics; when the writers are done the shard answers
every query as after some order of the calls; a query reports a depth only if the
target had a claim on that prefix while the query ran; and a moved anchor is
resolved again at most as often as the hash's path is long. -/
theorem concurrent_calls_linearize {path : Hash → List Hash} {ops₀ : List ShardOp}
    (hops : ∀ op ∈ ops₀, op.Respects path) {sh₀ : GroupShard} (hsh₀ : runOps ops₀ = some sh₀)
    {calls : List Call}
    (hnames : ∀ call, Call.store call ∈ calls → NamesPaths path call.parentSeq call.blocks)
    (howners : (calls.filterMap Call.owner).Nodup) (schedule : List Nat) :
    panicked ∉ ((start sh₀ calls).run schedule).threads ∧
    ((∀ t ∈ ((start sh₀ calls).run schedule).threads, t.writerDone = true) →
      ∃ order sh, order.Perm (calls.filterMap Call.op) ∧ runOps (ops₀ ++ order) = some sh ∧
        ∀ query, ∃ ms ms', ((start sh₀ calls).run schedule).sh.findMatches query = some ms ∧
          sh.findMatches query = some ms' ∧ ms.Perm ms') ∧
    (∀ (j : Nat) q nodeClaims, ((start sh₀ calls).run schedule).threads[j]?
        = some (.query q (.done nodeClaims)) →
      ∀ m ∈ q.hits nodeClaims, ∀ seg ∈ m.segments, ∀ d, seg.1 ≤ d → d < seg.2 →
        ∃ before after cl key, schedule = before ++ after ∧
          ((start sh₀ calls).run before).Reading j q ∧
          ((start sh₀ calls).run before).sh.claimsOn (q.localHashes.take (d + 1)) = some cl ∧
          key ∈ cl ∧ key.1.target = m.target ∧ key.2 = m.tier) ∧
    ∀ (j : Nat) t seq retries, ((start sh₀ calls).run schedule).threads[j]? = some t →
      t.resolving = some (seq, retries) → retries ≤ (path seq).length := by
  obtain ⟨_, hrun1, ⟨pre, hrep⟩, hobs⟩ := runOps_represents ops₀ hops
  obtain rfl := some.inj (hsh₀.symm.trans hrun1)
  obtain ⟨pre', v, skipped, log, hco, hord, hcalls⟩ :=
    run_coherent hrep hobs hnames howners schedule
  refine ⟨fun hpanic => ?_, fun hdone => ?_, ?_, ?_⟩
  · obtain ⟨j, hj⟩ := mem_iff_getElem?.1 hpanic
    exact hco.ok j _ hj
  · have hperm := (hord.perm.append_right _).trans (placed_removal_perm hdone)
    have hlin := sequential_observes hco hdone hord
    rw [hcalls] at hperm
    generalize skipped ++ log ++ _ = order at hperm hlin
    -- the calls of the order respect the contract, so they can run one by one
    have hrespects : ∀ op ∈ ops₀ ++ order, op.Respects path := by
      intro op hop
      rcases mem_append.1 hop with hop | hop
      · exact hops op hop
      obtain ⟨c, hc, hcop⟩ := mem_filterMap.1 (hperm.mem_iff.1 hop)
      cases c with
      | store call =>
        cases hcop
        exact hnames call hc
      | remove =>
        cases hcop
        trivial
      | query => cases hcop
    obtain ⟨sh, hrun, ⟨_, hrep''⟩, hobs''⟩ := runOps_represents (ops₀ ++ order) hrespects
    refine ⟨order, sh, hperm, hrun, fun query => ?_⟩
    have hsettled : ∃ pre, Represents path pre ((start sh₀ calls).run schedule).sh :=
      (closed_represents path).congr v _ ⟨pre', hco.rep⟩ hco.shadows.nodes.symm
        hco.shadows.anchors.symm fun k x => by
          rw [hco.shadows.active, and_iff_left (not_pending hdone k x)]
    obtain ⟨_, hrep3⟩ := hsettled
    obtain ⟨ms, hms, hans⟩ := findMatches_answers hrep3 hlin query
    obtain ⟨ms', hms', hans'⟩ := findMatches_answers hrep'' hobs'' query
    refine ⟨ms, ms', hms, hms', hans.perm ?_⟩
    unfold Observations.run at hans'
    rw [foldl_append] at hans'
    exact hans'
  · intro j q nodeClaims hu _ hm _ hseg d hle hlt
    obtain ⟨key, hkey, hcounts⟩ := hits_heldAt hm hseg hle hlt
    obtain ⟨cl, hcl, hmem⟩ : ∃ cl, nodeClaims[d]? = some cl ∧ key ∈ cl := by
      cases hcl : nodeClaims[d]? with
      | none =>
        rw [hcl] at hkey
        cases hkey
      | some cl => exact ⟨cl, rfl, by rwa [hcl] at hkey⟩
    obtain ⟨before, after, heq, hreading, hon⟩ :=
      run_claims_seen hrep hobs hnames howners schedule j q _ hu d cl hcl
    exact ⟨before, after, cl, key, heq, hreading, hon, hmem, hcounts⟩
  · exact fun _ _ _ _ ht hres => hco.retries_le ht hres

/-- `s` names `a` and `u` names `d`; the tree also has `b` above `c`. -/
def tornOps : List ShardOp :=
  [.store (.worker "v" 0 0) .device none [("v1", "b")],
    .store (.worker "v" 0 0) .device (some "v1") [("v2", "c")],
    .store (.worker "w" 0 0) .device none [("s", "a")],
    .store (.worker "w" 0 0) .device none [("u", "d")]]

/-- A store that reuses `s` and `u` for `b` and `c`, and their removal by `w`. -/
def tornCalls : List Call :=
  [.store ⟨.worker "x" 0 0, .device, none, [("s", "b"), ("u", "c")]⟩,
    .remove ⟨.worker "w" 0 0, .device, ["s", "u"]⟩]

/-- The removal runs between the two blocks of the store. -/
def tornSchedule : List Nat := replicate 4 0 ++ replicate 11 1 ++ replicate 4 0

def tornRun : Threads :=
  (start ((runOps tornOps).getD new) tornCalls).run tornSchedule

/-- **The contract is needed.** The store has moved the anchor of `s`, so the
removal misses the claim on `a`; it has not moved the anchor of `u` yet, so the
removal finds the claim on `d`. Of the two claims one stays, and in either order
of the two calls both stay or both go. -/
theorem reused_keys_tear :
    (tornCalls.filterMap Call.owner).Nodup ∧ (∀ t ∈ tornRun.threads, t.writerDone = true) ∧
      ¬ ∃ order sh, order.Perm (tornCalls.filterMap Call.op) ∧ runOps (tornOps ++ order) = some sh ∧
        ∀ query, ∃ ms ms', tornRun.sh.findMatches query = some ms ∧
          sh.findMatches query = some ms' ∧ ms.Perm ms' := by
  refine ⟨by decide +kernel, by decide +kernel, ?_⟩
  rintro ⟨order, sh, hperm, hrun, hans⟩
  have horder : order ∈ (tornCalls.filterMap Call.op).permutations' := mem_permutations'.2 hperm
  -- the store first: both claims stay; the removal first: both go
  have hcases : ∀ o ∈ (tornCalls.filterMap Call.op).permutations',
      (((runOps (tornOps ++ o)).bind fun sh => sh.findMatches ⟨0, ["d"], [.device]⟩).map
          length = some 1) ∨
        (((runOps (tornOps ++ o)).bind fun sh => sh.findMatches ⟨0, ["a"], [.device]⟩).map
          length = some 0) := by
    decide +kernel
  have hrest : (tornRun.sh.findMatches ⟨0, ["d"], [.device]⟩).map length = some 0 ∧
      (tornRun.sh.findMatches ⟨0, ["a"], [.device]⟩).map length = some 1 := by
    decide +kernel
  have hsame : ∀ query, (tornRun.sh.findMatches query).map length
      = ((runOps (tornOps ++ order)).bind fun sh => sh.findMatches query).map length := by
    intro query
    obtain ⟨_, _, hms, hms', hp⟩ := hans query
    rw [hrun, bind_some, hms, hms', map_some, map_some, hp.length_eq]
  rcases hcases order horder with hd | ha
  · rw [← hsame] at hd
    cases hd
  · rw [← hsame] at ha
    cases ha

/-- The removal of `samplePath`'s keys while another owner stores them, and a query
that is in the middle of its walk. -/
def sampleCalls : List Call :=
  [.store ⟨.worker "w2" 0 0, .device, some "s1", [("s2", "b"), ("s3", "c")]⟩,
    .remove ⟨.worker "w0" 0 0, .device, ["s1", "s3"]⟩,
    .query ⟨0, ["a", "b", "c"], [.device]⟩]

def sampleSchedule : List Nat :=
  [2, 0, 0, 1, 1, 2, 0, 1, 1, 1, 2] ++ replicate 8 0 ++ replicate 8 1

theorem concurrent_calls_linearize_sample : ∃ sh₀, runOps sampleOps = some sh₀ ∧
      (∀ t ∈ ((start sh₀ sampleCalls).run sampleSchedule).threads, t.writerDone = true) ∧
      ∃ order sh, order.Perm (sampleCalls.filterMap Call.op) ∧
        runOps (sampleOps ++ order) = some sh ∧ ∀ query, ∃ ms ms',
          ((start sh₀ sampleCalls).run sampleSchedule).sh.findMatches query = some ms ∧
          sh.findMatches query = some ms' ∧ ms.Perm ms' := by
  have hsh : runOps sampleOps = some ((runOps sampleOps).getD new) := by
    obtain ⟨_, _, -⟩ := runOps_represents sampleOps sampleOps_respects
    rfl
  have hdone : ∀ t ∈ ((start ((runOps sampleOps).getD new) sampleCalls).run
      sampleSchedule).threads, t.writerDone = true := by
    decide +kernel
  refine ⟨_, hsh, hdone, (concurrent_calls_linearize sampleOps_respects hsh ?_
    (by decide +kernel) sampleSchedule).2.1 hdone⟩
  -- the one store below `s1` names the paths of `samplePath`
  intro _ hcall
  rcases mem_cons.1 hcall with heq | hcall
  · cases heq
    intro i b hb
    rcases i with _ | _ | i
    · cases hb
      decide
    · cases hb
      decide
    · cases hb
  · simp at hcall

end VllmRouter.KvIndex
