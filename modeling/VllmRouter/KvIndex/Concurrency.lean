import VllmRouter.KvIndex.Linearization

/-!
# The order of the calls explains a run

The calls of a run, one after the other in the order of `KvIndex.Linearization`,
leave the observations that the interleaved run leaves.

- `Answers.perm`: a set of observations has one answer to a query, up to the
  order of the rows.
- `Ordered`: the order of the stores so far, and the observations it leaves.
- `run_coherent`: the invariants along a whole schedule.
- `placed_removal_perm`, `sequential_observes`: the order, with the removes behind it,
  has all the calls that write, and ends in the observations of the run.
-/

namespace VllmRouter.KvIndex

open GroupShard List Thread Observations Threads

/-! ## The answer to a query is unique -/

/-- Two increasing lists of intervals with the same members are equal. -/
lemma segments_unique {xs ys : List (Nat × Nat)} (hxs : xs.Pairwise fun x y => x.2 < y.1)
    (hys : ys.Pairwise fun x y => x.2 < y.1) (hx : ∀ a b, (a, b) ∈ xs ↔ IsMaximalRun P a b)
    (hy : ∀ a b, (a, b) ∈ ys ↔ IsMaximalRun P a b) :
    xs = ys := by
  have hlt : ∀ p ∈ xs, p.1 < p.2 := fun p hp => ((hx p.1 p.2).1 hp).lt
  have hlt' : ∀ p ∈ ys, p.1 < p.2 := fun p hp => ((hy p.1 p.2).1 hp).lt
  have hnodup : ∀ {l : List (Nat × Nat)}, (∀ p ∈ l, p.1 < p.2) →
      (l.Pairwise fun x y => x.2 < y.1) → l.Nodup := by
    intro l hl hp
    refine hp.imp_of_mem fun {p q} hpl hql hpq heq => ?_
    have := hl p hpl
    rw [← heq] at hpq
    omega
  refine List.Perm.eq_of_pairwise (fun p q hp hq hpq hqp => ?_) hxs hys
    ((perm_ext_iff_of_nodup (hnodup hlt hxs) (hnodup hlt' hys)).2 fun p => ?_)
  · have := hlt p hp
    have := hlt' q hq
    omega
  · exact (hx p.1 p.2).trans (hy p.1 p.2).symm

/-- A set of observations has one answer to a query, up to the order of rows. -/
lemma Answers.perm {query : MatchQuery} (h : Answers path obs query ms)
    (h' : Answers path obs query ms') : ms.Perm ms' := by
  -- a row of one answer is a row of the other
  have hsub : ∀ {ms ms'}, Answers path obs query ms →
      Answers path obs query ms' → ∀ m ∈ ms, m ∈ ms' := by
    intro _ _ h h' m hm
    obtain ⟨m', hm', htarget, htier⟩ := (h'.reported m.target m.tier).2
      ((h.reported m.target m.tier).1 ⟨m, hm, rfl, rfl⟩)
    have hsegs : m.segments = m'.segments := by
      refine segments_unique (h.sorted m hm) (h'.sorted m' hm') (h.segments m hm) ?_
      rw [← htarget, ← htier]
      exact h'.segments m' hm'
    have hlocal : m.locality = .local ↔ m'.locality = .local := by
      rw [h.locality m hm, h'.locality m' hm', htarget, htier]
    have hloc : m.locality = m'.locality := by
      cases hl : m.locality <;> cases hl' : m'.locality <;> simp_all
    have heq : m = m' := by
      cases m
      cases m'
      simp only [TierMatch.mk.injEq]
      exact ⟨htarget.symm, htier.symm, hsegs, hloc⟩
    rw [heq]
    exact hm'
  refine (perm_ext_iff_of_nodup (List.Nodup.of_map _ h.distinct)
    (List.Nodup.of_map _ h'.distinct)).2 fun m => ?_
  exact ⟨hsub h h' m, hsub h' h m⟩

/-! ## The start of a run -/

variable {path : Hash → List Hash} {obs₀ : Observations} {pre : NodeRef → List Hash}
  {v sh0 : GroupShard} {calls : List Call}

variable {j : Nat}

lemma getElem?_start (hu : (calls.map Call.start)[j]? = some u) :
    ∃ c, calls[j]? = some c ∧ u = c.start := by
  rw [getElem?_map] at hu
  obtain ⟨c, hc, rfl⟩ := Option.map_eq_some_iff.1 hu
  exact ⟨c, hc, rfl⟩

lemma start_key (c : Call) : c.start.key.map Prod.fst = c.owner := by cases c <;> rfl

/-- Distinct owners of the calls are distinct owners of the threads. -/
lemma distinct_start (h : (calls.filterMap Call.owner).Nodup) :
    Distinct (calls.map Call.start) := by
  have hpair := List.pairwise_iff_getElem.1 (List.pairwise_filterMap.1 h)
  intro i j t u k l ht hu hk hl heq
  obtain ⟨c, hc, rfl⟩ := getElem?_start ht
  obtain ⟨d, hd, rfl⟩ := getElem?_start hu
  have hck : c.owner = some k.1 := by rw [← start_key, hk]; rfl
  have hdl : d.owner = some l.1 := by rw [← start_key, hl]; rfl
  obtain ⟨hi, rfl⟩ := List.getElem?_eq_some_iff.1 hc
  obtain ⟨hj, rfl⟩ := List.getElem?_eq_some_iff.1 hd
  rcases Nat.lt_trichotomy i j with hij | hij | hij
  · exact absurd heq (hpair i j hi hj hij k.1 hck l.1 hdl)
  · exact hij
  · exact absurd heq.symm (hpair j i hj hi hij l.1 hdl k.1 hck)

lemma coherent_start (hrep : Represents path pre sh0) (hobs : Observes sh0 obs₀)
    (hnames : ∀ call, Call.store call ∈ calls → NamesPaths path call.parentSeq call.blocks)
    (howners : (calls.filterMap Call.owner).Nodup) :
    Coherent path obs₀ (start sh0 calls) pre sh0 := by
  have hadds : ∀ c : Call, c.start.adds = [] := fun c => by cases c <;> rfl
  have hdrops : ∀ c : Call, c.start.drops = [] := fun c => by cases c <;> rfl
  have hpending : ∀ c : Call, c.start.pending = none := fun c => by cases c <;> rfl
  have hnoadd : ∀ k x, ¬ Added (calls.map Call.start) k x := by
    rintro k x ⟨j, u, hu, _, hx⟩
    obtain ⟨c, _, rfl⟩ := getElem?_start hu
    rw [hadds] at hx
    cases hx
  have hnodrop : ∀ k x, ¬ Dropped (calls.map Call.start) k x := by
    rintro k x ⟨j, u, hu, _, hx⟩
    obtain ⟨c, _, rfl⟩ := getElem?_start hu
    rw [hdrops] at hx
    cases hx
  have hnopend : ∀ k x, ¬ Pending (calls.map Call.start) k x := by
    rintro k x ⟨j, u, hu, _, hx⟩
    obtain ⟨c, _, rfl⟩ := getElem?_start hu
    rw [hpending] at hx
    cases hx
  exact {
    shadows := ⟨rfl, rfl, fun k x => (and_iff_left (hnopend k x)).symm⟩
    rep := hrep
    distinct := distinct_start howners
    ok := fun j u hu => by
      obtain ⟨c, hc, rfl⟩ := getElem?_start hu
      cases c with
      | store call => exact ⟨hnames call (mem_of_getElem? hc), trivial⟩
      | remove call
      | query => trivial
    active := fun k x => by
      rw [hobs.active]
      exact ⟨fun h => .inl ⟨h, hnodrop k x⟩,
        fun h => h.elim And.left fun h => absurd h (hnoadd k x)⟩
    known := fun x => by
      rw [hobs.known]
      exact ⟨.inl, fun h => h.elim id fun ⟨k, hk⟩ => absurd hk (hnoadd k x)⟩ }

/-! ## The order so far -/

namespace Thread

/-- The call of a writer, run without interruption. -/
def op : Thread → Option ShardOp
  | .store call _ => (Call.store call).op
  | .remove call _ => (Call.remove call).op
  | _ => none

/-- The call of a store that has looked for its parent. -/
def placed : Thread → Option ShardOp
  | .store call pc => if pc = .check then none else (Call.store call).op
  | _ => none

def removal : Thread → Option ShardOp
  | .remove call _ => (Call.remove call).op
  | _ => none

/-- The hashes that a store records once it has found its parent. -/
def promises : Thread → List Hash
  | .store call pc => (if pc.anchored then call.blocks else []).map Prod.fst
  | _ => []

/-- The hashes that a remove drops. -/
def discards : Thread → List Hash
  | .remove call _ => call.seqHashes
  | _ => []

lemma adds_subset (u : Thread) : u.adds ⊆ u.promises := by
  cases u with
  | store _ pc =>
    refine map_subset Prod.fst ?_
    cases pc with
    | check => exact nil_subset _
    | resolve cursor bi retries
    | lock cursor bi retries node
    | claim => exact take_subset _ _
    | done => exact List.Subset.refl _
  | remove call pc
  | query q pc
  | panicked => exact nil_subset _

/-- What a writer that is done leaves. -/
lemma done_spec {u : Thread} (h : u.writerDone = true) :
    u.promises = u.adds ∧ u.drops = u.discards ∧ u.pending = none := by
  cases u with
  | store _ pc =>
    cases pc <;> cases h
    exact ⟨rfl, rfl, rfl⟩
  | remove _ pc =>
    cases pc <;> cases h
    exact ⟨rfl, rfl, rfl⟩
  | query => exact ⟨rfl, rfl, rfl⟩
  | panicked => cases h

end Thread

/-- Some store that has found its parent records `x` for `k`. -/
def Promised (threads : List Thread) (k : OwnerTier) (x : Hash) : Prop :=
  AnyThread threads fun u => u.key = some k ∧ x ∈ u.promises

/-- The stores so far, in their order: first those that were skipped, then those that
found their parents. -/
structure Ordered (obs₀ : Observations) (threads : List Thread) (skipped log : List ShardOp) :
    Prop where
  perm : (skipped ++ log).Perm (threads.filterMap placed)
  skipped : ∀ op ∈ skipped, obs₀.apply op = obs₀
  active : ∀ k x, (k, x) ∈ (log.foldl apply obs₀).active ↔
    (k, x) ∈ obs₀.active ∨ Promised threads k x
  known : ∀ x, x ∈ (log.foldl apply obs₀).known ↔
    x ∈ obs₀.known ∨ ∃ k, Promised threads k x

lemma ordered_start (obs₀) (calls : List Call) :
    Ordered obs₀ (calls.map Call.start) [] [] := by
  have hnone : ∀ k x, ¬ Promised (calls.map Call.start) k x := by
    rintro k x ⟨j, u, hu, -, hx⟩
    obtain ⟨c, -, rfl⟩ := getElem?_start hu
    cases c <;> cases hx
  have hplaced : (calls.map Call.start).filterMap placed = [] := by
    refine filterMap_eq_nil_iff.2 fun u hu => ?_
    obtain ⟨c, -, rfl⟩ := mem_map.1 hu
    cases c <;> rfl
  exact ⟨by rw [hplaced]; rfl, nofun, fun k x => by simp [hnone], fun x => by simp [hnone]⟩

/-- Where an entry of a list changes, its image does. -/
lemma filterMap_set {α β : Type} (f : α → Option β) {l : List α} {a : α} (h : l[i]? = some a)
    (a' : α) : ∃ l1 l2, l.filterMap f = l1 ++ ((f a).toList ++ l2) ∧
      (l.set i a').filterMap f = l1 ++ ((f a').toList ++ l2) := by
  obtain ⟨hlt, rfl⟩ := List.getElem?_eq_some_iff.1 h
  have hcons : ∀ b l', (b :: l').filterMap f = (f b).toList ++ l'.filterMap f := by
    intro b l'
    cases hb : f b <;> simp [hb]
  refine ⟨(l.take i).filterMap f, (l.drop (i + 1)).filterMap f, ?_, ?_⟩
  · rw [← hcons, ← List.filterMap_append, ← List.drop_eq_getElem_cons hlt, List.take_append_drop]
  · rw [← hcons, ← List.filterMap_append, List.set_eq_take_append_cons_drop, if_pos hlt]

variable {threads : List Thread} {skipped log : List ShardOp} {i : Nat} {t t' : Thread}

/-- A step that puts no call into the order. -/
lemma Ordered.set_same (h : Ordered obs₀ threads skipped log) (ht : threads[i]? = some t)
    (hplaced : t'.placed = t.placed) (hkey : t'.key = t.key)
    (hpromises : t'.promises = t.promises) :
    Ordered obs₀ (threads.set i t') skipped log := by
  have hsame : ∀ k x, Promised (threads.set i t') k x ↔ Promised threads k x :=
    fun k x => anyThread_set_same ht (by rw [hkey, hpromises])
  obtain ⟨_, _, hold, hnew⟩ := filterMap_set placed ht t'
  exact ⟨by rw [hnew, hplaced, ← hold]; exact h.perm, h.skipped,
    fun k x => by rw [h.active, hsame], fun x => by simp only [h.known, hsame]⟩

/-- A store that looks for its parent joins the order: at its end when it finds it, and
otherwise in front, where the parent is unknown as well. -/
lemma Ordered.store {s : Threads} (h : Ordered obs₀ s.threads skipped log)
    (hco : Coherent path obs₀ s pre v) {pc pc' : StorePc} {new : List IncomingBlock}
    (ht : s.threads[i]? = some (.store call pc))
    (hmove : StoreMove path (Pending s.threads) pre v call pc new pre' v' sh' pc') :
    ∃ skipped' log', Ordered obs₀ (s.threads.set i (.store call pc')) skipped' log' := by
  have hstarted : pc' ≠ .check := hmove.started
  by_cases hcheck : pc = .check
  · obtain ⟨_, _, hold, hnew⟩ := filterMap_set Thread.placed ht (.store call pc')
    let op := ShardOp.store call.owner call.tier call.parentSeq call.blocks
    have hplaced : (op :: (skipped ++ log)).Perm
        ((s.threads.set i (.store call pc')).filterMap Thread.placed) := by
      refine (h.perm.cons op).trans ?_
      rw [hold, hnew]
      simp only [Thread.placed, if_pos hcheck, if_neg hstarted]
      exact perm_middle.symm
    have hpromised : ∀ k x, Promised (s.threads.set i (.store call pc')) k x ↔
        Promised s.threads k x ∨
          (pc'.anchored = true ∧ k = call.key ∧ x ∈ call.blocks.map Prod.fst) := by
      intro k x
      unfold Promised
      rw [anyThread_set_iff ht, anyThread_iff ht, hcheck]
      have hkey : ∀ pc, (Thread.store call pc).key = some k ↔ k = call.key := fun pc =>
        Option.some_inj.trans eq_comm
      have hnone : (Thread.store call .check).promises = [] := rfl
      have hall : (Thread.store call pc').promises
          = (if pc'.anchored then call.blocks else []).map Prod.fst := rfl
      rw [hkey, hnone, hall]
      cases pc'.anchored <;> simp [or_comm]
    rcases hmove.checked hcheck with ⟨hanch, hparent⟩ | ⟨hanch, seq, _, hunknown⟩
    · have hanchors : (log.foldl apply obs₀).Anchors call.parentSeq := by
        cases hp : call.parentSeq with
        | none => trivial
        | some seq =>
          refine (h.known seq).2 (((hco.known seq).1 (hparent seq hp)).imp_right ?_)
          rintro ⟨k, j, u, hu, hk, hx⟩
          exact ⟨k, j, u, hu, hk, u.adds_subset hx⟩
      refine ⟨skipped, log ++ [op], ?_, h.skipped, fun k x => ?_, fun x => ?_⟩
      · rw [← append_assoc]
        exact (perm_append_singleton op _).trans hplaced
      · simp only [foldl_append, foldl_cons, foldl_nil, op, apply, Set.mem_union, h.active,
          hpromised, hanch, hanchors, or_assoc]
        rfl
      simp only [foldl_append, foldl_cons, foldl_nil, op, apply,
        Set.mem_union, h.known, Set.mem_ofPred_eq, hpromised, hanch, hanchors, true_and, or_assoc,
        exists_or, exists_eq_left]
    · have hskip : obs₀.apply op = obs₀ := by
        have hseq' : seq ∉ obs₀.known := fun hmem => hunknown ((hco.known seq).2 (.inl hmem))
        cases obs₀
        simp_all [op, apply, Observations.Anchors]
      refine ⟨op :: skipped, log, hplaced, forall_mem_cons.2 ⟨hskip, h.skipped⟩,
        fun k x => ?_, fun x => ?_⟩
      · simp [h.active, hpromised, hanch]
      · simp [h.known, hpromised, hanch]
  · refine ⟨skipped, log, h.set_same ht ?_ rfl ?_⟩
    · simp [Thread.placed, if_neg hcheck, if_neg hstarted]
    · simp [Thread.promises, hmove.anchored hcheck]

/-- The invariants of a whole run. -/
lemma run_coherent (hrep : Represents path pre sh0) (hobs : Observes sh0 obs₀)
    (hnames : ∀ call, Call.store call ∈ calls → NamesPaths path call.parentSeq call.blocks)
    (howners : (calls.filterMap Call.owner).Nodup) (schedule) :
    ∃ pre v skipped log, Coherent path obs₀ ((start sh0 calls).run schedule) pre v ∧
      Ordered obs₀ ((start sh0 calls).run schedule).threads skipped log ∧
      ((start sh0 calls).run schedule).threads.filterMap op = calls.filterMap Call.op := by
  refine foldl_invariant (I := fun s => ∃ pre v skipped log, Coherent path obs₀ s pre v ∧
      Ordered obs₀ s.threads skipped log ∧ s.threads.filterMap op = calls.filterMap Call.op)
    (fun s i ih => ?_) schedule _
    ⟨pre, sh0, [], [], coherent_start hrep hobs hnames howners, ordered_start obs₀ calls, ?_⟩
  · obtain ⟨_, _, skipped, log, hco, hord, hops⟩ := ih
    obtain ⟨_, _, hmoved⟩ := hco.moved i
    have hco' := hmoved.coherent hco
    -- the calls stay
    have hset : ∀ {t t'}, s.threads[i]? = some t → t'.op = t.op →
        (s.threads.set i t').filterMap op = calls.filterMap Call.op := by
      intro t t' ht hop
      obtain ⟨_, _, hold, hnew⟩ := filterMap_set op ht t'
      rw [hnew, hop, ← hold, hops]
    generalize s.step i = s' at hmoved hco'
    cases hmoved with
    | idle => exact ⟨_, _, skipped, log, hco', hord, hops⟩
    | store ht hmove =>
      obtain ⟨skipped', log', hord'⟩ := hord.store hco ht hmove
      exact ⟨_, _, skipped', log', hco', hord', hset ht rfl⟩
    | remove ht hmove
    | query ht => exact ⟨_, _, skipped, log, hco', hord.set_same ht rfl rfl rfl, hset ht rfl⟩
  · show (calls.map Call.start).filterMap op = _
    rw [filterMap_map]
    refine filterMap_congr fun c _ => ?_
    cases c <;> rfl

/-! ## The order explains the run -/

lemma anyThread_iff_mem : AnyThread threads P ↔ ∃ u ∈ threads, P u := by
  constructor
  · rintro ⟨j, u, hu, hP⟩
    exact ⟨u, mem_of_getElem? hu, hP⟩
  rintro ⟨u, hu, hP⟩
  obtain ⟨j, hj⟩ := mem_iff_getElem?.1 hu
  exact ⟨j, u, hj, hP⟩

/-- Removes drop their claims and nothing else. -/
lemma foldl_removals (threads : List Thread) (obs : Observations) :
    (∀ k x, (k, x) ∈ ((threads.filterMap removal).foldl apply obs).active ↔
      (k, x) ∈ obs.active ∧ ¬ ∃ u ∈ threads, u.key = some k ∧ x ∈ u.discards) ∧
    ((threads.filterMap removal).foldl apply obs).known = obs.known := by
  induction threads generalizing obs with
  | nil => simp
  | cons u _ ih =>
    cases u with
    | remove call =>
      obtain ⟨hactive, hknown⟩ := ih (obs.apply (.remove call.owner call.tier call.seqHashes))
      refine ⟨fun k x => (hactive k x).trans ?_, hknown⟩
      rw [exists_mem_cons_iff, not_or, ← and_assoc]
      refine and_congr_left fun _ => ?_
      simp only [apply, Set.mem_ofPred_eq, key, Option.some_inj, eq_comm (a := k)]
      rfl
    | store call pc
    | query q pc
    | panicked =>
      obtain ⟨hactive, hknown⟩ := ih obs
      refine ⟨fun k x => (hactive k x).trans ?_, hknown⟩
      rw [exists_mem_cons_iff, or_iff_right]
      exact fun h => not_mem_nil h.2

/-- The calls of writers that are done are the stores of the order and the removes. -/
lemma placed_removal_perm (hdone : ∀ u ∈ threads, u.writerDone = true) :
    (threads.filterMap placed ++ threads.filterMap removal).Perm (threads.filterMap op) := by
  induction threads with
  | nil => rfl
  | cons u _ ih =>
    have ih := ih fun u hu => hdone u (mem_cons_of_mem _ hu)
    have hu := hdone u mem_cons_self
    cases u with
    | store call pc =>
      have hpc : pc ≠ .check := by
        rintro rfl
        cases hu
      have hplaced : (store call pc).placed = (Call.store call).op := if_neg hpc
      rw [filterMap_cons_some hplaced]
      exact ih.cons _
    | remove => exact perm_middle.trans (ih.cons _)
    | query => exact ih
    | panicked => cases hu

section Done

variable {s : Threads} (hco : Coherent path obs₀ s pre v)
  (hdone : ∀ t ∈ s.threads, t.writerDone = true)
include hdone

/-- No writer has anything left to clean up. -/
lemma not_pending (k x) : ¬ Pending s.threads k x := by
  rintro ⟨j, u, hu, -, hx⟩
  rw [(done_spec (hdone u (mem_of_getElem? hu))).2.2] at hx
  cases hx

include hco

/-- **The order explains the run**: when the writers are done, the shard holds
the observations that the calls leave when they run in this order. -/
lemma sequential_observes (hord : Ordered obs₀ s.threads skipped log) :
    Observes s.sh ((skipped ++ log ++ s.threads.filterMap removal).foldl apply obs₀) := by
  have hskip : skipped.foldl apply obs₀ = obs₀ :=
    foldlRecOn skipped _ (motive := (· = obs₀)) rfl fun obs hobs op hop =>
      hobs ▸ hord.skipped op hop
  obtain ⟨hremoved, hkept⟩ := foldl_removals s.threads (log.foldl apply obs₀)
  have hadded : ∀ k x, Promised s.threads k x ↔ Added s.threads k x := by
    intro k x
    unfold Promised Added
    rw [anyThread_iff_mem, anyThread_iff_mem]
    exact exists_congr fun u => and_congr_right fun hu => by rw [(done_spec (hdone u hu)).1]
  have hdropped : ∀ k x, Dropped s.threads k x ↔
      ∃ u ∈ s.threads, u.key = some k ∧ x ∈ u.discards := by
    intro k x
    unfold Dropped
    rw [anyThread_iff_mem]
    exact exists_congr fun u => and_congr_right fun hu => by rw [(done_spec (hdone u hu)).2.1]
  -- a key that some store writes is no key of a remove
  have hdisj : ∀ k x y, Added s.threads k x → ¬ Dropped s.threads k y := by
    rintro k x y ⟨i, t, ht, hk, hx⟩ ⟨j, u, hu, hl, hy⟩
    obtain rfl := hco.distinct i j t u k k ht hu hk hl rfl
    obtain rfl := Option.some.inj (ht.symm.trans hu)
    cases t with
    | store => cases hy
    | remove call pc
    | query q pc
    | panicked => cases hx
  rw [foldl_append, foldl_append, hskip]
  refine ⟨fun k x => ?_, fun x => ?_⟩
  · rw [hco.shadows.active, and_iff_left (not_pending hdone k x), hco.active, hremoved, hord.active,
      hadded, ← hdropped]
    tauto
  have hsame : s.sh.Known x ↔ v.Known x := by
    unfold Known
    rw [hco.shadows.anchors]
  rw [hsame, hco.known, hkept, hord.known]
  simp [hadded]

end Done

end VllmRouter.KvIndex
