import VllmRouter.Lib.Machine
import VllmRouter.KvIndex.Refinement
import VllmRouter.KvIndex.Sections

/-!
# Concurrent calls linearize

Any number of stores and removes, each in the name of another owner, run
interleaved with any number of queries. The calls that wrote appear in one
order, in which running them one after the other gives the same answers:

- first the stores whose parent was unknown when they looked: the known hashes
  only grow, so the parent was unknown from the start;
- then the other stores, in the order in which they found their parents: the
  parent is known by an earlier store of that order;
- then the removes, whose claims no other call touches.

`Coherent` is the invariant of a run: the settled shard is exactly the initial
observations, without what the removes are done with and with what the stores have
recorded. `KvIndex.Concurrency` follows the order.
-/

namespace VllmRouter.KvIndex

open GroupShard Thread

/-! ## What the threads have done -/

namespace Thread

/-- The claims that a writer changes. -/
def key : Thread → Option OwnerTier
  | .store call _ => some call.key
  | .remove call _ => some call.key
  | _ => none

/-- The hashes that a store has recorded. -/
def adds : Thread → List Hash
  | .store call pc => (pc.stored call.blocks).map Prod.fst
  | _ => []

/-- The hashes that a remove is done with. -/
def drops : Thread → List Hash
  | .remove call pc => pc.cleaned call.seqHashes
  | _ => []

/-- The hash that a remove is cleaning up. -/
def pending : Thread → Option Hash
  | .remove call pc => pc.pending call.seqHashes
  | _ => none

/-- What a thread knows between its steps. -/
def Ok (path : Hash → List Hash) (pre : NodeRef → List Hash) (v : GroupShard) : Thread → Prop
  | .store call pc => NamesPaths path call.parentSeq call.blocks ∧ pc.Ok path pre v call
  | .remove call pc => pc.Ok pre v call
  | .query q pc => pc.Ok pre v q
  | .panicked => False

end Thread

/-- Some thread satisfies `P`. -/
def AnyThread (threads : List Thread) (P : Thread → Prop) : Prop :=
  ∃ (j : Nat) (u : Thread), threads[j]? = some u ∧ P u

/-- Some thread other than `i` satisfies `P`. -/
def OtherThread (threads : List Thread) (i : Nat) (P : Thread → Prop) : Prop :=
  ∃ (j : Nat) (u : Thread), j ≠ i ∧ threads[j]? = some u ∧ P u

variable {threads : List Thread} {i : Nat} {t t' : Thread}

section

variable (ht : threads[i]? = some t)
include ht

lemma anyThread_iff (P : Thread → Prop) :
    AnyThread threads P ↔ P t ∨ OtherThread threads i P := by
  constructor
  · rintro ⟨j, u, hu, hP⟩
    by_cases hj : j = i
    · subst hj
      exact .inl (Option.some.inj (ht.symm.trans hu) ▸ hP)
    · exact .inr ⟨j, u, hj, hu, hP⟩
  rintro (hP | ⟨j, u, -, hu, hP⟩)
  · exact ⟨i, t, ht, hP⟩
  · exact ⟨j, u, hu, hP⟩

lemma anyThread_set_iff (P : Thread → Prop) :
    AnyThread (threads.set i t') P ↔ P t' ∨ OtherThread threads i P := by
  have hlt := (List.getElem?_eq_some_iff.1 ht).1
  constructor
  · rintro ⟨j, u, hu, hP⟩
    rcases getElem?_set_cases hu with ⟨_, rfl⟩ | ⟨hj, hold⟩
    · exact .inl hP
    · exact .inr ⟨j, u, hj, hold, hP⟩
  rintro (hP | ⟨j, u, hj, hu, hP⟩)
  · exact ⟨i, t', List.getElem?_set_self hlt, hP⟩
  · exact ⟨j, u, by rw [List.getElem?_set_ne hj.symm, hu], hP⟩

/-- Nothing changes for the property when thread `i` keeps it or stays without it. -/
lemma anyThread_set_same (hP : P t' ↔ P t) :
    AnyThread (threads.set i t') P ↔ AnyThread threads P := by
  rw [anyThread_set_iff ht, anyThread_iff ht, hP]

end

variable (threads : List Thread) (k : OwnerTier) (s : Hash)

/-- Some store has recorded `s` for `k`. -/
def Added : Prop :=
  AnyThread threads fun u => u.key = some k ∧ s ∈ u.adds

/-- Some remove is done with `s` for `k`. -/
def Dropped : Prop :=
  AnyThread threads fun u => u.key = some k ∧ s ∈ u.drops

/-- Some remove is cleaning up `s` for `k`. -/
def Pending : Prop :=
  AnyThread threads fun u => u.key = some k ∧ u.pending = some s

variable {threads k s}

/-- No two writers have the same owner. -/
def Distinct (threads : List Thread) : Prop :=
  ∀ (i j : Nat) t u k l, threads[i]? = some t → threads[j]? = some u → t.key = some k →
    u.key = some l → k.1 = l.1 → i = j

/-- Only thread `i` has its key. -/
lemma Distinct.no_other (h : Distinct threads) (ht : threads[i]? = some t) (hk : t.key = some k)
    {Q : Thread → Prop} :
    ¬ OtherThread threads i fun u => u.key = some k ∧ Q u := by
  rintro ⟨j, u, hj, hu, huk, -⟩
  exact hj (h j i u t k k hu ht huk hk rfl)

lemma Distinct.set (h : Distinct threads) (ht : threads[i]? = some t) (hkey : t'.key = t.key) :
    Distinct (threads.set i t') := by
  -- an entry of the new list has the key of the old one in its place
  have hold : ∀ (j : Nat) u, (threads.set i t')[j]? = some u →
      ∃ u0, threads[j]? = some u0 ∧ u.key = u0.key := by
    intro j u hu
    rcases getElem?_set_cases hu with ⟨rfl, rfl⟩ | ⟨_, hold⟩
    · exact ⟨t, ht, hkey⟩
    · exact ⟨u, hold, rfl⟩
  intro a b u w k l hu hw hk hl heq
  obtain ⟨u0, hu0, hku⟩ := hold a u hu
  obtain ⟨w0, hw0, hkw⟩ := hold b w hw
  exact h a b u0 w0 k l hu0 hw0 (hku ▸ hk) (hkw ▸ hl) heq

/-! ## The invariant of a run -/

variable {path : Hash → List Hash} {obs₀ : Observations} {s : Threads}
  {pre pre' : NodeRef → List Hash} {v v' : GroupShard}

/-- The settled shard represents the paths of its keys and holds the initial
observations as the threads have changed them. -/
structure Coherent (path : Hash → List Hash) (obs₀ : Observations) (s : Threads)
    (pre : NodeRef → List Hash) (v : GroupShard) : Prop where
  shadows : Shadows (Pending s.threads) s.sh v
  rep : Represents path pre v
  distinct : Distinct s.threads
  ok : ∀ (j : Nat) u, s.threads[j]? = some u → u.Ok path pre v
  active : ∀ k x, v.Active k x ↔
    ((k, x) ∈ obs₀.active ∧ ¬ Dropped s.threads k x) ∨ Added s.threads k x
  known : ∀ x, v.Known x ↔ x ∈ obs₀.known ∨ ∃ k, Added s.threads k x

/-- What a thread knows survives the steps of the others. -/
lemma Thread.Ok.grows {u : Thread} (h : u.Ok path pre v) (hgr : Grows pre v pre' v')
    (hwf : WellFormed v) : u.Ok path pre' v' := by
  cases u with
  | store => exact ⟨h.1, h.2.grows hgr hwf⟩
  | remove => exact RemovePc.Ok.grows h hgr hwf
  | query => exact QueryPc.Ok.grows h hgr
  | panicked => exact h

/-- The threads after thread `i` has stepped to `t'`. -/
lemma Coherent.ok_set (h : Coherent path obs₀ s pre v) (hgr : Grows pre v pre' v')
    (ht' : t'.Ok path pre' v') (j : Nat) (u) (hu : (s.threads.set i t')[j]? = some u) :
    u.Ok path pre' v' := by
  rcases getElem?_set_cases hu with ⟨_, rfl⟩ | ⟨_, hold⟩
  · exact ht'
  · exact (h.ok j u hold).grows hgr h.rep.wf

variable {new : List IncomingBlock} {sh' : GroupShard}

section Step

variable (h : Coherent path obs₀ s pre v) (ht : s.threads[i]? = some t)

include h ht

/-- A store's step: the new blocks are added, nothing else changes. -/
lemma Coherent.store {call : StoreCall} {pc pc' : StorePc} (hcall : t = .store call pc)
    (hmove : StoreMove path (Pending s.threads) pre v call pc new pre' v' sh' pc') :
    Coherent path obs₀ ⟨sh', s.threads.set i (.store call pc')⟩ pre' v' := by
  subst hcall
  have hnames : NamesPaths path call.parentSeq call.blocks := (h.ok i _ ht).1
  have hadded : ∀ k x, Added (s.threads.set i (.store call pc')) k x ↔
      Added s.threads k x ∨ (k = call.key ∧ x ∈ new.map Prod.fst) := by
    intro k x
    unfold Added
    rw [anyThread_set_iff ht, anyThread_iff ht]
    have hadds : (store call pc').adds
        = (store call pc).adds ++ new.map Prod.fst := by
      simp only [adds, hmove.stored, List.map_append]
    have hkey : ∀ pc, (store call pc).key = some k ↔ k = call.key := fun pc =>
      Option.some_inj.trans eq_comm
    rw [hadds, hkey, hkey, List.mem_append]
    tauto
  have hdropped : ∀ k x, Dropped (s.threads.set i (.store call pc')) k x ↔
      Dropped s.threads k x := fun k x => anyThread_set_same ht Iff.rfl
  have hpending : Pending (s.threads.set i (.store call pc')) = Pending s.threads := by
    funext k x
    exact propext (anyThread_set_same ht Iff.rfl)
  exact {
    shadows := by rw [hpending]; exact hmove.storing.shadows
    rep := hmove.storing.rep
    distinct := h.distinct.set ht rfl
    ok := h.ok_set hmove.storing.grows ⟨hnames, hmove.ok⟩
    active := fun k x => by rw [hmove.storing.stored.active, h.active, hdropped, hadded, or_assoc]
    known := fun x => by
      rw [hmove.storing.stored.known, h.known]
      simp only [hadded, exists_or, or_assoc, exists_eq_left] }

/-- What is pending for the key of a remove is its own. -/
lemma Coherent.ownPending (hcall : t = .remove call pc) :
    OwnPending (Pending s.threads) call pc := by
  subst hcall
  intro x
  unfold Pending
  rw [anyThread_iff ht]
  refine ⟨fun hx => ?_, fun hx => .inl ⟨rfl, hx⟩⟩
  rcases hx with ⟨_, hx⟩ | hother
  · exact hx
  · exact absurd hother (h.distinct.no_other ht rfl)

/-- A remove's step: the hashes it is done with are dropped. -/
lemma Coherent.remove {call : RemoveCall} {pc pc' : RemovePc} (hcall : t = .remove call pc)
    {new : List Hash} (hmove : RemoveMove path (Pending s.threads) pre v call pc new v' sh' pc') :
    Coherent path obs₀ ⟨sh', s.threads.set i (.remove call pc')⟩ pre v' := by
  subst hcall
  have hkey : ∀ (pc : RemovePc) k, (remove call pc).key = some k ↔ k = call.key :=
    fun pc k => Option.some_inj.trans eq_comm
  have hadded : ∀ k x, Added (s.threads.set i (.remove call pc')) k x ↔
      Added s.threads k x := fun k x => anyThread_set_same ht Iff.rfl
  have hdropped : ∀ k x, Dropped (s.threads.set i (.remove call pc')) k x ↔
      Dropped s.threads k x ∨ (k = call.key ∧ x ∈ new) := by
    intro k x
    unfold Dropped
    rw [anyThread_set_iff ht, anyThread_iff ht]
    have hdrops : (remove call pc').drops = (remove call pc).drops ++ new := hmove.cleaned
    rw [hdrops, hkey, hkey, List.mem_append]
    tauto
  have hpending : Pending (s.threads.set i (.remove call pc'))
      = pendAfter (Pending s.threads) call.key (pc'.pending call.seqHashes) := by
    funext k x
    refine propext ?_
    show AnyThread _ _ ↔ (k ≠ call.key ∧ AnyThread _ _) ∨ _
    rw [anyThread_set_iff ht, anyThread_iff ht, hkey, hkey]
    by_cases hk : k = call.key
    · subst hk
      have hno := h.distinct.no_other ht (Q := fun u => u.pending = some x)
        (show (remove call pc).key = some call.key from rfl)
      simp only [hno, or_false, ne_eq, not_true_eq_false, false_and, false_or]
      rfl
    · simp [hk]
  -- no store has the key of this remove
  have hnoadd : ∀ x, ¬ Added s.threads call.key x := by
    intro x hadd
    rcases (anyThread_iff ht _).1 hadd with ⟨_, hmem⟩ | hother
    · cases hmem
    · exact h.distinct.no_other ht rfl hother
  exact {
    shadows := by rw [hpending]; exact hmove.shadows
    rep := hmove.rep
    distinct := h.distinct.set ht rfl
    ok := h.ok_set hmove.grows hmove.ok
    active := fun k x => by
      rw [hmove.active, h.active, hdropped, hadded]
      have hno : k = call.key → ¬ Added s.threads k x := fun hk => hk ▸ hnoadd x
      tauto
    known := fun x => by
      have hsame : v'.Known x ↔ v.Known x := by
        unfold Known
        rw [hmove.anchors]
      rw [hsame, h.known]
      simp only [hadded] }

/-- A query's step changes nothing but the query. -/
lemma Coherent.query (hcall : t = .query q pc) (hok : pc'.Ok pre v q) :
    Coherent path obs₀ ⟨s.sh, s.threads.set i (.query q pc')⟩ pre v := by
  subst hcall
  have hadded : ∀ k x, Added (s.threads.set i (.query q pc')) k x ↔ Added s.threads k x :=
    fun k x => anyThread_set_same ht Iff.rfl
  have hdropped : ∀ k x, Dropped (s.threads.set i (.query q pc')) k x ↔
      Dropped s.threads k x := fun k x => anyThread_set_same ht Iff.rfl
  have hpending : Pending (s.threads.set i (.query q pc')) = Pending s.threads := by
    funext k x
    exact propext (anyThread_set_same ht Iff.rfl)
  exact {
    shadows := by rw [hpending]; exact h.shadows
    rep := h.rep
    distinct := h.distinct.set ht rfl
    ok := h.ok_set (.of_eq rfl rfl) hok
    active := fun k x => by rw [h.active, hdropped, hadded]
    known := fun x => by simp only [h.known, hadded] }

end Step

/-! ## Every step of a run -/

/-- What a step of thread `i` can be. -/
inductive Moved (path : Hash → List Hash) (s : Threads) (i : Nat) (pre : NodeRef → List Hash)
    (v : GroupShard) : Threads → (NodeRef → List Hash) → GroupShard → Prop where
  | idle (ht : s.threads[i]? = none) : Moved path s i pre v s pre v
  | store {call : StoreCall} {pc pc' : StorePc} {new : List IncomingBlock}
      {pre' : NodeRef → List Hash} {v' sh' : GroupShard}
      (ht : s.threads[i]? = some (.store call pc))
      (hmove : StoreMove path (Pending s.threads) pre v call pc new pre' v' sh' pc') :
      Moved path s i pre v ⟨sh', s.threads.set i (.store call pc')⟩ pre' v'
  | remove {call : RemoveCall} {pc pc' : RemovePc} {new : List Hash} {v' sh' : GroupShard}
      (ht : s.threads[i]? = some (.remove call pc))
      (hmove : RemoveMove path (Pending s.threads) pre v call pc new v' sh' pc') :
      Moved path s i pre v ⟨sh', s.threads.set i (.remove call pc')⟩ pre v'
  | query {q : MatchQuery} {pc pc' : QueryPc} (ht : s.threads[i]? = some (.query q pc))
      (hstep : q.step s.sh pc = some pc') (hok : pc'.Ok pre v q) :
      Moved path s i pre v ⟨s.sh, s.threads.set i (.query q pc')⟩ pre v

/-- No step panics, so each is one of these. -/
lemma Coherent.moved (h : Coherent path obs₀ s pre v) (i) :
    ∃ pre' v', Moved path s i pre v (s.step i) pre' v' := by
  cases ht : s.threads[i]? with
  | none =>
    simp only [Threads.step, ht]
    exact ⟨pre, v, .idle ht⟩
  | some t =>
    have hok := h.ok i t ht
    cases t with
    | store call =>
      have hpend : ∀ x, ¬ Pending s.threads call.key x := by
        intro x hx
        rcases (anyThread_iff ht _).1 hx with ⟨_, hpending⟩ | hother
        · cases hpending
        · exact h.distinct.no_other ht rfl hother
      obtain ⟨_, pre', v', _, _, hstep, hmove⟩ := call.step_spec hok.1 h.shadows hpend h.rep hok.2
      simp only [Threads.step, ht, step, hstep]
      exact ⟨pre', v', .store ht hmove⟩
    | remove call =>
      obtain ⟨_, v', _, _, hstep, hmove⟩ := call.step_spec h.shadows h.rep (h.ownPending ht rfl) hok
      simp only [Threads.step, ht, step, hstep, Option.map_some]
      exact ⟨pre, v', .remove ht hmove⟩
    | query =>
      obtain ⟨_, hstep, hok', -⟩ := MatchQuery.step_spec h.shadows h.rep hok
      simp only [Threads.step, ht, step, hstep, Option.map_some]
      exact ⟨pre, v, .query ht hstep hok'⟩
    | panicked => exact hok.elim

lemma Moved.coherent (hm : Moved path s i pre v s' pre' v') (h : Coherent path obs₀ s pre v) :
    Coherent path obs₀ s' pre' v' := by
  cases hm with
  | idle => exact h
  | store ht hmove => exact h.store ht rfl hmove
  | remove ht hmove => exact h.remove ht rfl hmove
  | query ht _ hok => exact h.query ht rfl hok

end VllmRouter.KvIndex
