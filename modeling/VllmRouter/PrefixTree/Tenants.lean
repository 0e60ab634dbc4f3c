import Mathlib.Data.Set.Card
import VllmRouter.PrefixTree.Histories

/-!
# What the tenants of the tree get

Guarantees for one tenant next to the others, for every sequential history.

- `match_returns_owner`: a match returns a tenant that was inserted and not removed, and
  that owns the match. It does so as long as no match was made on a tree without
  tenants: such a match lists the tenant `empty` (`empty_match_listed`).
- `eviction_sufficient`: eviction brings every count below the limit, and takes nothing
  from the tenants that are there already.
- `removal_complete`: nothing is left of a removed tenant, and the others keep what they
  have.
- `capped_overshoot`: a capped tenant overshoots by at most one text. A count is the
  number of texts that the tenant owns (`ncard_owned`), and an insertion adds at most the
  prefixes of its text.
-/

namespace VllmRouter.PrefixTree

open PrefixTree.Tree List TreeState

variable {t t' : Tree} {op : Op} {ins : Option (Text × TenantId)}

/-! ## Histories with what was inserted -/

/-- The tenants that are left after an operation. -/
def Op.liveAfter (ins : Option (Text × TenantId)) (live : List TenantId) : Op → List TenantId
  | .removeTenant tenant _ => live.filter (· ≠ tenant)
  | _ => ins.toList.map Prod.snd ++ live

/-- A tree, the tenants that were inserted and not removed since, and all that was
inserted. -/
structure History where
  state : TreeState
  live : List TenantId
  inserted : List (Text × TenantId)

namespace History

def init (epoch : UInt64) : History := ⟨TreeState.init epoch, [], []⟩

/-- The history with an operation that leads to `state`. -/
def after (hist : History) (op : Op) (state : TreeState) : History :=
  ⟨state, op.liveAfter (op.inserts hist.state) hist.live,
    hist.inserted ++ (op.inserts hist.state).toList⟩

def step (hist : History) (op : Op) : Option History :=
  (hist.state.step op).map (hist.after op)

def run (hist : History) (ops : List Op) : Option History := ops.foldlM step hist

end History

lemma Did.live_iff (hdid : Did pre t op ins t') (hlive : ∀ v, t.Known v ↔ v ∈ live) (v) :
    t'.Known v ↔ v ∈ op.liveAfter ins live := by
  cases hdid with
  | inserted hg
  | insertedCapped hg =>
    rw [hg.known, hlive]
    exact or_comm.trans mem_cons.symm
  | skipped
  | elapsed => exact hlive v
  | matched hs
  | matchedTenant hs => exact (hs.known v).trans (hlive v)
  | evicted he => exact (he.known v).trans (hlive v)
  | removed hr =>
    rw [hr.known, hlive]
    simp [Op.liveAfter]

/-- What holds of the new tree, and is kept by every operation that a history can go on
with, holds after the history. -/
lemma History.run_induction {P : List Op → History → Prop} (epoch : UInt64)
    (hinit : P [] (History.init epoch))
    (hstep : ∀ ops op hist state pre, hist.state.tree.WellFormed pre → hist.state.tree.Counted →
      (∀ v, hist.state.tree.Known v ↔ v ∈ hist.live) → (History.init epoch).run ops = some hist →
      P ops hist → Did pre hist.state.tree op (op.inserts hist.state) state.tree →
      P (ops ++ [op]) (hist.after op state)) (ops) :
    ∃ hist pre, (History.init epoch).run ops = some hist ∧ hist.state.tree.WellFormed pre ∧
      hist.state.tree.Counted ∧ (∀ v, hist.state.tree.Known v ↔ v ∈ hist.live) ∧ P ops hist := by
  induction ops using reverseRecOn with
  | nil =>
    refine ⟨History.init epoch, _, rfl, wellFormed_new, fun _ => rfl, fun v => ?_, hinit⟩
    exact iff_of_false nofun not_mem_nil
  | append_singleton ops op ih =>
    obtain ⟨hist, pre, hrun, hwf, hcounted, hlive, hP⟩ := ih
    obtain ⟨state, hstate, hdid⟩ := step_did hwf hcounted op
    obtain ⟨pre', hwf', hcounted', -⟩ := hdid.sound hwf hcounted
    refine ⟨hist.after op state, pre', ?_, hwf', hcounted', hdid.live_iff hlive,
      hstep ops op hist state pre hwf hcounted hlive hrun hP hdid⟩
    unfold History.run at hrun ⊢
    rw [foldlM_append, hrun]
    simp only [Option.bind_eq_bind, Option.bind_some, foldlM_cons, History.step, hstate]
    rfl

/-! ## Matches -/

/-- The root lists the tenants that have a count. -/
def Tree.Rooted (t : Tree) : Prop := ∀ u, (t.node rootRef).lists u = true ↔ t.Known u

lemma Did.rooted (hdid : Did pre t op ins t') (hroot : t.Rooted)
    (hmatch : ∀ text order, op = .prefixMatchWithCounts text order → ∃ u, t.Known u) :
    t'.Rooted := by
  intro v
  cases hdid with
  | inserted hg
  | insertedCapped hg => rw [hg.root, hg.known, hroot v]
  | skipped
  | elapsed => exact hroot v
  | matched hs =>
    obtain ⟨u, hu⟩ := hmatch _ _ rfl
    rw [hs.lists ⟨u, (hroot u).2 hu⟩, hs.known, hroot v]
  | matchedTenant hs hlists => rw [hlists, hs.known, hroot v]
  | evicted he =>
    rw [he.known, ← hroot v]
    exact ⟨he.root_sub v, fun hv => he.root v ((hroot v).1 hv) hv⟩
  | @removed u _ _ hr =>
    rw [hr.known]
    by_cases hv : v = u
    · exact iff_of_false (hv ▸ hr.unlisted rootRef) fun h => h.2 hv
    · rw [hr.lists v hv, hroot v]
      exact (and_iff_left hv).symm

/-- Every match of the history is made while a tenant is left. -/
def MatchesTenanted (epoch : UInt64) (ops : List Op) : Prop :=
  ∀ before text order after, ops = before ++ .prefixMatchWithCounts text order :: after →
    ∀ hist, (History.init epoch).run before = some hist → hist.live ≠ []

/-- **A match returns a tenant that owns it.** -/
theorem match_returns_owner (epoch : UInt64) (ops : List Op) (hops : MatchesTenanted epoch ops) :
    ∃ hist, (History.init epoch).run ops = some hist ∧ (∀ text u, ∃ t' epoch' matched,
        hist.state.tree.prefixMatchTenant hist.state.epoch text u = some (t', epoch', matched) ∧
        ∀ i v, (t'.node i).lists v = true → (hist.state.tree.node i).lists v = true) ∧
      (hist.live ≠ [] → ∀ text order, ∃ t' epoch' result,
        hist.state.tree.prefixMatchWithCounts hist.state.epoch order text
          = some (t', epoch', result) ∧ result.tenant ∈ hist.live ∧
        hist.state.tree.prefixMatchTenantCharCount text result.tenant
          = some result.matchedCharCount ∧
        ∀ i v, (t'.node i).lists v = true → (hist.state.tree.node i).lists v = true) := by
  obtain ⟨hist, pre, hrun, hwf, hcounted, hlive, hrooted⟩ := History.run_induction
    (P := fun ops hist => MatchesTenanted epoch ops → hist.state.tree.Rooted) epoch
    (fun _ u => iff_of_false nofun fun h => by cases h)
    (fun ops op hist _ _ hwf _ hlive hrun ih hdid hguard => by
      refine hdid.rooted (ih fun before text order after hbefore => ?_) fun text order hop => ?_
      · exact hguard before text order (after ++ [op]) (by rw [hbefore, append_assoc]; rfl)
      · obtain ⟨u, hu⟩ := exists_mem_of_ne_nil _ (hguard ops text order [] (by rw [hop]) hist hrun)
        exact ⟨u, (hlive u).2 hu⟩) ops
  refine ⟨hist, hrun, fun text u => ?_, fun hne text order => ?_⟩
  · obtain ⟨t', epoch', _, hmatch, -, -, hlists⟩ :=
      prefixMatchTenant_spec hwf hist.state.epoch text u
    exact ⟨t', epoch', _, hmatch, fun i v => (hlists i v).1⟩
  obtain ⟨u, hu⟩ := exists_mem_of_ne_nil _ hne
  have hroot : ∃ u, (hist.state.tree.node rootRef).lists u = true :=
    ⟨u, (hrooted hops u).2 ((hlive u).2 hu)⟩
  obtain ⟨t', result, hmatch, hsame, -, hown⟩ :=
    prefixMatchWithCounts_spec hwf hist.state.epoch order text
  obtain ⟨hlisted, hcount⟩ := hown hroot
  exact ⟨t', _, result, hmatch, (hlive _).1 ((hrooted hops _).1 hlisted), hcount,
    fun i v => (hsame.lists hroot i v).1⟩

/-- The history inserts a text, so that its match has an owner. -/
theorem match_returns_owner_inserted : MatchesTenanted 0 [.insert ['a', 'b'] "t"] ∧
    ∃ hist, (History.init 0).run [.insert ['a', 'b'] "t"] = some hist ∧ hist.live ≠ [] ∧
      ∃ t' epoch' result, hist.state.tree.prefixMatchWithCounts hist.state.epoch .entryOrder ['a']
        = some (t', epoch', result) ∧ result.tenant ∈ hist.live := by
  have hops : MatchesTenanted 0 [.insert ['a', 'b'] "t"] := by
    rintro (_ | ⟨_, _⟩) _ _ _ hsplit
    · cases hsplit
    · simp at hsplit
  obtain ⟨hist, hrun, -, hmatch⟩ := match_returns_owner 0 [.insert ['a', 'b'] "t"] hops
  have hlive : hist.live ≠ [] := by
    have hsome : ((History.init 0).run [.insert ['a', 'b'] "t"]).map History.live = some ["t"] := by
      decide +kernel
    rw [hrun] at hsome
    rw [Option.some.inj hsome]
    exact cons_ne_nil _ _
  obtain ⟨t', epoch', result, hresult, hmem, -⟩ := hmatch hlive ['a'] .entryOrder
  exact ⟨hops, hist, hrun, hlive, t', epoch', result, hresult, hmem⟩

/-- A match on the new tree lists the tenant `empty` at the root, and a later match
returns it though only `t` was inserted. -/
theorem empty_match_listed :
    (((History.init 0).run [.prefixMatchWithCounts ['x'] .entryOrder, .insert ['a'] "t"]).bind
      fun hist => (hist.state.tree.prefixMatchWithCounts hist.state.epoch .entryOrder ['x']).map
        fun found => (hist.live, (hist.state.tree.node rootRef).lists "empty", found.2.2.tenant))
    = some (["t"], true, "empty") := by
  decide +kernel

/-! ## Eviction and removal -/

/-- **Eviction is sufficient and targeted.** -/
theorem eviction_sufficient (epoch : UInt64) (ops : List Op) (maxSize : Nat) (order : MapOrder) :
    ∃ s t', (init epoch).run ops = some s ∧
      s.tree.evictTenantBySize order maxSize = some t' ∧ (∀ u, t'.count u ≤ maxSize) ∧
      (∀ u, s.tree.count u ≤ maxSize → ∀ text,
        t'.prefixMatchTenantCharCount text u = s.tree.prefixMatchTenantCharCount text u) ∧
      (∀ u, t'.prefixes u ⊆ s.tree.prefixes u ∧
        ∀ p q, p ∈ t'.prefixes u → q <+: p → q ∈ t'.prefixes u) ∧
      Relation.ReflTransGen (Drops maxSize) s.tree t' := by
  obtain ⟨s, pre, hrun, h, hcounted⟩ := init_sound epoch ops
  obtain ⟨t', hevict, he⟩ := evictTenantBySize_spec h hcounted order maxSize
  refine ⟨s, t', hrun, hevict, he.count_le, fun u hu => ?_, fun u => ⟨?_, fun p q =>
    he.wf.prefixes_closed he.counted⟩, he.drops⟩
  · exact charCount_congr h he.wf fun p => ⟨he.owned u p, (he.kept u hu).2 p⟩
  · have hdid : Did pre s.tree (.evictTenantBySize maxSize order) none t' := .evicted he
    exact hdid.effect h u

/-- Eviction drops the listing of a tenant that has no count. -/
theorem empty_listing_evicted :
    (((init 0).run [.prefixMatchWithCounts ['x'] .entryOrder]).bind fun s =>
      (s.tree.evictTenantBySize .entryOrder 5).map fun t' => (s.tree.count "empty",
        (s.tree.node rootRef).lists "empty", (t'.node rootRef).lists "empty"))
    = some (0, true, false) := by
  decide +kernel

/-- **Removal is complete and isolated.** -/
theorem removal_complete (epoch : UInt64) (ops : List Op) (u : TenantId) (order : MapOrder) :
    ∃ s t', (init epoch).run ops = some s ∧ s.tree.removeTenant order u = some t' ∧
      (∀ i, ¬ (t'.node i).lists u = true) ∧ t'.tenantCharCount.lookup u = none ∧
      (∀ i, t'.Reaches i → i ≠ rootRef → ∃ v, (t'.node i).lists v = true) ∧ ∀ v, v ≠ u → ∀ text,
        t'.prefixMatchTenantCharCount text v = s.tree.prefixMatchTenantCharCount text v := by
  obtain ⟨s, _, hrun, h, hcounted⟩ := init_sound epoch ops
  obtain ⟨t', hremove, hr⟩ := removeTenant_spec h hcounted order u
  refine ⟨s, t', hrun, hremove, hr.unlisted, ?_, (hr.wf.consistent hr.counted).listed,
    fun v hv => charCount_congr h hr.wf (hr.owned v hv)⟩
  exact Option.not_isSome_iff_eq_none.1 fun hknown => ((hr.known u).1 hknown).2 rfl

/-! ## Counts -/

/-- A count is the number of texts that the tenant owns. -/
lemma Tree.WellFormed.ncard_owned (h : t.WellFormed pre) (u) :
    { p | Owned pre t u p }.Finite ∧ { p | Owned pre t u p }.ncard = t.listedSize u := by
  classical
  let listing := (range t.nodes.length).toFinset.filter fun i => (t.node i).lists u = true
  let places := listing.sigma fun i => Finset.range (t.label i).length
  let text : (_ : NodeRef) × Nat → Text := fun x => pre x.1 ++ (t.label x.1).take (x.2 + 1)
  have hplaces : ∀ x, x ∈ places ↔
      (t.node x.1).lists u = true ∧ x.2 + 1 ≤ (t.label x.1).length := by
    intro x
    rw [Finset.mem_sigma, Finset.mem_filter, mem_toFinset, mem_range, Finset.mem_range]
    exact ⟨fun hx => ⟨hx.1.2, hx.2⟩, fun hx => ⟨⟨lt_of_lists hx.1, hx.1⟩, hx.2⟩⟩
  have hset : { p | Owned pre t u p } = ↑(places.image text) := by
    ext p
    rw [Finset.mem_coe, Finset.mem_image]
    constructor
    · rintro ⟨i, k, hu, hpos, hk, rfl⟩
      obtain ⟨k, rfl⟩ := Nat.exists_eq_add_of_lt hpos
      rw [Nat.zero_add] at hk ⊢
      exact ⟨⟨i, k⟩, (hplaces _).2 ⟨hu, hk⟩, rfl⟩
    · rintro ⟨x, hx, rfl⟩
      exact ⟨x.1, x.2 + 1, ((hplaces x).1 hx).1, Nat.succ_pos _, ((hplaces x).1 hx).2, rfl⟩
  have hinj : Set.InjOn text places := by
    -- reading a text leads to the place where it ends
    have hread : ∀ x ∈ places, t.view.locate (text x) = some (x.1, x.2 + 1) := by
      intro x hx
      obtain ⟨hu, hk⟩ := (hplaces x).1 hx
      exact h.trie.locate_of_reaches (h.reaches hu) _ hk fun h0 => absurd h0 (Nat.succ_ne_zero _)
    intro x hx y hy hxy
    have hsame := (hread x hx).symm.trans ((congrArg t.view.locate hxy).trans (hread y hy))
    cases x
    cases y
    cases hsame
    rfl
  rw [hset]
  refine ⟨Finset.finite_toSet _, ?_⟩
  rw [Set.ncard_coe_finset, Finset.card_image_of_injOn hinj, Finset.card_sigma, listedSize_eq_sum,
    ← sum_toFinset _ nodup_range, Finset.sum_filter]
  refine Finset.sum_congr rfl fun i _ => ?_
  unfold Node.sizeFor
  split
  · rename_i hu
    rw [Finset.card_range, h.count_of_lists hu]
  · rfl

/-- The characters that an operation adds for a tenant at most. -/
def charsFor (u : TenantId) : Option (Text × TenantId) → Nat
  | some (text, v) => if v = u then text.length else 0
  | none => 0

lemma Did.count_le (hdid : Did pre t op ins t') (h : t.WellFormed pre) (hcounted : t.Counted)
    (u) : t'.count u ≤ t.count u + charsFor u ins := by
  classical
  obtain ⟨pre', hwf', hcounted', hsub⟩ := hdid.sound h hcounted
  -- the prefixes of the text that is inserted
  obtain ⟨added, hadded, hcard⟩ : ∃ added : Finset Text, added.card ≤ charsFor u ins ∧
      ∀ text, ins = some (text, u) → ∀ p, p ≠ [] → p <+: text → p ∈ added := by
    rcases ins with _ | ⟨text, v⟩
    · exact ⟨∅, le_rfl, nofun⟩
    refine ⟨(Finset.range (charsFor u (some (text, v)))).image fun k => text.take (k + 1),
      Finset.card_image_le.trans (Finset.card_range _).le, ?_⟩
    rintro _ hins p hne hp
    cases hins
    have hpos := length_pos_of_ne_nil hne
    refine Finset.mem_image.2 ⟨p.length - 1, Finset.mem_range.2 ?_, ?_⟩
    · rw [charsFor, if_pos rfl]
      have := hp.length_le
      omega
    · rw [Nat.sub_add_cancel hpos]
      exact (prefix_iff_eq_take.1 hp).symm
  obtain ⟨hfinite, howned⟩ := h.ncard_owned u
  have hle : { p | Owned pre' t' u p } ⊆ { p | Owned pre t u p } ∪ ↑added := by
    intro p hp
    rcases hsub u p hp with hold | ⟨text, hins, hne, hpre⟩
    · exact .inl hold
    · exact .inr (hcard text hins p hne hpre)
  calc t'.count u = { p | Owned pre' t' u p }.ncard := by rw [hcounted' u, (hwf'.ncard_owned u).2]
    _ ≤ ({ p | Owned pre t u p } ∪ ↑added).ncard :=
      Set.ncard_le_ncard hle (hfinite.union added.finite_toSet)
    _ ≤ { p | Owned pre t u p }.ncard + added.card := by
      rw [← Set.ncard_coe_finset added]
      exact Set.ncard_union_le _ _
    _ ≤ t.count u + charsFor u ins := by
      rw [howned, hcounted u]
      exact Nat.add_le_add_left hadded _

/-- A tenant is inserted through `insert_capped` only, with one limit. -/
def Op.CappedFor (u : TenantId) (maxChars : Nat) : Op → Prop
  | .insert _ v => v ≠ u
  | .insertCapped _ v limit => v = u → limit = maxChars
  | _ => True

lemma Did.capped (hdid : Did pre t op ins t') (h : t.WellFormed pre) (hcounted : t.Counted)
    (hop : op.CappedFor u maxChars)
    (hlongest : ∀ text, ins = some (text, u) → text.length ≤ longest)
    (hcount : t.count u ≤ maxChars - 1 + longest) : t'.count u ≤ maxChars - 1 + longest := by
  have hle := hdid.count_le h hcounted u
  by_cases hins : ∃ text, ins = some (text, u)
  · obtain ⟨text, rfl⟩ := hins
    have hchars := hlongest text rfl
    rw [charsFor, if_pos rfl] at hle
    cases hdid with
    | inserted => exact absurd rfl hop
    | insertedCapped hg hroom =>
      rw [hop rfl] at hroom
      omega
  have hzero : charsFor u ins = 0 := by
    rcases ins with _ | ⟨text, v⟩
    · rfl
    · exact if_neg fun hv => hins ⟨text, by rw [hv]⟩
  omega

/-- **A capped tenant overshoots by at most one text**, and an insertion raises a count by
at most the characters of its text. -/
theorem capped_overshoot (epoch : UInt64) (ops : List Op) (u : TenantId) (maxChars longest : Nat)
    (hops : ∀ op ∈ ops, op.CappedFor u maxChars) :
    ∃ hist, (History.init epoch).run ops = some hist ∧
      ((∀ text, (text, u) ∈ hist.inserted → text.length ≤ longest) →
        hist.state.tree.count u ≤ maxChars - 1 + longest) ∧
      ∀ op, ∃ hist', hist.step op = some hist' ∧ ∀ v, hist'.state.tree.count v
        ≤ hist.state.tree.count v + charsFor v (op.inserts hist.state) := by
  obtain ⟨hist, pre, hrun, hwf, hcounted, -, hcapped⟩ := History.run_induction
    (P := fun ops hist => (∀ op ∈ ops, op.CappedFor u maxChars) →
      (∀ text, (text, u) ∈ hist.inserted → text.length ≤ longest) →
      hist.state.tree.count u ≤ maxChars - 1 + longest) epoch
    (fun _ _ => Nat.zero_le _)
    (fun ops op hist state _ hwf hcounted _ _ ih hdid hops hlongest => by
      refine hdid.capped hwf hcounted (hops op (mem_append_right _ (mem_singleton_self op)))
        (fun text hins => hlongest text (mem_append_right _ ?_))
        (ih (fun o ho => hops o (mem_append_left _ ho)) fun text htext =>
          hlongest text (mem_append_left _ htext))
      rw [hins]
      exact mem_singleton_self _) ops
  refine ⟨hist, hrun, hcapped hops, fun op => ?_⟩
  obtain ⟨state, hstate, hdid⟩ := step_did hwf hcounted op
  refine ⟨hist.after op state, ?_, hdid.count_le hwf hcounted⟩
  unfold History.step
  rw [hstate]
  rfl

/-- The second text is inserted at one character below the limit. -/
theorem capped_overshoot_twice :
    ∃ hist, (History.init 0).run [.insertCapped ['a', 'b'] "t" 3, .insertCapped ['c', 'd'] "t" 3]
        = some hist ∧ hist.state.tree.count "t" ≤ 3 - 1 + 2 := by
  obtain ⟨hist, hrun, hcount, -⟩ := capped_overshoot 0
    [.insertCapped ['a', 'b'] "t" 3, .insertCapped ['c', 'd'] "t" 3] "t" 3 2
    (by simp [Op.CappedFor])
  refine ⟨hist, hrun, hcount fun _ htext => ?_⟩
  have hinserted : ((History.init 0).run
      [.insertCapped ['a', 'b'] "t" 3, .insertCapped ['c', 'd'] "t" 3]).map History.inserted
      = some [(['a', 'b'], "t"), (['c', 'd'], "t")] := by
    decide +kernel
  rw [hrun] at hinserted
  rw [Option.some.inj hinserted] at htext
  simp only [mem_cons, not_mem_nil, Prod.mk.injEq, and_true, or_false] at htext
  rcases htext with rfl | rfl
  · decide
  · decide

end VllmRouter.PrefixTree
