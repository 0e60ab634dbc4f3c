import VllmRouter.PrefixTree.Edits

/-!
# Insertion

A round of `insert` hangs the rest of the text below the current node as a leaf, or
goes on to a child, which it splits first where the text leaves it. On the way it
attaches the tenant to every node it passes.

- `insertStep_spec`: a round, against the part of the text that has been inserted.
- `insert_spec`: `insert` returns, and the tenant owns exactly the non-empty prefixes of
  the text in addition; the counts stay correct.
-/

namespace VllmRouter.PrefixTree.Tree

open List Node

variable {pre : NodeRef → Text} {t : Tree}

/-! ## Attaching the tenant on the way -/

/-- The counts are those of the nodes. -/
def Counted (t : Tree) : Prop := ∀ u, t.count u = t.listedSize u

variable {u : TenantId}

lemma enlists_update (hi : i < t.nodes.length) {f : Node → Node}
    (htext : (f (t.node i)).text = (t.node i).text)
    (hparent : (f (t.node i)).parent = (t.node i).parent)
    (hchildren : (f (t.node i)).children = (t.node i).children)
    (hlists : ∀ v, (f (t.node i)).lists v = true ↔ (t.node i).lists v = true ∨ v = u) :
    Enlists t (t.update i f) i u := by
  refine ⟨⟨(length_update t i f).symm, update_field hi text htext,
    update_field hi parent hparent, update_field hi children hchildren⟩, ?_⟩
  intro j v
  rw [node_update hi]
  split
  · rename_i hj
    rw [hlists, hj]
    simp
  · rename_i hj
    simp [hj]

lemma enlists_touch (hi : i < t.nodes.length) (u epoch) :
    Enlists t (t.update i (·.touch u epoch)) i u :=
  enlists_update hi rfl rfl rfl ((t.node i).lists_touch u epoch)

/-- Enlisting a tenant that is there already changes nothing. -/
lemma Enlists.alike {t' : Tree} (he : Enlists t t' i u) (hu : (t.node i).lists u = true) :
    Alike t t' := by
  refine ⟨he.toSameFrame, fun j v => (he.lists_iff j v).trans ⟨?_, .inl⟩⟩
  rintro (hv | ⟨rfl, rfl⟩)
  · exact hv
  · exact hu

lemma ensureTenant_enlists (hi : i < t.nodes.length) (u chars) :
    Enlists t (t.ensureTenant i u chars) i u := by
  unfold ensureTenant
  split
  · rename_i hu
    refine ⟨⟨rfl, fun _ => rfl, fun _ => rfl, fun _ => rfl⟩, fun j v => ⟨.inl, ?_⟩⟩
    rintro (hv | ⟨rfl, rfl⟩)
    · exact hv
    · exact hu
  -- the counts are not part of the frame
  have he := enlists_touch (t := t.addChars u chars) hi u 0
  exact ⟨⟨he.length_eq, he.text_eq, he.parent_eq, he.children_eq⟩, he.lists_iff⟩

lemma sizeFor_touch (n : Node) (u epoch v) :
    (n.touch u epoch).sizeFor v = if v = u then n.text.charCount else n.sizeFor v := by
  unfold sizeFor
  by_cases hv : v = u
  · rw [if_pos hv, if_pos ((n.lists_touch u epoch v).2 (.inr hv))]
    rfl
  rw [if_neg hv]
  have hiff : (n.touch u epoch).lists v = true ↔ n.lists v = true :=
    (n.lists_touch u epoch v).trans (by simp only [hv, or_false])
  by_cases hlist : n.lists v = true
  · rw [if_pos hlist, if_pos (hiff.2 hlist)]
    rfl
  · rw [if_neg hlist, if_neg (mt hiff.1 hlist)]

lemma ensureTenant_counted (hi : i < t.nodes.length) (u) (hcounted : t.Counted) :
    (t.ensureTenant i u (t.node i).text.charCount).Counted := by
  intro v
  unfold ensureTenant
  split
  · exact hcounted v
  rename_i hu
  have hsize := listedSize_update (t := t.addChars u (t.node i).text.charCount) hi (·.touch u 0) v
  rw [sizeFor_touch] at hsize
  have hcount := count_addChars t u (t.node i).text.charCount v
  have hold := hcounted v
  change _ + (t.node i).sizeFor v = t.listedSize v +
    (if v = u then (t.node i).text.charCount else (t.node i).sizeFor v) at hsize
  show (t.addChars u (t.node i).text.charCount).count v = _
  by_cases hv : v = u
  · subst hv
    have hzero : (t.node i).sizeFor v = 0 := if_neg hu
    rw [if_pos rfl] at hcount hsize
    omega
  · rw [if_neg hv] at hcount hsize
    omega

/-- The tenant has a count. -/
def Known (t : Tree) (u : TenantId) : Prop := (t.tenantCharCount.lookup u).isSome = true

lemma known_addChars (t : Tree) (u chars v) :
    (t.addChars u chars).Known v ↔ t.Known v ∨ v = u := by
  unfold Known addChars
  rw [Dict.lookup_upsert]
  by_cases hv : v = u
  · simp [hv]
  · simp [hv]

lemma known_ensureTenant (hu : t.Known u) (i chars v) :
    (t.ensureTenant i u chars).Known v ↔ t.Known v := by
  unfold ensureTenant
  split
  · rfl
  refine (known_addChars t u chars v).trans ⟨?_, .inl⟩
  rintro (hv | rfl)
  · exact hv
  · exact hu

/-! ## The loop -/

/-- The prefixes of a concatenation. -/
lemma prefix_append_iff {α : Type} {p a b : List α} :
    p <+: a ++ b ↔ p <+: a ∨ ∃ k, 0 < k ∧ k ≤ b.length ∧ p = a ++ b.take k := by
  constructor
  · intro hp
    rcases Nat.lt_or_ge a.length p.length with hlt | hle
    · refine .inr ⟨p.length - a.length, by omega, ?_, ?_⟩
      · have hlen := hp.length_le
        rw [length_append] at hlen
        omega
      have htake := prefix_iff_eq_take.1 hp
      rw [take_append, take_of_length_le hlt.le] at htake
      exact htake
    · exact .inl (prefix_of_prefix_length_le hp (prefix_append a b) hle)
  · rintro (hp | ⟨k, -, -, rfl⟩)
    · exact hp.trans (prefix_append a b)
    · exact (prefix_append_right_inj a).2 ( take_prefix k b)

/-- `t` is `t₀` with the text `done` inserted for `u`. -/
structure Grown (pre₀ : NodeRef → Text) (t₀ : Tree) (u : TenantId) (done : Text)
    (pre : NodeRef → Text) (t : Tree) : Prop where
  wf : WellFormed pre t
  counted : t.Counted
  owned : ∀ v p, Owned pre t v p ↔ Owned pre₀ t₀ v p ∨ (v = u ∧ p ≠ [] ∧ p <+: done)
  known : ∀ v, t.Known v ↔ t₀.Known v ∨ v = u
  root : ∀ v, (t.node rootRef).lists v = true ↔ (t₀.node rootRef).lists v = true ∨ v = u

/-- The insertion stands at the end of the node `prev`. -/
structure Inserting (pre₀ : NodeRef → Text) (t₀ : Tree) (u : TenantId) (done : Text)
    (pre : NodeRef → Text) (t : Tree) (prev : NodeRef) : Prop
    extends Grown pre₀ t₀ u done pre t where
  listed : (t.node prev).lists u = true
  at_end : pre prev ++ t.label prev = done

section Loop

variable {pre₀ : NodeRef → Text} {t₀ : Tree} {u : TenantId} {done : Text} {prev : NodeRef}

/-- Text inserted on top of the text `done`. -/
lemma owned_append (own : TenantId → Text → Prop) {v : TenantId} {p b : Text} :
    (own v p ∨ (v = u ∧ p ≠ [] ∧ p <+: done)) ∨
        (v = u ∧ ∃ k, 0 < k ∧ k ≤ b.length ∧ p = done ++ b.take k) ↔
      own v p ∨ (v = u ∧ p ≠ [] ∧ p <+: done ++ b) := by
  have hne : (∃ k, 0 < k ∧ k ≤ b.length ∧ p = done ++ b.take k) → p ≠ [] := by
    rintro ⟨_, _, _, rfl⟩ hnil
    have hlen := congrArg length hnil
    rw [length_append, length_take, length_nil] at hlen
    omega
  rw [prefix_append_iff]
  generalize (∃ k, 0 < k ∧ k ≤ b.length ∧ p = done ++ b.take k) = inside at hne ⊢
  tauto

section

variable (hg : Grown pre₀ t₀ u done pre t)
include hg

lemma Grown.leaf (hlist : (t.node prev).lists u = true) (hat : pre prev ++ t.label prev = done)
    {c : Char} {remaining : Text} (hvacant : t.child prev c = none)
    (hhead : remaining.head? = some c) (epoch) :
    Grown pre₀ t₀ u (done ++ remaining) (leafPre pre t prev)
      (t.insertLeaf epoch u prev remaining c) where
  wf := hg.wf.insertLeaf hlist hvacant hhead
  counted v := by
    rw [insertLeaf_listedSize (lt_of_lists hlist), ← hg.counted v]
    have hcount := count_addChars t u remaining.length v
    show (t.addChars u remaining.length).count v = _
    rw [hcount]
    split
    · rename_i hv
      rw [hv]
    · rw [Nat.add_zero]
  owned v p := by
    rw [insertLeaf_owned (lt_of_lists hlist), hg.owned, hat]
    exact owned_append (Owned pre₀ t₀)
  known v := by
    refine (known_addChars t u remaining.length v).trans ?_
    rw [hg.known]
    tauto
  root v := by
    rw [insertLeaf_lists (lt_of_lists hlist), ← hg.root]
    exact or_iff_left fun hnew => hg.wf.root_lt.ne hnew.1

lemma Grown.cut {m : NodeRef} {c d : Char} {k : Nat} (hm : t.child prev c = some m) (hpos : 0 < k)
    (hk : k < (t.label m).length) (hd : ((t.label m).drop k).head? = some d) :
    Grown pre₀ t₀ u done (cutPre pre t m k) (t.cut prev m c d k) where
  wf := hg.wf.cut hm hpos hk hd
  counted v := by
    rw [hg.wf.cut_listedSize hm hk]
    exact hg.counted v
  owned v p := (hg.wf.cut_owned hm hk v p).trans (hg.owned v p)
  known := hg.known
  root v := by
    rw [cut_lists (hg.wf.parent_lt hm) (hg.wf.child_lt prev c m hm) (hg.wf.child_ne hm),
      if_neg hg.wf.root_lt.ne]
    exact hg.root v

/-- Going on to the child `m`. -/
lemma Grown.enter {m : NodeRef} {c : Char} (hm : t.child prev c = some m)
    (hlist : (t.node prev).lists u = true) (hpre : pre m = done) :
    Inserting pre₀ t₀ u (done ++ t.label m) pre
      (t.ensureTenant m u (t.node m).text.charCount) m := by
  have hmlt := hg.wf.child_lt prev c m hm
  have he := ensureTenant_enlists hmlt u (t.node m).text.charCount
  have hlabel : (t.ensureTenant m u (t.node m).text.charCount).label m = t.label m :=
    congrArg NodeText.text (he.text_eq m)
  constructor
  · constructor
    · exact he.wellFormed hg.wf (.inr ⟨prev, c, hm, hlist⟩)
    · exact ensureTenant_counted hmlt u hg.counted
    · intro v p
      rw [he.owned_iff, hg.owned]
      unfold Inside
      rw [hpre]
      exact owned_append (Owned pre₀ t₀)
    · intro v
      have hu : t.Known u := (hg.known u).2 (.inr rfl)
      exact (known_ensureTenant hu m _ v).trans (hg.known v)
    intro v
    rw [he.lists_iff, ← hg.root]
    exact or_iff_left fun hm' => hg.wf.trie.child_ne_root prev c m hm hm'.1.symm
  · exact (he.lists_iff m u).2 (.inr ⟨rfl, rfl⟩)
  · rw [hlabel, hpre]

end

/-- What a round leaves behind. -/
def StepOk (pre₀ : NodeRef → Text) (t₀ : Tree) (u : TenantId) (done remaining : Text) (t : Tree) :
    InsertStep → Prop
  | .done => ∃ pre, Grown pre₀ t₀ u (done ++ remaining) pre t
  | .continue next n => 0 < n ∧ ∃ pre, Inserting pre₀ t₀ u (done ++ remaining.take n) pre t next

lemma insertStep_spec (hi : Inserting pre₀ t₀ u done pre t prev) (epoch c rest) : ∃ t' step,
    t.insertStep epoch u prev (c :: rest) c = some (t', step) ∧
      StepOk pre₀ t₀ u done (c :: rest) t' step := by
  unfold insertStep
  cases hm : (t.node prev).children.lookup c with
  | none => exact ⟨_, _, rfl, _, hi.toGrown.leaf hi.listed hi.at_end hm rfl epoch⟩
  | some m =>
    have hchild : t.child prev c = some m := hm
    have hcount : (t.node m).text.charCount = (t.label m).length :=
      hi.wf.child_count prev c m hchild
    have hpre : pre m = done := (hi.wf.trie.child_pre prev c m hchild).trans hi.at_end
    have hlabel : (t.label m).head? = some c := hi.wf.trie.child_label prev c m hchild
    generalize hshared : sharedPrefixCount (c :: rest) (t.node m).text.text = shared
    obtain ⟨-, hle, htake, -⟩ := sharedPrefixCountChars_spec (c :: rest) (t.label m) shared
      ((sharedPrefixCount_eq _ _).symm.trans hshared)
    have hpos : 0 < shared := by
      -- the child is stored under the first remaining character
      rw [← hshared, sharedPrefixCount_eq]
      exact sharedPrefixCountChars_pos hlabel
    simp only [hshared]
    by_cases hlt : shared < (t.node m).text.charCount
    · simp only [hlt]
      obtain ⟨d, l, hd⟩ := exists_cons_of_ne_nil
        (ne_nil_of_length_pos (l := (t.label m).drop shared) (by rw [length_drop]; omega))
      rw [NodeText.splitAtChar_eq hcount hpos hlt]
      have hfirst : (NodeText.new ((t.node m).text.text.drop shared)).firstChar = some d :=
        congrArg head? hd
      simp only [Option.bind_eq_bind, Option.bind_some, hfirst]
      refine ⟨_, _, rfl, hpos, cutPre pre t m shared, ?_⟩
      have hcut := hi.toGrown.cut hchild hpos (hcount ▸ hlt) (d := d) (by rw [hd]; rfl)
      have hprevlt := hi.wf.parent_lt hchild
      have hmlt := hi.wf.child_lt prev c m hchild
      have hne := hi.wf.child_ne hchild
      have hnewne : t.nodes.length ≠ m := hmlt.ne'
      have hnewLabel : (t.cut prev m c d shared).label t.nodes.length
          = (c :: rest).take shared := by
        rw [cut_label hprevlt hmlt hne, if_neg hnewne, if_pos rfl, htake]
      have hnewCount : ((t.cut prev m c d shared).node t.nodes.length).text.charCount = shared := by
        rw [cut_node hprevlt hmlt hne, if_neg hnewne, if_neg hprevlt.ne',
          if_pos rfl]
        show ((t.label m).take shared).length = shared
        rw [length_take, Nat.min_eq_left hle]
      have hlink : (t.cut prev m c d shared).child prev c = some t.nodes.length := by
        rw [cut_child hprevlt hmlt hne, if_neg hprevlt.ne, if_pos ⟨rfl, rfl⟩]
      have hlist : ((t.cut prev m c d shared).node prev).lists u = true := by
        rw [cut_lists hprevlt hmlt hne, if_neg hprevlt.ne, hi.listed]
      have hprenew : cutPre pre t m shared t.nodes.length = done := by
        unfold cutPre
        rw [Function.update_self, hpre]
      have hentered := hcut.enter hlink hlist hprenew
      rw [hnewLabel, hnewCount] at hentered
      exact hentered
    · simp only [hlt]
      refine ⟨_, _, rfl, hpos, pre, ?_⟩
      have hfull : shared = (t.label m).length := by omega
      have hwhole : (c :: rest).take shared = t.label m := by rw [htake, hfull, take_length]
      rw [hwhole]
      exact hi.toGrown.enter hchild hi.listed hpre

/-- Timestamps do not matter. -/
lemma Grown.alike (hg : Grown pre₀ t₀ u done pre t) {t' : Tree} (ha : Alike t t')
    (hcounts : t'.tenantCharCount = t.tenantCharCount) : Grown pre₀ t₀ u done pre t' where
  wf := ha.wellFormed hg.wf
  counted v := by
    rw [ha.listedSize_eq, ← hg.counted v]
    unfold count
    rw [hcounts]
  owned v p := (ha.owned_iff v p).trans (hg.owned v p)
  known v := by
    unfold Known
    rw [hcounts]
    exact hg.known v
  root v := (ha.lists_iff rootRef v).trans (hg.root v)

/-- Every round consumes a character, so the loop ends. -/
lemma insertLoop_spec (epoch) : ∀ fuel pre t
    (prev : NodeRef) (done remaining : Text), Inserting pre₀ t₀ u done pre t prev →
    remaining.length < fuel → ∃ t', insertLoop epoch u fuel t prev remaining = some t' ∧
      ∃ pre', Grown pre₀ t₀ u (done ++ remaining) pre' t' := by
  intro fuel
  induction fuel with
  | zero =>
    intro _ _ _ _ _ _ hfuel
    exact absurd hfuel (Nat.not_lt_zero _)
  | succ fuel ih =>
    intro pre _ _ done remaining hi hfuel
    cases remaining with
    | nil =>
      refine ⟨_, rfl, pre, ?_⟩
      rw [append_nil]
      exact hi.toGrown.alike ((enlists_touch (lt_of_lists hi.listed) u epoch).alike hi.listed) rfl
    | cons c rest =>
      obtain ⟨t', step, hstep, hok⟩ := insertStep_spec hi epoch c rest
      simp only [insertLoop, hstep]
      cases step with
      | done => exact ⟨t', rfl, hok⟩
      | «continue» next n =>
        obtain ⟨hn, pre', hnext⟩ := hok
        simp only [advanceByChars_eq]
        have hlen : ((c :: rest).drop n).length < fuel := by
          rw [length_cons] at hfuel
          rw [length_drop, length_cons]
          omega
        obtain ⟨t'', hloop, pre'', hg⟩ := ih pre' t' next _ _ hnext hlen
        rw [append_assoc, take_append_drop] at hg
        exact ⟨t'', hloop, pre'', hg⟩

end Loop

/-- **`insert` returns, and the tenant owns the non-empty prefixes of the text in
addition.** -/
lemma insert_spec (h : WellFormed pre t) (hcounted : t.Counted) (epoch text u) :
    ∃ t', t.insert epoch text u = some (t', epoch + 1) ∧
      ∃ pre', Grown pre t u text pre' t' := by
  unfold insert
  generalize ht1 : t.update rootRef (fun n =>
    { n with tenantLastAccessTime := n.tenantLastAccessTime.upsert u 0 id }) = t1
  have hrootText : (t.node rootRef).text.charCount = 0 := h.root_count
  have hen : Enlists t t1 rootRef u := by
    rw [← ht1]
    refine enlists_update h.root_lt rfl rfl rfl fun v => ?_
    unfold lists
    simp only [Dict.lookup_upsert]
    by_cases hv : v = u
    · simp [hv]
    · simp [hv]
  have hsize : ∀ v, t1.listedSize v = t.listedSize v := by
    intro v
    rw [← ht1]
    refine listedSize_update_same h.root_lt ?_
    unfold sizeFor
    rw [hrootText, ite_self, ite_self]
  have hstart : Inserting pre t u [] pre (t1.addChars u 0) rootRef := by
    have hwf : WellFormed pre t1 := hen.wellFormed h (.inl rfl)
    constructor
    · constructor
      · exact hwf.of_nodes rfl
      · intro v
        rw [count_addChars]
        show _ = t1.listedSize v
        have hcount : t1.count v = t.count v := by
          rw [← ht1]
          rfl
        rw [hsize, ← hcounted v]
        split
        · rename_i hv
          rw [Nat.add_zero, ← hv, hcount]
        · rw [hcount]
      · intro v p
        show Owned pre t1 v p ↔ _
        rw [hen.owned_iff]
        -- no text ends inside the root
        have hroot : ¬ Inside pre t rootRef p := by
          rintro ⟨_, _, hk, -⟩
          have hlabel : t.label rootRef = [] := h.trie.root_label
          rw [hlabel, length_nil] at hk
          omega
        have hnil : ¬ (p ≠ [] ∧ p <+: []) := fun hp => hp.1 (prefix_nil.1 hp.2)
        tauto
      · intro v
        rw [known_addChars, ← ht1]
        rfl
      intro v
      refine (hen.lists_iff rootRef v).trans ?_
      simp
    · exact (hen.lists_iff rootRef u).2 (.inr ⟨rfl, rfl⟩)
    have hlabel : t1.label rootRef = [] := hwf.trie.root_label
    have hpre : pre rootRef = [] := h.trie.root_pre
    show pre rootRef ++ t1.label rootRef = []
    rw [hlabel, hpre]
    rfl
  obtain ⟨t', hloop, hgrown⟩ := insertLoop_spec epoch (text.length + 1) pre _ rootRef [] text
    hstart (Nat.lt_succ_self _)
  simp only [hloop]
  exact ⟨t', rfl, hgrown⟩

end VllmRouter.PrefixTree.Tree
