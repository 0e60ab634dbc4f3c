import VllmRouter.Lib.Fold
import VllmRouter.PrefixTree.Eviction

/-!
# Sequential histories of the prefix tree

- `Did`, `step_did`: what each operation does to a well-formed tree. Every operation
  returns.
- `run_sound`: every sequential history returns, and leaves a well-formed tree with
  correct counts.
- `Tree.Consistent`: the representation invariant in terms of the nodes of the tree;
  `histories_keep_consistent` shows it after every history.
- `Tree.prefixes`: the texts that a tenant has in the tree.
  `histories_refine_prefix_sets` shows that the operations are operations on these sets,
  and the matches queries of them.
- `Op.held`: what was inserted and can be found again.
-/

namespace VllmRouter.PrefixTree

open PrefixTree.Tree Option TreeState

/-! ## Every history returns -/

/-- The text and the tenant that an operation inserts. -/
def Op.inserts (s : TreeState) : Op → Option (Text × TenantId)
  | .insert text tenant => some (text, tenant)
  | .insertCapped text tenant maxChars =>
    if (s.tree.insertCapped s.epoch text tenant maxChars).any fun result => result.2.2 then
      some (text, tenant)
    else none
  | _ => none

/-- What an operation that inserts `ins` does to the tree. -/
inductive Did (pre : NodeRef → Text) (t : Tree) : Op → Option (Text × TenantId) → Tree → Prop
  | inserted {text : Text} {u : TenantId} {pre' : NodeRef → Text} {t' : Tree}
      (h : Grown pre t u text pre' t') : Did pre t (.insert text u) (some (text, u)) t'
  | insertedCapped {text : Text} {u : TenantId} {maxChars : Nat} {pre' : NodeRef → Text}
      {t' : Tree} (h : Grown pre t u text pre' t') (hroom : t.count u < maxChars) :
      Did pre t (.insertCapped text u maxChars) (some (text, u)) t'
  | skipped {text : Text} {u : TenantId} {maxChars : Nat} :
      Did pre t (.insertCapped text u maxChars) none t
  | matched {text : Text} {order : MapOrder} {t' : Tree} (h : Unchanged pre t t') :
      Did pre t (.prefixMatchWithCounts text order) none t'
  | matchedTenant {text : Text} {u : TenantId} {t' : Tree} (h : Unchanged pre t t')
      (hlists : ∀ i v, (t'.node i).lists v = true ↔ (t.node i).lists v = true) :
      Did pre t (.prefixMatchTenant text u) none t'
  | evicted {maxSize : Nat} {order : MapOrder} {t' : Tree} (h : Evicting pre t maxSize t' []) :
      Did pre t (.evictTenantBySize maxSize order) none t'
  | removed {u : TenantId} {order : MapOrder} {t' : Tree} (h : Removed pre t u t') :
      Did pre t (.removeTenant u order) none t'
  | elapsed {n : Nat} : Did pre t (.elapse n) none t

variable {pre : NodeRef → Text} {u : TenantId} {text : Text}

lemma insertCapped_spec (h : t.WellFormed pre) (hcounted : t.Counted) (epoch text u maxChars) :
    ∃ t' epoch' done, t.insertCapped epoch text u maxChars = some (t', epoch', done) ∧
      Did pre t (.insertCapped text u maxChars) (if done then some (text, u) else none) t' := by
  unfold insertCapped
  split
  · exact ⟨t, epoch, false, rfl, .skipped⟩
  rename_i hzero
  split
  · exact ⟨t, epoch, false, rfl, .skipped⟩
  rename_i hfull
  obtain ⟨t', hinsert, _, hgrown⟩ := insert_spec h hcounted epoch text u
  simp only [hinsert]
  refine ⟨t', epoch + 1, true, rfl, .insertedCapped hgrown ?_⟩
  unfold count
  cases hlookup : t.tenantCharCount.lookup u with
  | none => exact Nat.pos_of_ne_zero hzero
  | some =>
    rw [hlookup] at hfull
    exact Nat.not_le.1 fun hle => hfull (decide_eq_true hle)

/-- **Every operation on a well-formed tree returns.** -/
lemma step_did (h : s.tree.WellFormed pre) (hcounted : s.tree.Counted) (op) :
    ∃ s', s.step op = some s' ∧ Did pre s.tree op (op.inserts s) s'.tree := by
  cases op with
  | insert text u =>
    obtain ⟨_, hinsert, _, hgrown⟩ := insert_spec h hcounted s.epoch text u
    simp only [step, hinsert]
    exact ⟨_, rfl, .inserted hgrown⟩
  | insertCapped text u maxChars =>
    obtain ⟨_, _, _, hinsert, hdid⟩ := insertCapped_spec h hcounted s.epoch text u maxChars
    simp only [step, Op.inserts, hinsert]
    exact ⟨_, rfl, hdid⟩
  | prefixMatchWithCounts text order =>
    obtain ⟨_, _, hmatch, hsame, -⟩ := prefixMatchWithCounts_spec h s.epoch order text
    simp only [step, hmatch]
    exact ⟨_, rfl, .matched hsame⟩
  | prefixMatchTenant text u =>
    obtain ⟨_, _, _, hmatch, hsame, -, hlists⟩ := prefixMatchTenant_spec h s.epoch text u
    simp only [step, hmatch]
    exact ⟨_, rfl, .matchedTenant hsame hlists⟩
  | evictTenantBySize maxSize order =>
    obtain ⟨t', hevict, hevicted⟩ := evictTenantBySize_spec h hcounted order maxSize
    simp only [step, hevict]
    exact ⟨_, rfl, .evicted hevicted⟩
  | removeTenant u order =>
    obtain ⟨t', hremove, hremoved⟩ := removeTenant_spec h hcounted order u
    simp only [step, hremove]
    exact ⟨_, rfl, .removed hremoved⟩
  | elapse => exact ⟨_, rfl, .elapsed⟩

/-- The tree stays well-formed, and a tenant owns at most the prefixes of what was inserted
for it in addition. -/
lemma Did.sound (hdid : Did pre t op ins t') (h : t.WellFormed pre) (hcounted : t.Counted) :
    ∃ pre', t'.WellFormed pre' ∧ t'.Counted ∧ ∀ u p, Owned pre' t' u p →
      Owned pre t u p ∨ ∃ text, ins = some (text, u) ∧ p ≠ [] ∧ p <+: text := by
  cases hdid with
  | inserted hg
  | insertedCapped hg =>
    refine ⟨_, hg.wf, hg.counted, fun u p hp => ((hg.owned u p).1 hp).imp_right ?_⟩
    rintro ⟨rfl, hp⟩
    exact ⟨_, rfl, hp⟩
  | skipped
  | elapsed => exact ⟨pre, h, hcounted, fun _ _ => .inl⟩
  | matched hs
  | matchedTenant hs =>
    exact ⟨pre, hs.wf, hs.counted hcounted, fun u p hp => .inl ((hs.owned_iff u p).1 hp)⟩
  | evicted he => exact ⟨pre, he.wf, he.counted, fun u p hp => .inl (he.owned u p hp)⟩
  | @removed v _ _ hr =>
    refine ⟨pre, hr.wf, hr.counted, fun u p hp => .inl ?_⟩
    by_cases hu : u = v
    · obtain ⟨i, k, hlist, -⟩ := hp
      exact absurd hlist (hu ▸ hr.unlisted i)
    · exact (hr.owned u hu p).1 hp

/-- **Every sequential history returns**, and leaves a well-formed tree with correct
counts. -/
lemma run_sound (ops) : ∀ (s : TreeState) (pre : NodeRef → Text),
    s.tree.WellFormed pre → s.tree.Counted →
    ∃ s' pre', s.run ops = some s' ∧ s'.tree.WellFormed pre' ∧ s'.tree.Counted := by
  induction ops with
  | nil => exact fun s pre h hcounted => ⟨s, pre, rfl, h, hcounted⟩
  | cons op _ ih =>
    intro _ _ h hcounted
    obtain ⟨s1, hstep, hdid⟩ := step_did h hcounted op
    obtain ⟨pre1, h1, hcounted1, -⟩ := hdid.sound h hcounted
    obtain ⟨s', pre', hrun, hend⟩ := ih s1 pre1 h1 hcounted1
    refine ⟨s', pre', ?_, hend⟩
    unfold run at hrun ⊢
    rw [List.foldlM_cons, hstep]
    exact hrun

lemma init_sound (epoch ops) : ∃ s pre,
    (init epoch).run ops = some s ∧ s.tree.WellFormed pre ∧ s.tree.Counted := by
  obtain ⟨s, pre, hrun, h⟩ := run_sound ops (init epoch) _ wellFormed_new fun _ => rfl
  exact ⟨s, pre, hrun, h⟩

/-! ## The representation invariant -/

namespace Tree

/-- What holds of the nodes of the tree and of the counts. -/
structure Consistent (t : Tree) : Prop where
  text_ne_nil : ∀ j, t.Reaches j → j ≠ rootRef → (t.node j).text.text ≠ []
  charCount_eq : ∀ j, t.Reaches j → j ≠ rootRef →
    (t.node j).text.charCount = (t.node j).text.text.length
  listed : ∀ j, t.Reaches j → j ≠ rootRef → ∃ u, (t.node j).lists u = true
  stored : ∀ j, t.Reaches j → j ≠ rootRef → ∃ i c, t.Reaches i ∧ (t.node j).parent = some i ∧
    (t.node j).text.firstChar = some c ∧ (t.node i).children.lookup c = some j
  child_lists : ∀ i c j, t.Reaches i → (t.node i).children.lookup c = some j →
    ∀ u, (t.node j).lists u = true → (t.node i).lists u = true
  counts : ∀ order, ∃ nodes, t.traversal order = some nodes ∧ nodes.Nodup ∧
    (∀ i, i ∈ nodes ↔ t.Reaches i) ∧
    ∀ u, (t.tenantCharCount.lookup u).getD 0
      = ((nodes.filter fun i => (t.node i).lists u).map fun i => (t.node i).text.charCount).sum

section Sizes

variable {pre : NodeRef → Text} {t : Tree}

/-- The nodes outside the tree list nobody, so the size of a tenant is a sum over the
nodes of the tree. -/
lemma WellFormed.listedSize_eq (h : WellFormed pre t) {nodes : List NodeRef}
    (hnodup : nodes.Nodup) (hmem : ∀ i, i ∈ nodes ↔ t.Reaches i) (u) :
    t.listedSize u = (nodes.map fun i => (t.node i).sizeFor u).sum := by
  rw [listedSize_eq_sum, ← List.sum_toFinset _ hnodup, ← List.sum_toFinset _ List.nodup_range]
  symm
  refine Finset.sum_subset (fun i hi => ?_) fun i _ hi => ?_
  · rw [List.mem_toFinset] at hi ⊢
    exact List.mem_range.2 (h.lt_of_reaches ((hmem i).1 hi))
  · rw [List.mem_toFinset] at hi
    exact if_neg fun hu => hi ((hmem i).2 (h.reaches hu))

lemma WellFormed.consistent (h : WellFormed pre t) (hcounted : t.Counted) : t.Consistent := by
  have hstored : ∀ j, t.Reaches j → j ≠ rootRef →
      ∃ i c, t.Reaches i ∧ t.child i c = some j := by
    intro j hj hne
    rcases TrieView.Reaches.parent hj with hroot | hlink
    · exact absurd hroot hne
    · exact hlink
  constructor
  · intro j hj hne
    obtain ⟨i, c, -, hij⟩ := hstored j hj hne
    exact h.label_ne_nil hij
  · intro j hj hne
    obtain ⟨i, c, -, hij⟩ := hstored j hj hne
    exact h.child_count i c j hij
  · intro j hj hne
    obtain ⟨i, c, -, hij⟩ := hstored j hj hne
    exact h.child_listed i c j hij
  · intro j hj hne
    obtain ⟨i, c, hi, hij⟩ := hstored j hj hne
    exact ⟨i, c, hi, h.child_parent i c j hij, h.trie.child_label i c j hij, hij⟩
  · intro i c j _ hij
    exact h.child_lists i c j hij
  intro order
  obtain ⟨nodes, htraversal, hnodup, hmem⟩ := traversal_spec h order
  refine ⟨nodes, htraversal, hnodup, hmem, fun u => ?_⟩
  rw [sum_filter]
  exact (hcounted u).trans (h.listedSize_eq hnodup hmem u)

/-- Adding `chars` once for each tenant of a list. -/
lemma lookup_foldl_addSize (chars u) (tenants : List TenantId) :
    tenants.Nodup → ∀ sizes : Dict TenantId Nat,
      ((tenants.foldl (fun sizes v => sizes.upsert v 0 (· + chars)) sizes).lookup u).getD 0
        = (sizes.lookup u).getD 0 + if u ∈ tenants then chars else 0 := by
  induction tenants with
  | nil => exact fun _ _ => (add_zero _).symm
  | cons v _ ih =>
    intro hnodup _
    obtain ⟨hv, hrest⟩ := List.nodup_cons.1 hnodup
    rw [List.foldl_cons, ih hrest, Dict.lookup_upsert]
    by_cases huv : u = v
    · subst huv
      simp [hv]
    · simp [huv]

/-- `get_used_size_per_tenant` computes the sizes. -/
lemma getUsedSizePerTenant_spec (h : WellFormed pre t) (order) :
    ∃ sizes, t.getUsedSizePerTenant order = some sizes ∧
      ∀ u, (sizes.lookup u).getD 0 = t.listedSize u := by
  obtain ⟨nodes, htraversal, hnodup, hmem⟩ := traversal_spec h order
  unfold getUsedSizePerTenant
  simp only [htraversal]
  refine ⟨_, rfl, fun u => ?_⟩
  rw [h.listedSize_eq hnodup hmem u]
  have hfold : ∀ (l : List NodeRef) (sizes : Dict TenantId Nat),
      ((l.foldl (fun sizes i => (t.node i).tenantLastAccessTime.keys.foldl
        (fun sizes v => sizes.upsert v 0 (· + (t.node i).text.charCount)) sizes)
        sizes).lookup u).getD 0
      = (sizes.lookup u).getD 0 + (l.map fun i => (t.node i).sizeFor u).sum := by
    intro l
    induction l with
    | nil => exact fun _ => (add_zero _).symm
    | cons i l ih =>
      intro _
      rw [List.foldl_cons, ih, lookup_foldl_addSize _ u _ (AList.keys_nodup _), Nat.add_assoc]
      have hkeys : u ∈ (t.node i).tenantLastAccessTime.keys ↔ (t.node i).lists u = true :=
        (Dict.mem_keys_iff _ u).trans Node.lists_iff.symm
      simp only [hkeys]
      rfl
  exact (hfold nodes ∅).trans (Nat.zero_add _)

end Sizes

end Tree

/-- After every sequential history the nodes of the tree are consistent, and the counts
are the sizes that a traversal computes. -/
theorem histories_keep_consistent (epoch : UInt64) (ops : List Op) :
    ∃ s, (init epoch).run ops = some s ∧ s.tree.Consistent ∧
      ∀ order, ∃ sizes, s.tree.getUsedSizePerTenant order = some sizes ∧
        ∀ u, (sizes.lookup u).getD 0 = (s.tree.tenantCharCount.lookup u).getD 0 := by
  obtain ⟨s, _, hrun, h, hcounted⟩ := init_sound epoch ops
  refine ⟨s, hrun, h.consistent hcounted, fun order => ?_⟩
  obtain ⟨sizes, hsizes, hsum⟩ := getUsedSizePerTenant_spec h order
  exact ⟨sizes, hsizes, fun u => (hsum u).trans (hcounted u).symm⟩

/-! ## The sets of texts -/

namespace Tree

/-- The texts of a tenant: those that lead to nodes that list it, and the empty text if
it has a count. -/
def prefixes (t : Tree) (u : TenantId) : Set Text :=
  { p | (p = [] ∧ t.Known u) ∨ (p ≠ [] ∧ t.Seen (fun n => n.lists u) p) }

section Prefixes

variable {pre : NodeRef → Text} {t : Tree}

lemma Owned.ne_nil (hp : Owned pre t u p) : p ≠ [] := by
  obtain ⟨_, _, -, _, _, rfl⟩ := hp
  refine List.ne_nil_of_length_pos ?_
  rw [List.length_append, List.length_take]
  omega

lemma WellFormed.mem_prefixes (h : WellFormed pre t) :
    p ∈ t.prefixes u ↔ (p = [] ∧ t.Known u) ∨ Owned pre t u p := by
  refine or_congr_right ⟨?_, ?_⟩
  · rintro ⟨hne, hseen⟩
    exact (h.seen_iff_owned hne).1 hseen
  · intro hp
    exact ⟨hp.ne_nil, (h.seen_iff_owned hp.ne_nil).2 hp⟩

/-- The texts of a tenant are closed under prefixes. -/
lemma WellFormed.prefixes_closed (h : WellFormed pre t) (hcounted : t.Counted)
    (hp : p ∈ t.prefixes u) (hq : q <+: p) : q ∈ t.prefixes u := by
  rcases hp with ⟨rfl, hknown⟩ | ⟨hne, hseen⟩
  · exact .inl ⟨List.prefix_nil.1 hq, hknown⟩
  by_cases hnil : q = []
  · exact .inl ⟨hnil, h.known_of_owned hcounted ((h.seen_iff_owned hne).1 hseen)⟩
  obtain ⟨v, rfl⟩ := hq
  exact .inr ⟨hnil, @TrieView.Readable.of_append _ _ q
    (fun i => (t.node i).lists u = true) t.view _ (h.upward_lists u) v hseen⟩

end Prefixes

end Tree

/-- What an operation does to the tenants' sets of texts. -/
def Op.Effect : Op → (TenantId → Set Text) → (TenantId → Set Text) → Prop
  | .insert text u, S, S' => S' = Function.update S u (S u ∪ { p | p <+: text })
  | .insertCapped text u _, S, S' => S' = S ∨ S' = Function.update S u (S u ∪ { p | p <+: text })
  | .prefixMatchWithCounts _ _, S, S' => S' = S
  | .prefixMatchTenant _ _, S, S' => S' = S
  | .evictTenantBySize _ _, S, S' => ∀ u, S' u ⊆ S u
  | .removeTenant u _, S, S' => S' = Function.update S u ∅
  | .elapse _, S, S' => S' = S

section Effect

variable {pre pre' : NodeRef → Text} {t t' : Tree}

lemma Tree.Grown.prefixes_eq (hg : Grown pre t u text pre' t') (h : t.WellFormed pre) :
    t'.prefixes = Function.update t.prefixes u (t.prefixes u ∪ { p | p <+: text }) := by
  funext v
  ext p
  rw [hg.wf.mem_prefixes, hg.known, hg.owned]
  by_cases hv : v = u
  · subst hv
    rw [Function.update_self, Set.mem_union, h.mem_prefixes]
    by_cases hp : p = []
    · simp [hp]
    · simp [hp]
  · rw [Function.update_of_ne hv, h.mem_prefixes]
    simp [hv]

lemma Tree.Unchanged.prefixes_eq (hs : Unchanged pre t t') (h : t.WellFormed pre) :
    t'.prefixes = t.prefixes := by
  funext u
  ext p
  rw [hs.wf.mem_prefixes, h.mem_prefixes, hs.known, hs.owned_iff]

lemma Did.effect (hdid : Did pre t op ins t') (h : t.WellFormed pre) :
    op.Effect t.prefixes t'.prefixes := by
  cases hdid with
  | inserted hg => exact hg.prefixes_eq h
  | insertedCapped hg => exact .inr (hg.prefixes_eq h)
  | skipped => exact .inl rfl
  | matched hs
  | matchedTenant hs => exact hs.prefixes_eq h
  | evicted he =>
    intro u p hp
    rw [he.wf.mem_prefixes, he.known] at hp
    exact h.mem_prefixes.2 (hp.imp_right (he.owned u p))
  | @removed u _ _ hr =>
    funext v
    ext p
    rw [hr.wf.mem_prefixes, hr.known]
    by_cases hv : v = u
    · subst hv
      rw [Function.update_self]
      refine ⟨?_, False.elim⟩
      rintro (⟨-, -, hne⟩ | ⟨i, k, hlist, -⟩)
      · exact hne rfl
      · exact hr.unlisted i hlist
    · rw [Function.update_of_ne hv, h.mem_prefixes, hr.owned v hv]
      simp [hv]
  | elapsed => rfl

end Effect

/-- The lengths of the prefixes of `text` that are in the set, and 0. -/
def matchLengths (S : Set Text) (text : Text) : Set Nat :=
  { n | n = 0 ∨ ∃ p ∈ S, p <+: text ∧ p.length = n }

lemma Tree.Longest.isGreatest (hl : Longest (Owned pre t u) text matched) (h : t.WellFormed pre) :
    IsGreatest (matchLengths (t.prefixes u) text) matched := by
  constructor
  · rcases Nat.eq_zero_or_pos matched with hzero | hpos
    · exact .inl hzero
    have hown := (hl.iff_own matched hpos hl.le).1 le_rfl
    refine .inr ⟨text.take matched, h.mem_prefixes.2 (.inr hown), List.take_prefix _ _, ?_⟩
    rw [List.length_take, Nat.min_eq_left hl.le]
  rintro n (rfl | ⟨p, hp, hpre, rfl⟩)
  · exact Nat.zero_le _
  rcases h.mem_prefixes.1 hp with ⟨rfl, -⟩ | hown
  · exact Nat.zero_le _
  refine (hl.iff_own p.length (List.length_pos_of_ne_nil hown.ne_nil) hpre.length_le).2 ?_
  rw [← List.prefix_iff_eq_take.1 hpre]
  exact hown

/-- The longest match of all is the maximum of the longest matches of the tenants. -/
lemma Tree.Longest.isGreatest_tenants (hl : Longest (fun p => ∃ u, Owned pre t u p) text matched)
    (h : t.WellFormed pre) :
    IsGreatest { n | ∃ u, t.prefixMatchTenantCharCount text u = some n } matched := by
  have hle : ∀ u n, Longest (Owned pre t u) text n → n ≤ matched :=
    fun u n hn => hn.mono hl fun p hp => ⟨u, hp⟩
  constructor
  · rcases Nat.eq_zero_or_pos matched with _ | hpos
    · obtain ⟨n, hcount, hn⟩ := prefixMatchTenantCharCount_spec h text "empty"
      have hn0 : n = matched := by
        have := hle _ n hn
        omega
      exact ⟨_, hn0 ▸ hcount⟩
    obtain ⟨u, hown⟩ := (hl.iff_own matched hpos hl.le).1 le_rfl
    obtain ⟨n, hcount, hn⟩ := prefixMatchTenantCharCount_spec h text u
    have heq : n = matched := Nat.le_antisymm (hle u n hn) ((hn.iff_own matched hpos hl.le).2 hown)
    exact ⟨u, heq ▸ hcount⟩
  · rintro n ⟨u, hcount⟩
    obtain ⟨n', hcount', hn'⟩ := prefixMatchTenantCharCount_spec h text u
    rw [hcount] at hcount'
    cases hcount'
    exact hle u n hn'

/-- **The tree refines sets of texts.** There are prefix-closed sets, empty at first, on
which every operation of every sequential history has its effect, and of which the
matches return the longest prefixes in characters; the byte paths of the helpers agree
with the character paths. -/
theorem histories_refine_prefix_sets : ∃ sets : Tree → TenantId → Set Text,
      (∀ u, sets Tree.new u = ∅) ∧
      (∀ (epoch : UInt64) (ops : List Op), ∃ s, (init epoch).run ops = some s ∧
        (∀ u p q, p ∈ sets s.tree u → q <+: p → q ∈ sets s.tree u) ∧
        (∀ op, ∃ s', s.step op = some s' ∧ op.Effect (sets s.tree) (sets s'.tree)) ∧
        (∀ text u, ∃ n, s.tree.prefixMatchTenantCharCount text u = some n ∧
          IsGreatest (matchLengths (sets s.tree u) text) n) ∧ ∀ text order, ∃ t' epoch' result,
          s.tree.prefixMatchWithCounts s.epoch order text = some (t', epoch', result) ∧
          IsGreatest { n | ∃ u, s.tree.prefixMatchTenantCharCount text u = some n }
            result.matchedCharCount) ∧
      (∀ a b : Text, sharedPrefixCount a b = sharedPrefixCountChars a b) ∧
      (∀ (text : Text) (n : Nat), advanceByChars text n = some (text.drop n) ∧
        takeChars text n = some (text.take n)) := by
  refine ⟨Tree.prefixes, fun u => ?_, fun epoch ops => ?_, sharedPrefixCount_eq,
    fun text n => ⟨advanceByChars_eq text n, takeChars_eq text n⟩⟩
  · ext p
    rw [wellFormed_new.mem_prefixes]
    refine ⟨?_, False.elim⟩
    rintro (⟨-, hknown⟩ | ⟨i, k, hlist, -⟩)
    · cases hknown
    · obtain rfl : i = 0 := Nat.lt_one_iff.1 (lt_of_lists hlist)
      cases hlist
  obtain ⟨s, _, hrun, h, hcounted⟩ := init_sound epoch ops
  refine ⟨s, hrun, fun u p q => h.prefixes_closed hcounted, fun op => ?_, fun text u => ?_,
    fun text order => ?_⟩
  · obtain ⟨s', hstep, hdid⟩ := step_did h hcounted op
    exact ⟨s', hstep, hdid.effect h⟩
  · obtain ⟨n, hcount, hn⟩ := prefixMatchTenantCharCount_spec h text u
    exact ⟨n, hcount, hn.isGreatest h⟩
  · obtain ⟨t', result, hmatch, -, hlongest, -⟩ := prefixMatchWithCounts_spec h s.epoch order text
    exact ⟨t', _, result, hmatch, hlongest.isGreatest_tenants h⟩

/-! ## What is inserted is found -/

/-- The insertions since the last eviction whose tenants were not removed since. -/
def Op.held (texts : List (Text × TenantId)) : Op → List (Text × TenantId)
  | .insert text u => (text, u) :: texts
  | .evictTenantBySize _ _ => []
  | .removeTenant u _ => texts.filter (·.2 ≠ u)
  | _ => texts

lemma Op.Effect.held {op : Op} {S S' : TenantId → Set Text} (h : op.Effect S S')
    (hold : ∀ p ∈ texts, p.1 ∈ S p.2) : ∀ p ∈ op.held texts, p.1 ∈ S' p.2 := by
  have hgrown : ∀ u X, ∀ p ∈ texts, p.1 ∈ Function.update S u (S u ∪ X) p.2 := by
    intro u X p hp
    have hle : S ≤ Function.update S u (S u ∪ X) := le_update_self_iff.2 Set.subset_union_left
    exact hle p.2 (hold p hp)
  cases op with
  | insert text u =>
    cases h
    refine List.forall_mem_cons.2 ⟨?_, hgrown u _⟩
    rw [Function.update_self]
    exact .inr (List.prefix_refl text)
  | insertCapped _ u =>
    rcases h with rfl | rfl
    · exact hold
    · exact hgrown u _
  | evictTenantBySize => exact nofun
  | removeTenant u =>
    cases h
    intro p hp
    obtain ⟨hp, hne⟩ := List.mem_filter.1 hp
    rw [Function.update_of_ne (of_decide_eq_true hne)]
    exact hold p hp
  | _ =>
    cases h
    exact hold

/-- After every history, a text that was inserted for a tenant is matched whole for it, unless
something was evicted or the tenant was removed since. -/
theorem histories_match_held (epoch : UInt64) (ops : List Op) :
    ∃ s, (init epoch).run ops = some s ∧ ∀ p ∈ ops.foldl Op.held [], ∃ t' epoch',
      s.tree.prefixMatchTenant s.epoch p.1 p.2 = some (t', epoch', p.1) := by
  obtain ⟨s, hrun, ⟨_, h⟩, -, hheld⟩ := foldlM_rule (P := fun done (s : TreeState) =>
    (∃ pre, s.tree.WellFormed pre) ∧ s.tree.Counted ∧
      ∀ p ∈ done.foldl Op.held [], p.1 ∈ s.tree.prefixes p.2) (fun _ op _ _ _ hs => by
        obtain ⟨⟨_, h⟩, hcounted, hheld⟩ := hs
        obtain ⟨s', hstep, hdid⟩ := step_did h hcounted op
        obtain ⟨pre', h', hcounted', -⟩ := hdid.sound h hcounted
        refine ⟨s', hstep, ⟨pre', h'⟩, hcounted', ?_⟩
        rw [List.foldl_append]
        exact (hdid.effect h).held hheld)
    ops [] (init epoch) rfl ⟨⟨_, wellFormed_new⟩, fun _ => rfl, nofun⟩
  refine ⟨s, hrun, fun p hp => ?_⟩
  obtain ⟨t', epoch', _, hmatch, -, hlongest, -⟩ := prefixMatchTenant_spec h s.epoch p.1 p.2
  have hle := (hlongest.isGreatest h).2 (.inr ⟨p.1, hheld p hp, List.prefix_refl _, rfl⟩)
  exact ⟨t', epoch', by rw [hmatch, List.take_of_length_le hle]⟩

end VllmRouter.PrefixTree
