import VllmRouter.PrefixTree.Insertion

/-!
# Matching

A match walks down from the root as far as the text and the nodes agree.

- `walk_spec`: the walk ends, and its length is that of the longest prefix that leads to
  visible nodes only.
- `matchTenantState_spec`, `matchAll_spec`: the same in terms of the texts that the
  tenants own.
- `prefixMatchWithCounts_spec`, `prefixMatchTenant_spec`: a match changes timestamps and
  caches, and may list a tenant at an empty root; nobody's texts or counts change.
-/

namespace VllmRouter.PrefixTree.Tree

open List TrieView.Reaches TrieView Node

variable {pre : NodeRef → Text} {t : Tree}

/-! ## The walk -/

variable {done text : Text} {curr : NodeRef} {u : TenantId}

section Walk

variable {vis : Node → Bool}

/-- The prefixes that lead to visible nodes. -/
def Seen (t : Tree) (vis : Node → Bool) (p : Text) : Prop :=
  t.view.Readable (fun i => vis (t.node i) = true) p

/-- A visible node is below visible nodes. -/
def Upward (t : Tree) (vis : Node → Bool) : Prop :=
  ∀ i c j, t.child i c = some j → vis (t.node j) = true → vis (t.node i) = true

/-- What a walk returns after the text `done`, with `text` to match in all. -/
structure WalkOk (t : Tree) (vis : Node → Bool) (done text : Text) (matched : Nat)
    (curr : NodeRef) : Prop where
  located : ∃ k, t.view.locate (text.take matched) = some (curr, k)
  ge : done.length ≤ matched
  le : matched ≤ text.length
  seen : ∀ n, done.length < n → n ≤ text.length → (n ≤ matched ↔ t.Seen vis (text.take n))

/-- The walk stops where the next character is not seen. -/
lemma WalkOk.stop (hup : Upward t vis) (hloc : t.view.locate done = some (curr, k))
    (hunseen : ¬ t.Seen vis (done ++ [c])) :
    WalkOk t vis done (done ++ c :: rest) done.length curr := by
  refine ⟨⟨k, take_left.symm ▸ hloc⟩, le_rfl, by rw [length_append]; omega,
    fun n hn hle => ?_⟩
  refine ⟨fun h => absurd h (Nat.not_le.2 hn), fun hseen => absurd ?_ hunseen⟩
  obtain ⟨k, rfl⟩ : ∃ k, n = done.length + (k + 1) := ⟨n - done.length - 1, by omega⟩
  rw [take_length_add_append, take_succ_cons, ← singleton_append, ← append_assoc] at hseen
  exact @TrieView.Readable.of_append _ _ _ (fun i => vis (t.node i) = true) t.view _ hup
    (rest.take k) hseen

/-- What was seen up to `done'` is put in front of the rest of a walk. -/
lemma WalkOk.prepend (h : WalkOk t vis done' text matched curr) (hle : done.length ≤ done'.length)
    (hseen : ∀ n, done.length < n → n ≤ done'.length → t.Seen vis (text.take n)) :
    WalkOk t vis done text matched curr := by
  refine ⟨h.located, hle.trans h.ge, h.le, fun n hn hnle => ?_⟩
  rcases Nat.lt_or_ge done'.length n with hlt | hge
  · exact h.seen n hlt hnle
  · exact ⟨fun _ => hseen n hn hge, fun _ => hge.trans h.ge⟩

/-- **The walk returns the longest prefix that leads to visible nodes.** -/
lemma walk_spec (h : WellFormed pre t) (hup : Upward t vis) : ∀ fuel prev
    (done remaining : Text), t.view.locate done = some (prev, (t.label prev).length) →
    remaining.length < fuel →
    ∃ matched curr, t.walk vis fuel prev remaining done.length = some (matched, curr) ∧
      WalkOk t vis done (done ++ remaining) matched curr := by
  intro fuel
  induction fuel with
  | zero =>
    intro _ _ _ _ hfuel
    exact absurd hfuel (Nat.not_lt_zero _)
  | succ _ ih =>
    intro prev done remaining hloc hfuel
    cases remaining with
    | nil =>
      refine ⟨done.length, prev, rfl, ⟨(t.label prev).length, ?_⟩, le_rfl, ?_, ?_⟩
      · rw [append_nil, take_length, hloc]
      · rw [append_nil]
      intro n hn hle
      rw [append_nil] at hle
      omega
    | cons c rest =>
      -- where one more character leads
      have hnext : t.view.locate (done ++ [c]) = (t.child prev c).map fun j => (j, 1) := by
        rw [locate_snoc, hloc]
        exact read_end (T := t.view) prev c
      rw [walk]
      cases hm : (t.node prev).children.lookup c with
      | none =>
        have hchild : t.child prev c = none := hm
        refine ⟨done.length, prev, rfl, WalkOk.stop hup hloc ?_⟩
        rintro ⟨i, k, hi, -⟩
        rw [hnext, hchild] at hi
        cases hi
      | some m =>
        have hchild : t.child prev c = some m := hm
        by_cases hvis : vis (t.node m) = true
        · have hcount : (t.node m).text.charCount = (t.label m).length :=
            h.child_count prev c m hchild
          generalize hshared : sharedPrefixCount (c :: rest) (t.node m).text.text = shared
          obtain ⟨hsl, hle, htake, hdiff⟩ := sharedPrefixCountChars_spec (c :: rest) (t.label m)
            shared ((sharedPrefixCount_eq _ _).symm.trans hshared)
          have hlocate : ∀ n, 0 < n → n ≤ shared →
              t.view.locate (done ++ (c :: rest).take n) = some (m, n) := by
            intro n hpos hn
            have hchars : (c :: rest).take n = (t.label m).take n := by
              have htt := congrArg (take n) htake
              rwa [take_take, take_take, Nat.min_eq_left hn] at htt
            rw [hchars]
            exact h.trie.locate_child hloc hchild n hpos (hn.trans hle)
          have hseen : ∀ n, done.length < n → n ≤ done.length + shared →
              t.Seen vis ((done ++ c :: rest).take n) := by
            intro n _ _
            obtain ⟨k, rfl⟩ : ∃ k, n = done.length + k := ⟨n - done.length, by omega⟩
            rw [take_length_add_append]
            exact ⟨m, k, hlocate k (by omega) (by omega), hvis⟩
          have hlen : (done ++ (c :: rest).take shared).length = done.length + shared := by
            rw [length_append, length_take, Nat.min_eq_left hsl]
          have hwhole : done ++ c :: rest
              = (done ++ (c :: rest).take shared) ++ (c :: rest).drop shared := by
            rw [append_assoc, take_append_drop]
          have hpos : 0 < shared := by
            have hlabel : (t.label m).head? = some c := h.trie.child_label prev c m hchild
            rw [← hshared, sharedPrefixCount_eq]
            exact sharedPrefixCountChars_pos hlabel
          simp only [hvis, hshared]
          by_cases hfull : shared = (t.node m).text.charCount
          · -- the whole node matches: go on below it
            simp only [← hfull, advanceByChars_eq]
            have hend : t.view.locate (done ++ (c :: rest).take shared)
                = some (m, (t.label m).length) := by
              rw [hlocate shared hpos le_rfl, ← hcount, ← hfull]
            obtain ⟨matched, curr, hwalk, hok⟩ := ih m _ ((c :: rest).drop shared) hend
              (by rw [length_cons] at hfuel; rw [length_drop, length_cons]; omega)
            rw [hlen] at hwalk
            rw [← hwhole] at hok
            exact ⟨matched, curr, hwalk, hok.prepend (by rw [hlen]; omega)
              fun n hn hnle => hseen n hn (hlen ▸ hnle)⟩
          · -- the text leaves the node: no longer prefix is seen
            simp only [hfull]
            refine ⟨done.length + shared, m, rfl, ?_⟩
            have hlocm := hlocate shared hpos le_rfl
            rw [hwhole, ← hlen]
            cases hrest : (c :: rest).drop shared with
            | nil =>
              refine ⟨⟨shared, ?_⟩, by rw [hlen]; omega, by rw [append_nil], fun n hn hnle => ?_⟩
              · rw [append_nil, take_length, hlocm]
              rw [append_nil] at hnle ⊢
              rw [hlen] at hnle
              refine ⟨fun _ => ?_, fun _ => by rw [hlen]; exact hnle⟩
              have hs := hseen n hn hnle
              rwa [hwhole, hrest, append_nil] at hs
            | cons x rest' =>
              have hstop : WalkOk t vis (done ++ (c :: rest).take shared)
                  ((done ++ (c :: rest).take shared) ++ x :: rest')
                  (done ++ (c :: rest).take shared).length m := by
                refine WalkOk.stop hup hlocm ?_
                rintro ⟨i, k, hi, -⟩
                have hlt : shared < (t.label m).length := by omega
                have hy : (t.label m)[shared]? = some (t.label m)[shared] := getElem?_eq_getElem hlt
                have hx : (c :: rest)[shared]? = some x := by
                  rw [← head?_drop, hrest]
                  rfl
                rw [locate_snoc, hlocm] at hi
                change t.view.read (m, shared) x = some (i, k) at hi
                rw [read_label (T := t.view) hy,
                  if_neg fun heq => hdiff x _ hx hy heq.symm] at hi
                cases hi
              refine hstop.prepend (by rw [hlen]; omega) fun n hn hnle => ?_
              have hs := hseen n hn (hlen ▸ hnle)
              rwa [hwhole, hrest] at hs
        · simp only [hvis]
          refine ⟨done.length, prev, rfl, WalkOk.stop hup hloc ?_⟩
          rintro ⟨i, k, hi, hivis⟩
          rw [hnext, hchild] at hi
          cases hi
          exact hvis hivis

lemma WalkOk.reaches (h : WellFormed pre t) (hok : WalkOk t vis done text matched curr) :
    t.Reaches curr := by
  obtain ⟨k, hloc⟩ := hok.located
  exact (h.trie.locate_at _ _ _ hloc).1

/-- A walk from the root. -/
lemma walk_root_spec (h : WellFormed pre t) (hup : Upward t vis) (text) :
    ∃ matched curr, t.walk vis (text.length + 1) rootRef text 0 = some (matched, curr) ∧
      WalkOk t vis [] text matched curr := by
  have hroot : t.view.locate [] = some (rootRef, (t.label rootRef).length) := by
    have hlabel : t.label rootRef = [] := h.trie.root_label
    rw [hlabel]
    rfl
  exact walk_spec h hup (text.length + 1) rootRef [] text hroot (Nat.lt_succ_self _)

end Walk

/-! ## What the tenants own -/

/-- The texts seen through the nodes of a tenant are those it owns. -/
lemma WellFormed.seen_iff_owned (h : WellFormed pre t) (hp : p ≠ []) :
    t.Seen (fun n => n.lists u) p ↔ Owned pre t u p := by
  refine (h.trie.readable_iff hp).trans ⟨?_, ?_⟩
  · rintro ⟨i, k, -, hu, hk⟩
    exact ⟨i, k, hu, hk⟩
  · rintro ⟨i, k, hu, hk⟩
    exact ⟨i, k, h.reaches hu, hu, hk⟩

/-- The texts in the tree are those of some tenant. -/
lemma WellFormed.seen_iff_some (h : WellFormed pre t) (hp : p ≠ []) :
    t.Seen (fun _ => true) p ↔ ∃ u, Owned pre t u p := by
  refine (h.trie.readable_iff hp).trans ⟨?_, ?_⟩
  · rintro ⟨i, k, hreach, -, hpos, hk, hword⟩
    have hne : i ≠ rootRef := by
      rintro rfl
      have hlabel : t.view.label rootRef = [] := h.trie.root_label
      rw [hlabel, length_nil] at hk
      omega
    rcases parent hreach with hroot | ⟨j, c, -, hchild⟩
    · exact absurd hroot hne
    · obtain ⟨u, hu⟩ := h.child_listed j c i hchild
      exact ⟨u, i, k, hu, hpos, hk, hword⟩
  · rintro ⟨u, i, k, hu, hk⟩
    exact ⟨i, k, h.reaches hu, rfl, hk⟩

lemma WellFormed.upward_lists (h : WellFormed pre t) (u) :
    Upward t (fun n => n.lists u) :=
  fun i c j hchild hu => h.child_lists i c j hchild u hu

lemma WellFormed.upward_all (t) : Upward t (fun _ => true) := fun _ _ _ _ _ => rfl

lemma take_ne_nil (hpos : 0 < n) (hle : n ≤ text.length) : text.take n ≠ [] := by
  refine ne_nil_of_length_pos ?_
  rw [length_take, Nat.min_eq_left hle]
  exact hpos

/-- `matched` is the length of the longest prefix of the text with the property. -/
structure Longest (own : Text → Prop) (text : Text) (matched : Nat) : Prop where
  le : matched ≤ text.length
  iff_own : ∀ n, 0 < n → n ≤ text.length → (n ≤ matched ↔ own (text.take n))

lemma Longest.mono (hl : Longest own text n) (hl' : Longest own' text n')
    (hsub : ∀ p, own p → own' p) : n ≤ n' := by
  rcases Nat.eq_zero_or_pos n with _ | hpos
  · omega
  · exact (hl'.iff_own n hpos hl.le).2 (hsub _ ((hl.iff_own n hpos hl.le).1 le_rfl))

lemma prefixMatchTenantState_spec (h : WellFormed pre t) (text u) :
    ∃ matched curr, t.prefixMatchTenantState text u = some (matched, curr) ∧
      t.Reaches curr ∧ Longest (Owned pre t u) text matched := by
  obtain ⟨matched, curr, hwalk, hok⟩ := walk_root_spec h (h.upward_lists u) text
  refine ⟨matched, curr, hwalk, hok.reaches h, hok.le, fun n hpos hle => ?_⟩
  exact (hok.seen n hpos hle).trans (h.seen_iff_owned (take_ne_nil hpos hle))

lemma prefixMatchTenantCharCount_spec (h : WellFormed pre t) (text u) :
    ∃ matched, t.prefixMatchTenantCharCount text u = some matched ∧
      Longest (Owned pre t u) text matched := by
  obtain ⟨matched, _, hstate, -, hlongest⟩ := prefixMatchTenantState_spec h text u
  refine ⟨matched, ?_, hlongest⟩
  unfold prefixMatchTenantCharCount
  rw [hstate]
  rfl

/-- What a tenant owns determines its matches. -/
lemma charCount_congr (h : WellFormed pre t)
    (h' : WellFormed pre' t') (hown : ∀ p, Owned pre' t' u p ↔ Owned pre t u p)
    (text) :
    t'.prefixMatchTenantCharCount text u = t.prefixMatchTenantCharCount text u := by
  obtain ⟨n, hn, hl⟩ := prefixMatchTenantCharCount_spec h text u
  obtain ⟨n', hn', hl'⟩ := prefixMatchTenantCharCount_spec h' text u
  rw [hn, hn', Nat.le_antisymm (hl'.mono hl fun p => (hown p).1) (hl.mono hl' fun p => (hown p).2)]

/-! ## What a match does to the tree -/

/-- The texts and the counts stay as they are. -/
structure Unchanged (pre : NodeRef → Text) (t t' : Tree) : Prop where
  wf : WellFormed pre t'
  size_eq : ∀ u, t'.listedSize u = t.listedSize u
  owned_iff : ∀ u p, Owned pre t' u p ↔ Owned pre t u p
  counts_eq : t'.tenantCharCount = t.tenantCharCount
  lists : (∃ u, (t.node rootRef).lists u = true) →
    ∀ i v, (t'.node i).lists v = true ↔ (t.node i).lists v = true

section Effect

variable {t' t'' : Tree}

lemma Unchanged.trans (h1 : Unchanged pre t t') (h2 : Unchanged pre t' t'') :
    Unchanged pre t t'' where
  wf := h2.wf
  size_eq u := (h2.size_eq u).trans (h1.size_eq u)
  owned_iff u p := (h2.owned_iff u p).trans (h1.owned_iff u p)
  counts_eq := h2.counts_eq.trans h1.counts_eq
  lists hroot i v := by
    obtain ⟨u, hu⟩ := hroot
    rw [h2.lists ⟨u, (h1.lists ⟨u, hu⟩ rootRef u).2 hu⟩, h1.lists ⟨u, hu⟩]

lemma Unchanged.counted (h : Unchanged pre t t') (hcounted : t.Counted) : t'.Counted := by
  intro u
  unfold count
  rw [h.counts_eq, h.size_eq]
  exact hcounted u

lemma Unchanged.known (h : Unchanged pre t t') (u) : t'.Known u ↔ t.Known u := by
  unfold Known
  rw [h.counts_eq]

lemma Alike.unchanged (ha : Alike t t') (h : WellFormed pre t)
    (hcounts : t'.tenantCharCount = t.tenantCharCount) : Unchanged pre t t' :=
  ⟨ha.wellFormed h, ha.listedSize_eq, ha.owned_iff, hcounts, fun _ => ha.lists_iff⟩

/-- Listing a tenant at the root says nothing about its texts. -/
lemma Enlists.unchanged (he : Enlists t t' rootRef u) (h : WellFormed pre t)
    (hnone : ¬ ∃ u, (t.node rootRef).lists u = true)
    (hcounts : t'.tenantCharCount = t.tenantCharCount) : Unchanged pre t t' where
  wf := he.wellFormed h (.inl rfl)
  size_eq v := by
    have hsize : ∀ i, (t'.node i).sizeFor v = (t.node i).sizeFor v := by
      intro i
      unfold sizeFor
      rw [he.text_eq]
      by_cases hi : i = rootRef
      · rw [hi, h.root_count, ite_self, ite_self]
      have hlists : (t'.node i).lists v = (t.node i).lists v := by
        rw [Bool.eq_iff_iff, he.lists_iff]
        simp only [hi, false_and, or_false]
      rw [hlists]
    rw [listedSize_eq_sum, listedSize_eq_sum, ← he.length_eq]
    simp only [hsize]
  owned_iff v p := by
    rw [he.owned_iff]
    refine ⟨?_, .inl⟩
    rintro (hv | ⟨-, _, _, hk, -⟩)
    · exact hv
    have hlabel : t.label rootRef = [] := h.trie.root_label
    rw [hlabel, length_nil] at hk
    omega
  counts_eq := hcounts
  lists hroot := absurd hroot hnone

lemma WellFormed.lt_of_reaches (h : WellFormed pre t) (hi : t.Reaches i) :
    i < t.nodes.length := by
  rcases parent hi with hroot | ⟨j, c, -, hchild⟩
  · exact hroot ▸ h.root_lt
  · exact h.child_lt j c i hchild

/-- A node that lists a tenant reports one of its tenants. -/
lemma lists_matchTenant {n : Node} (horder : ∀ l, (order l).Perm l) (hu : n.lists u = true) :
    n.lists (matchTenant n order) = true := by
  unfold matchTenant
  cases hcached : n.lastTenant.filter n.lists with
  | some => exact (Option.filter_eq_some_iff.1 hcached).2
  | none =>
    have hmem : u ∈ order n.tenantLastAccessTime.keys :=
      (horder _).mem_iff.2 ((Dict.mem_keys_iff _ u).2 (lists_iff.1 hu))
    obtain ⟨v, l, hl⟩ := exists_cons_of_ne_nil (ne_nil_of_mem hmem)
    rw [hl]
    have hv : v ∈ n.tenantLastAccessTime.keys :=
      (horder _).mem_iff.1 (by rw [hl]; exact mem_cons_self)
    exact lists_iff.2 ((Dict.mem_keys_iff _ v).1 hv)

lemma alike_cache (hi : i < t.nodes.length) (cached) :
    Alike t (t.update i fun n => { n with lastTenant := cached }) := by
  refine ⟨⟨(length_update t i _).symm, update_field hi text rfl,
    update_field hi parent rfl, update_field hi children rfl⟩, fun j u => ?_⟩
  rw [update_field hi (·.lists u) rfl]

/-- **A match over all tenants** returns the longest prefix that some tenant owns. -/
lemma prefixMatchWithCounts_spec (h : WellFormed pre t) (epoch order text) :
    ∃ t' result,
      t.prefixMatchWithCounts epoch order text = some (t', epoch + 1, result) ∧ Unchanged pre t t' ∧
      Longest (fun p => ∃ u, Owned pre t u p) text result.matchedCharCount ∧
      ((∃ u, (t.node rootRef).lists u = true) → (t.node rootRef).lists result.tenant = true ∧
        t.prefixMatchTenantCharCount text result.tenant = some result.matchedCharCount) := by
  obtain ⟨matched, curr, hwalk, hok⟩ := walk_root_spec h (WellFormed.upward_all t) text
  unfold prefixMatchWithCounts
  simp only [hwalk, Option.bind_eq_bind, Option.bind_some]
  generalize htenant : matchTenant (t.node curr) (order.tenants curr) = tenant
  have hlongest : Longest (fun p => ∃ u, Owned pre t u p) text matched := ⟨hok.le, fun n hpos hle =>
      (hok.seen n hpos hle).trans (h.seen_iff_some (take_ne_nil hpos hle))⟩
  have hreach := hok.reaches h
  refine ⟨_, _, rfl, ?_, hlongest, fun hroot => ?_⟩
  rotate_left
  · have hlisted : ∃ u, (t.node curr).lists u = true := by
      rcases parent hreach with rfl | ⟨j, c, -, hchild⟩
      · exact hroot
      · exact h.child_listed j c curr hchild
    obtain ⟨u, hu⟩ := hlisted
    have hown : (t.node curr).lists tenant = true :=
      htenant ▸ lists_matchTenant (order.tenants_perm curr) hu
    refine ⟨h.root_lists hreach hown, ?_⟩
    obtain ⟨n, hn, hl⟩ := prefixMatchTenantCharCount_spec h text tenant
    refine hn.trans (congrArg some (Nat.le_antisymm (hl.mono hlongest fun p hp => ⟨_, hp⟩) ?_))
    rcases Nat.eq_zero_or_pos matched with hzero | hpos
    · exact hzero ▸ Nat.zero_le _
    obtain ⟨k, hloc⟩ := hok.located
    refine (hl.iff_own matched hpos hok.le).2 ?_
    exact (h.seen_iff_owned (take_ne_nil hpos hok.le)).1 ⟨curr, k, hloc, hown⟩
  have hlt := h.lt_of_reaches hreach
  generalize ht1 : (t.update curr fun n => { n with lastTenant := some tenant }) = t1
  have hcache : Alike t t1 := ht1 ▸ alike_cache hlt (some tenant)
  have hfirst : Unchanged pre t t1 := hcache.unchanged h (by rw [← ht1]; rfl)
  have htouch : Enlists t1 (t1.update curr (·.touch tenant epoch)) curr tenant :=
    enlists_touch (hcache.length_eq ▸ hlt) tenant epoch
  split
  · refine hfirst.trans ?_
    by_cases hlisted : ∃ u, (t.node curr).lists u = true
    · obtain ⟨u, hu⟩ := hlisted
      have hown : (t.node curr).lists tenant = true :=
        htenant ▸ lists_matchTenant (order.tenants_perm curr) hu
      exact (htouch.alike ((hcache.lists_iff curr tenant).2 hown)).unchanged hfirst.wf rfl
    -- only the root can be without tenants
    have hroot : curr = rootRef := by
      rcases parent hreach with hroot | ⟨j, c, -, hchild⟩
      · exact hroot
      · exact absurd (h.child_listed j c curr hchild) hlisted
    subst hroot
    refine htouch.unchanged hfirst.wf ?_ rfl
    rintro ⟨u, hu⟩
    exact hlisted ⟨u, (hcache.lists_iff _ u).1 hu⟩
  · exact hfirst

/-- A match for one tenant returns the longest prefix that the tenant owns. -/
lemma prefixMatchTenant_spec (h : WellFormed pre t) (epoch text u) :
    ∃ t' epoch' matched,
      t.prefixMatchTenant epoch text u = some (t', epoch', text.take matched) ∧
      Unchanged pre t t' ∧ Longest (Owned pre t u) text matched ∧
      ∀ i v, (t'.node i).lists v = true ↔ (t.node i).lists v = true := by
  obtain ⟨matched, _, hstate, hreach, hlongest⟩ := prefixMatchTenantState_spec h text u
  unfold prefixMatchTenant
  simp only [hstate, Option.bind_eq_bind, Option.bind_some, takeChars_eq]
  split
  · rename_i hlisted
    have halike := (enlists_touch (h.lt_of_reaches hreach) u epoch).alike hlisted
    exact ⟨_, _, matched, rfl, halike.unchanged h rfl, hlongest, halike.lists_iff⟩
  · exact ⟨_, _, matched, rfl, ⟨h, fun _ => rfl, fun _ _ => Iff.rfl, rfl, fun _ _ _ => Iff.rfl⟩,
      hlongest, fun _ _ => Iff.rfl⟩

end Effect

end VllmRouter.PrefixTree.Tree
