import VllmRouter.Core.WorkerRegistry

/-!
# The lookups of the worker registry agree

The abstract registry is a `Roster`: the object registered last under each URL.
`Agrees` says that every lookup of the registry shows each URL exactly as the roster
has it: once, as that object, among the workers of its current kind, and nowhere
else.

- `Indexed`: what one index keeps, whatever it is keyed by and whatever it lists.
- `Tracks`: the invariant of the histories that register a URL only while it is free.
- `Tracks.register_taken`: a registration of a URL that is taken breaks the agreement
  at once. The id is pushed a second time, and the lists of the old kind keep it.
-/

namespace VllmRouter.Core

open WorkerRegistry List Dict Option Worker

/-! ## The abstract registry -/

/-- The object registered last under each URL, with the id it was given. -/
structure Roster where
  entry : String → Option (WorkerId × Worker)
  issued : WorkerId

namespace Roster

def empty : Roster := ⟨fun _ => none, 0⟩

def current (roster : Roster) (url : String) : Option Worker := (roster.entry url).map Prod.snd

/-- A URL gets an id when it is registered and keeps it until it is removed. -/
def apply (roster : Roster) : RegistryOp → Roster
  | .register worker =>
    match roster.entry worker.url with
    | some (id, _) =>
      { roster with entry := Function.update roster.entry worker.url (some (id, worker)) }
    | none =>
      ⟨Function.update roster.entry worker.url (some (roster.issued, worker)), roster.issued + 1⟩
  | .remove id =>
    { roster with entry := fun url => (roster.entry url).filter fun e => decide (e.1 ≠ id) }
  | .removeByUrl url => { roster with entry := Function.update roster.entry url none }

def run (ops : List RegistryOp) : Roster := ops.foldl apply empty

lemma apply_register_free {roster : Roster} {w : Worker} (hfree : roster.entry w.url = none) :
    (roster.apply (.register w)).issued = roster.issued + 1 ∧
      ∀ url, (roster.apply (.register w)).entry url
        = if url = w.url then some (roster.issued, w) else roster.entry url := by
  simp only [apply, hfree]
  exact ⟨trivial, fun url => Function.update_apply _ _ _ _⟩

lemma entry_register_taken {roster : Roster} {w old : Worker} {id : WorkerId}
    (htaken : roster.entry w.url = some (id, old)) :
    (roster.apply (.register w)).entry w.url = some (id, w) := by
  simp only [apply, htaken, Function.update_self]

end Roster

/-- The lookup result `view` shows, of every URL, the current object if it is of the
kind `p`, and nothing else. -/
def Shows (roster : Roster) (view : List Worker) (p : Worker → Bool) : Prop :=
  ∀ url, view.filter (fun w => decide (w.url = url)) = ((roster.current url).filter p).toList

/-- Every lookup shows the roster. -/
structure Agrees (roster : Roster) (reg : WorkerRegistry) : Prop where
  all : Shows roster reg.getAll fun _ => true
  model : ∀ m, Shows roster (reg.getByModel m) fun w => decide (w.modelId = m)
  modelFast : ∀ m, Shows roster (reg.getByModelFast m) fun w => decide (w.modelId = m)
  type : ∀ t, Shows roster (reg.getByType t) fun w => decide (w.workerType = t)
  connection : ∀ c, Shows roster (reg.getByConnection c) fun w => decide (w.connectionMode = c)

/-! ## One index -/

section Indexed

variable {K V : Type} [DecidableEq K]

/-- The index lists `label id w` under `kind w` for every registered worker, once. -/
def Indexed (workers : Dict WorkerId Worker) (kind : Worker → K) (label : WorkerId → Worker → V)
    (index : Dict K (List V)) : Prop :=
  ∀ k, ((index.lookup k).getD []).Perm
    ((workers.entries.filter fun e => decide (kind e.2 = k)).map fun e => label e.1 e.2)

variable {workers : Dict WorkerId Worker} {kind : Worker → K} {label : WorkerId → Worker → V}
  {index : Dict K (List V)} {id : WorkerId} {w : Worker}

lemma indexed_empty : Indexed (∅ : Dict WorkerId Worker) kind label (∅ : Dict K (List V)) :=
  fun _ => .refl _

/-- A worker under a new id. -/
lemma Indexed.push (h : Indexed workers kind label index) (hid : workers.lookup id = none) :
    Indexed (workers.insert id w) kind label (WorkerRegistry.push index (kind w) (label id w)) := by
  intro k
  unfold WorkerRegistry.push
  rw [lookup_upsert, AList.entries_insert_of_notMem (AList.lookup_eq_none.1 hid), filter_cons]
  by_cases hk : k = kind w
  · subst hk
    simp only
    exact (perm_append_singleton _ _).trans ((h _).cons _)
  · rw [if_neg hk, if_neg (by simpa using Ne.symm hk)]
    exact h k

/-- A worker that is removed: `p` keeps the labels of the others. -/
lemma Indexed.retain (h : Indexed workers kind label index) (hid : workers.lookup id = some w)
    {p : V → Bool}
    (hp : ∀ id' w', workers.lookup id' = some w' → (p (label id' w') = true ↔ id' ≠ id)) :
    Indexed (workers.erase id) kind label (WorkerRegistry.retain index (kind w) p) := by
  have hothers : ∀ e ∈ (workers.erase id).entries, p (label e.1 e.2) = true := by
    rintro ⟨id', w'⟩ he
    have hlookup := (mem_entries_iff _ _ _).1 he
    rw [lookup_erase_eq] at hlookup
    split at hlookup
    · cases hlookup
    · rename_i hne
      exact (hp id' w' hlookup).2 hne
  intro k
  have hlist := (h k).trans (((entries_perm_erase hid).filter _).map _)
  rw [filter_cons] at hlist
  unfold WorkerRegistry.retain
  rw [lookup_modify]
  by_cases hk : k = kind w
  · subst hk
    have hgone : ¬ p (label id w) = true := fun h => (hp id w hid).1 h rfl
    have hkept : ((((workers.erase id).entries.filter fun e => decide (kind e.2 = kind w)).map
        fun e => label e.1 e.2).filter p) = _ :=
      filter_eq_self.2 fun v hv => by
        obtain ⟨e, he, rfl⟩ := mem_map.1 hv
        exact hothers e (mem_filter.1 he).1
    have hfiltered := hlist.filter p
    rw [if_pos (decide_eq_true rfl), map_cons, filter_cons_of_neg hgone, hkept] at hfiltered
    rw [if_pos rfl]
    cases hindex : index.lookup (kind w) with
    | none
    | some =>
      rw [hindex] at hfiltered
      exact hfiltered
  · rw [if_neg hk]
    rw [if_neg (by simpa using Ne.symm hk)] at hlist
    exact hlist

end Indexed

/-! ## The invariant -/

/-- The registry stores what the roster says, and each index lists every worker once,
under its kind. -/
structure Tracks (roster : Roster) (reg : WorkerRegistry) : Prop where
  entry : ∀ url id w, roster.entry url = some (id, w) ↔
    reg.workers.lookup id = some w ∧ w.url = url
  urlToId : ∀ url, reg.urlToId.lookup url = (roster.entry url).map Prod.fst
  issued : reg.nextId = roster.issued
  fresh : ∀ id w, reg.workers.lookup id = some w → id < roster.issued
  model : Indexed reg.workers modelId (fun id _ => id) reg.modelWorkers
  modelIndex : Indexed reg.workers modelId (fun _ w => w) reg.modelIndex
  type : Indexed reg.workers workerType (fun id _ => id) reg.typeWorkers
  connection : Indexed reg.workers connectionMode (fun id _ => id) reg.connectionWorkers

variable {roster : Roster} {reg : WorkerRegistry}

lemma tracks_new : Tracks Roster.empty new where
  entry _ _ _ := ⟨nofun, nofun⟩
  urlToId _ := rfl
  issued := rfl
  fresh := nofun
  model := indexed_empty
  modelIndex := indexed_empty
  type := indexed_empty
  connection := indexed_empty

/-- A URL that is free gets a new id, which no index lists yet. -/
lemma Tracks.register (h : Tracks roster reg) {w : Worker} (hfree : roster.entry w.url = none) :
    Tracks (roster.apply (.register w)) (reg.register w).1 := by
  obtain ⟨hissued, hentry⟩ := Roster.apply_register_free hfree
  have hurl : reg.urlToId.lookup w.url = none := by rw [h.urlToId, hfree]; rfl
  have hid : reg.idFor w.url = roster.issued := by
    unfold WorkerRegistry.idFor
    rw [hurl]
    exact h.issued
  have hnone : reg.workers.lookup roster.issued = none := by
    cases hlookup : reg.workers.lookup roster.issued with
    | none => rfl
    | some => exact absurd (h.fresh _ _ hlookup) (Nat.lt_irrefl _)
  have hurls : ∀ id' w', reg.workers.lookup id' = some w' → w'.url ≠ w.url := by
    intro _ _ hlookup heq
    cases hfree.symm.trans ((h.entry _ _ _).2 ⟨hlookup, heq⟩)
  unfold WorkerRegistry.register
  simp only [hid, hurl]
  refine ⟨fun url id' w' => ?_, fun url => ?_, ?_, fun id' w' hlookup => ?_, h.model.push hnone,
    h.modelIndex.push hnone, h.type.push hnone, h.connection.push hnone⟩
  · rw [lookup_insert_eq, hentry]
    by_cases hid' : id' = roster.issued
    · split
      · grind
      · grind [h.entry url roster.issued w']
    split
    · grind
    · exact h.entry url id' w'
  · rw [lookup_insert_eq, hentry]
    split
    · rfl
    · exact h.urlToId url
  · rw [hissued, ← h.issued]
    rfl
  rw [lookup_insert_eq] at hlookup
  rw [hissued]
  split at hlookup
  · rename_i heq
    exact heq ▸ Nat.lt_succ_self _
  · exact Nat.lt_succ_of_lt (h.fresh id' w' hlookup)

/-- The registry without the worker `w`, registered under `id`; its URL may have been
removed before. -/
lemma Tracks.remove (h : Tracks roster reg)
    {id : WorkerId} {w : Worker} (hw : reg.workers.lookup id = some w)
    {urls : Dict String WorkerId}
    (hurls : ∀ url, url ≠ w.url → urls.lookup url = reg.urlToId.lookup url) {roster' : Roster}
    (hissued : roster'.issued = roster.issued)
    (hentry : ∀ url, roster'.entry url = if url = w.url then none else roster.entry url) :
    Tracks roster' (({ reg with urlToId := urls } : WorkerRegistry).remove id).1 := by
  unfold WorkerRegistry.remove
  simp only [hw]
  have hregistered := (h.entry w.url id w).2 ⟨hw, rfl⟩
  have hids : ∀ id' w', reg.workers.lookup id' = some w' →
      (decide (id' ≠ id) = true ↔ id' ≠ id) := fun _ _ _ => decide_eq_true_iff
  -- an id determines its URL and the other way round
  have hsame : ∀ id' w', reg.workers.lookup id' = some w' → (w'.url = w.url ↔ id' = id) := by
    intro id' w' hlookup
    constructor
    · intro heq
      cases hregistered.symm.trans ((h.entry w.url id' w').2 ⟨hlookup, heq⟩)
      rfl
    · rintro rfl
      rw [some.inj (hlookup.symm.trans hw)]
  have hobjects : ∀ id' w', reg.workers.lookup id' = some w' →
      (decide (w'.url ≠ w.url) = true ↔ id' ≠ id) := fun id' w' hlookup => by
    rw [decide_eq_true_iff, Ne, hsame id' w' hlookup]
  refine ⟨fun url id' w' => ?_, fun url => ?_, h.issued.trans hissued.symm,
    fun id' w' hlookup => ?_, h.model.retain hw hids, h.modelIndex.retain hw hobjects,
    h.type.retain hw hids, h.connection.retain hw hids⟩
  · grind [h.entry url id' w']
  · rw [lookup_erase_eq, hentry]
    split
    · rfl
    · rename_i hu
      exact (hurls url hu).trans (h.urlToId url)
  rw [lookup_erase_eq] at hlookup
  rw [hissued]
  split at hlookup
  · cases hlookup
  · exact h.fresh id' w' hlookup

/-- A call that does not register a taken URL keeps the invariant. -/
lemma Tracks.apply (h : Tracks roster reg)
    (op) (hfree : ∀ w, op = .register w → roster.current w.url = none) :
    Tracks (roster.apply op) (reg.apply op) := by
  cases op with
  | register w => exact h.register (map_eq_none_iff.1 (hfree w rfl))
  | remove id =>
    have hother : ∀ url, (∀ w, reg.workers.lookup id = some w → w.url ≠ url) →
        (roster.apply (.remove id)).entry url = roster.entry url := by
      intro url hurl
      cases he : roster.entry url with
      | none => simp [Roster.apply, he]
      | some e =>
        have hne : e.1 ≠ id := by
          rintro rfl
          have hstored := (h.entry _ _ _).1 he
          exact hurl _ hstored.1 hstored.2
        simp [Roster.apply, he, hne]
    cases hw : reg.workers.lookup id with
    | none =>
      -- no URL has this id
      have hentry : (roster.apply (.remove id)).entry = roster.entry :=
        funext fun url => hother url (by simp [hw])
      show Tracks ⟨(roster.apply (.remove id)).entry, roster.issued⟩ (reg.remove id).1
      rw [hentry]
      unfold WorkerRegistry.remove
      rw [hw]
      exact h
    | some w =>
      refine h.remove hw (fun _ _ => rfl) rfl fun url => ?_
      by_cases hu : url = w.url
      · simp [Roster.apply, hu, (h.entry w.url id w).2 ⟨hw, rfl⟩]
      rw [if_neg hu]
      exact hother url (by simpa [hw] using Ne.symm hu)
  | removeByUrl url =>
    show Tracks _ (reg.removeByUrl url).1
    unfold WorkerRegistry.removeByUrl
    cases hid : reg.urlToId.lookup url with
    | none =>
      have hnone : roster.entry url = none := by
        rw [h.urlToId] at hid
        exact map_eq_none_iff.1 hid
      have hroster : roster.apply (.removeByUrl url) = roster := by
        show (⟨Function.update roster.entry url none, roster.issued⟩ : Roster) = roster
        rw [← hnone, Function.update_eq_self]
      rw [hroster]
      exact h
    | some =>
      rw [h.urlToId] at hid
      obtain ⟨⟨_, _⟩, hentry, rfl⟩ := map_eq_some_iff.1 hid
      obtain ⟨hw, rfl⟩ := (h.entry _ _ _).1 hentry
      exact h.remove hw (fun url hu => (lookup_erase_eq _ _ _).trans (if_neg hu)) rfl
        fun url => Function.update_apply _ _ _ _

/-! ## What the lookups show -/

/-- A list without duplicates that contains at most one element. -/
lemma eq_toList_of_mem_iff {α : Type} {l : List α} {o : Option α} (hnodup : l.Nodup)
    (hmem : ∀ x, x ∈ l ↔ o = some x) : l = o.toList := by
  cases o with
  | none => exact eq_nil_iff_forall_not_mem.2 fun x hx => by cases (hmem x).1 hx
  | some a =>
    have hperm : l.Perm [a] := (perm_ext_iff_of_nodup hnodup (nodup_singleton a)).2
      fun x => by rw [hmem, mem_singleton, some.injEq, eq_comm]
    exact perm_singleton.1 hperm

/-- No two ids have the same object. -/
lemma Tracks.id_unique (h : Tracks roster reg) (id id' w) (hid : reg.workers.lookup id = some w)
    (hid' : reg.workers.lookup id' = some w) : id = id' := by
  cases ((h.entry _ _ _).2 ⟨hid, rfl⟩).symm.trans ((h.entry _ _ _).2 ⟨hid', rfl⟩)
  rfl

/-- A lookup that has the registered workers of kind `p`, each once. -/
lemma Tracks.shows (h : Tracks roster reg) {view : List Worker} {p : Worker → Bool}
    (hview : view.Perm (reg.workers.values.filter p)) : Shows roster view p := by
  intro url
  have hall : (reg.workers.values.filter fun w => decide (w.url = url))
      = (roster.current url).toList := by
    refine eq_toList_of_mem_iff ((nodup_values h.id_unique).filter _) fun w => ?_
    rw [mem_filter, mem_values_iff, decide_eq_true_iff]
    unfold Roster.current
    constructor
    · rintro ⟨⟨id, hw⟩, rfl⟩
      rw [(h.entry _ _ _).2 ⟨hw, rfl⟩]
      rfl
    intro hcurrent
    obtain ⟨⟨id, w'⟩, hentry, rfl⟩ := map_eq_some_iff.1 hcurrent
    obtain ⟨hw, hurl⟩ := (h.entry _ _ _).1 hentry
    exact ⟨⟨id, hw⟩, hurl⟩
  have hperm := hview.filter fun w => decide (w.url = url)
  rw [filter_comm, hall, ← toList_filter] at hperm
  cases hshown : (roster.current url).filter p with
  | none =>
    rw [hshown] at hperm
    exact perm_nil.1 hperm
  | some =>
    rw [hshown] at hperm
    exact perm_singleton.1 hperm

/-- The workers of a kind, through the entries. -/
lemma values_filter (workers : Dict WorkerId Worker) (p : Worker → Bool) :
    workers.values.filter p = (workers.entries.filter fun e => p e.2).map Sigma.snd :=
  filter_map

/-- A lookup through an index of ids. -/
lemma Tracks.shows_listed {K : Type} [DecidableEq K] (h : Tracks roster reg) {kind : Worker → K}
    {index : Dict K (List WorkerId)} (hindex : Indexed reg.workers kind (fun id _ => id) index)
    (k : K) : Shows roster (reg.listed index k) fun w => decide (kind w = k) := by
  refine h.shows (((hindex k).filterMap reg.get).trans ?_)
  rw [values_filter, filterMap_map, ← filterMap_eq_map]
  refine .of_eq (filterMap_congr fun e he => ?_)
  exact (mem_entries_iff _ _ _).1 (mem_filter.1 he).1

lemma Tracks.agrees (h : Tracks roster reg) : Agrees roster reg where
  all := h.shows (.of_eq (filter_eq_self.2 fun _ _ => rfl).symm)
  model := h.shows_listed h.model
  modelFast m := h.shows ((h.modelIndex m).trans (.of_eq
    (values_filter reg.workers fun w => decide (w.modelId = m)).symm))
  type := h.shows_listed h.type
  connection := h.shows_listed h.connection

/-- Registering a taken URL pushes its id again: the lookup by type shows the new
object twice, or still under the old type. -/
lemma Tracks.register_taken (h : Tracks roster reg)
    {w old : Worker} (htaken : roster.current w.url = some old) :
    ¬ Agrees (roster.apply (.register w)) (reg.register w).1 := by
  obtain ⟨⟨id, old'⟩, hentry, rfl⟩ := map_eq_some_iff.1 htaken
  have hold : reg.workers.lookup id = some old' := ((h.entry _ _ _).1 hentry).1
  have hid : reg.idFor w.url = id := by
    unfold idFor
    rw [h.urlToId, hentry]
    rfl
  have hcurrent : (roster.apply (.register w)).current w.url = some w := by
    unfold Roster.current
    rw [Roster.entry_register_taken hentry]
    rfl
  have hget : (reg.register w).1.get id = some w := by
    show (reg.workers.insert (reg.idFor w.url) w).lookup id = some w
    rw [hid, lookup_insert_eq, if_pos rfl]
  have hlisted : id ∈ (reg.typeWorkers.lookup old'.workerType).getD [] :=
    (h.type _).mem_iff.2 (mem_map.2 ⟨⟨id, old'⟩,
      mem_filter.2 ⟨(mem_entries_iff _ _ _).2 hold, decide_eq_true rfl⟩, rfl⟩)
  intro hagrees
  by_cases htype : old'.workerType = w.workerType
  · have hshown := hagrees.type w.workerType w.url
    have hlist : ((reg.register w).1.typeWorkers.lookup w.workerType).getD []
        = (reg.typeWorkers.lookup w.workerType).getD [] ++ [id] := by
      show ((push reg.typeWorkers w.workerType (reg.idFor w.url)).lookup _).getD [] = _
      rw [push, lookup_upsert, if_pos rfl, hid]
      rfl
    -- `id` is in the old list already
    rw [htype] at hlisted
    have hmem : w ∈ (((reg.typeWorkers.lookup w.workerType).getD []).filterMap
        (reg.register w).1.get).filter fun w' => decide (w'.url = w.url) :=
      mem_filter.2 ⟨mem_filterMap.2 ⟨id, hlisted, hget⟩, decide_eq_true rfl⟩
    rw [getByType, listed, hlist, filterMap_append, filter_append, hcurrent] at hshown
    have hlength := congrArg length hshown
    have hpos := length_pos_of_mem hmem
    have hexpected : ((some w).filter fun w' => decide (w'.workerType = w.workerType)).toList.length
        = 1 := by simp
    have hnew : (([id].filterMap (reg.register w).1.get).filter
        fun w' => decide (w'.url = w.url)).length = 1 := by simp [hget]
    rw [length_append] at hlength
    omega
  · have hshown := hagrees.type old'.workerType w.url
    have hlist : (reg.register w).1.typeWorkers.lookup old'.workerType
        = reg.typeWorkers.lookup old'.workerType := by
      show (push reg.typeWorkers w.workerType (reg.idFor w.url)).lookup _ = _
      rw [push, lookup_upsert, if_neg htype]
    have hmem : w ∈ ((reg.register w).1.getByType old'.workerType).filter
        fun w' => decide (w'.url = w.url) := by
      refine mem_filter.2 ⟨mem_filterMap.2 ⟨id, ?_, hget⟩, decide_eq_true rfl⟩
      rw [hlist]
      exact hlisted
    rw [hshown] at hmem
    simp [Ne.symm htype] at hmem

/-! ## Histories -/

/-- No call of the history registers a URL that is registered at that moment. -/
def NeverReregisters (ops : List RegistryOp) : Prop :=
  ∀ pre w post, ops = pre ++ .register w :: post → (Roster.run pre).current w.url = none

lemma NeverReregisters.of_append {ops : List RegistryOp} {op : RegistryOp}
    (h : NeverReregisters (ops ++ [op])) : NeverReregisters ops := by
  intro pre w post hops
  exact h pre w (post ++ [op]) (by rw [hops]; simp)

lemma run_snoc (ops op) :
    run (ops ++ [op]) = (run ops).apply op ∧ Roster.run (ops ++ [op]) = (Roster.run ops).apply op :=
  ⟨foldl_concat _ _ _ _, foldl_concat _ _ _ _⟩

lemma run_tracks {ops : List RegistryOp} (h : NeverReregisters ops) :
    Tracks (Roster.run ops) (run ops) := by
  induction ops using reverseRecOn with
  | nil => exact tracks_new
  | append_singleton ops op ih =>
    rw [(run_snoc ops op).1, (run_snoc ops op).2]
    refine (ih h.of_append).apply op fun w hw => ?_
    exact h ops w [] (by rw [hw])

/-- **The lookups agree exactly along the histories that never register a URL again
while it is registered.** -/
theorem run_agrees_iff (ops : List RegistryOp) :
    (∀ pre, pre <+: ops → Agrees (Roster.run pre) (run pre)) ↔ NeverReregisters ops := by
  constructor
  · intro hagrees
    induction ops using reverseRecOn with
    | nil =>
      intro _ _ _ hops
      simp at hops
    | append_singleton ops op ih =>
      have hops := ih fun pre hpre => hagrees pre (hpre.trans (prefix_append ops [op]))
      have hlast := hagrees _ (prefix_refl _)
      rw [(run_snoc ops op).1, (run_snoc ops op).2] at hlast
      intro pre w post heq
      rcases eq_nil_or_concat post with rfl | ⟨post, op', rfl⟩
      · -- the last call: had the URL been taken, the agreement would be broken now
        obtain ⟨rfl, hop⟩ := append_inj' heq rfl
        obtain rfl : op = .register w := by simpa using hop
        cases hcurrent : (Roster.run ops).current w.url with
        | none => rfl
        | some => exact absurd hlast ((run_tracks hops).register_taken hcurrent)
      · have hsplit : ops ++ [op] = (pre ++ .register w :: post) ++ [op'] := by rw [heq]; simp
        exact hops pre w post (append_inj' hsplit rfl).1
  · intro h pre hpre
    obtain ⟨post, rfl⟩ := hpre
    have hpre : NeverReregisters pre := fun a w b hab => h a w (b ++ post) (by rw [hab]; simp)
    exact (run_tracks hpre).agrees

/-! ## A worker that comes back under another model -/

def workerA : Worker := ⟨0, "http://w:8000", "llama", .regular, .http⟩

def workerB : Worker := ⟨1, "http://w:8000", "qwen", .regular, .http⟩

/-- The old model's lists keep the worker, one with the new object and one with the
old object, and the list of its type shows it twice. Removing it leaves the old object
behind. -/
theorem reregistered_worker_lingers : let reg := run [.register workerA, .register workerB]
    let removed := run [.register workerA, .register workerB, .removeByUrl "http://w:8000"]
    ¬ Agrees (Roster.run [.register workerA, .register workerB]) reg ∧
      reg.getByModel "llama" = [workerB] ∧ reg.getByModelFast "llama" = [workerA] ∧
      reg.getByType .regular = [workerB, workerB] ∧
      removed.getAll = [] ∧ removed.getByModelFast "llama" = [workerA] := by
  have htracks : Tracks (Roster.run [.register workerA]) (run [.register workerA]) :=
    tracks_new.register rfl
  have hbroken : ¬ Agrees ((Roster.run [.register workerA]).apply (.register workerB))
      ((run [.register workerA]).register workerB).1 :=
    htracks.register_taken (show _ = some workerA by decide +kernel)
  refine ⟨hbroken, ?_, ?_, ?_, ?_, ?_⟩
  · decide +kernel
  · decide +kernel
  · decide +kernel
  · decide +kernel
  · decide +kernel

end VllmRouter.Core
