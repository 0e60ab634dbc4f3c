import VllmRouter.Lib.Dict
import VllmRouter.Lib.Machine
import VllmRouter.Lib.Select

/-!
# The in-memory response store (`data_connector/response_memory_store.rs`)

The store keeps the responses by id and, beside them, an index of ids by user.
Both maps are behind one lock, so each call is one step. A response is listed
under its user when it is stored and unlisted when it is deleted; storing an id
again overwrites the response but leaves the listing of its former owner.

`Indexed` is the agreement of the two maps. Every step keeps it except a store
over a response that has an owner, and such a store always breaks it: the users
are isolated along a run exactly when no step of it is one (`isolated_iff`).

Of a response the store reads the id, the owner and the creation time; the
texts are carried along. Tool calls, metadata and model are left out.
-/

namespace VllmRouter.DataConnector

open List Option Dict

structure ResponseId where
  val : String
deriving DecidableEq, Repr

structure StoredResponse where
  id : ResponseId
  previousResponseId : Option ResponseId
  input : String
  output : String
  createdAt : Int
  user : Option String
deriving DecidableEq, Repr

/-- Both maps of the store, under one lock. -/
structure InnerStore where
  responses : Dict ResponseId StoredResponse
  userIndex : Dict String (List ResponseId)

structure MemoryStoreStats where
  responseCount : Nat
  userCount : Nat
deriving DecidableEq, Repr

variable {s : InnerStore} {r : StoredResponse}

namespace InnerStore

def new : InnerStore := ⟨∅, ∅⟩

def stats (s : InnerStore) : MemoryStoreStats :=
  ⟨s.responses.keys.length, s.userIndex.keys.length⟩

/-- The response as it is stored: an empty id is replaced by the generated one. -/
def withId (response : StoredResponse) (generated : ResponseId) : StoredResponse :=
  if response.id.val.isEmpty then { response with id := generated } else response

def storeResponse (s : InnerStore) (response : StoredResponse) (generated : ResponseId) :
    InnerStore × ResponseId :=
  let response := withId response generated
  let userIndex := match response.user with
    | some user => s.userIndex.upsert user [] (· ++ [response.id])
    | none => s.userIndex
  (⟨s.responses.insert response.id response, userIndex⟩, response.id)

def getResponse (s : InnerStore) (id : ResponseId) : Option StoredResponse :=
  s.responses.lookup id

/-- Take `id` out of the list of `user`, and the list out of the index when it
becomes empty. -/
def unlist (index : Dict String (List ResponseId)) (user : String) (id : ResponseId) :
    Dict String (List ResponseId) :=
  match index.lookup user with
  | some ids =>
    if ids.filter (· ≠ id) = [] then index.erase user
    else index.insert user (ids.filter (· ≠ id))
  | none => index

def deleteResponse (s : InnerStore) (id : ResponseId) : InnerStore :=
  match s.responses.lookup id with
  | some response =>
    { responses := s.responses.erase id
      userIndex := match response.user with
        | some user => unlist s.userIndex user id
        | none => s.userIndex }
  | none => s

/-- `sort_by_key(Reverse(created_at))`. -/
def newestFirst (a b : Int × ResponseId) : Ordering := compare b.1 a.1

def listUserResponses (s : InnerStore) (user : String) (limit : Option Nat) :
    List StoredResponse :=
  match s.userIndex.lookup user with
  | some ids =>
    let responsesWithTime :=
      ids.filterMap fun id => (s.responses.lookup id).map fun r => (r.createdAt, id)
    let sorted := sortBy newestFirst responsesWithTime
    (sorted.take (limit.getD sorted.length)).filterMap fun e => s.responses.lookup e.2
  | none => []

def deleteUserResponses (s : InnerStore) (user : String) : InnerStore × Nat :=
  match s.userIndex.lookup user with
  | some ids => (⟨ids.foldl (fun m id => m.erase id) s.responses, s.userIndex.erase user⟩,
    ids.length)
  | none => (s, 0)

/-! ## Histories -/

inductive StoreOp where
  /-- `generated` is the id the store would generate -/
  | store (response : StoredResponse) (generated : ResponseId)
  | delete (id : ResponseId)
  | deleteUser (user : String)
deriving DecidableEq, Repr

def step (s : InnerStore) : StoreOp → InnerStore
  | .store response generated => (s.storeResponse response generated).1
  | .delete id => s.deleteResponse id
  | .deleteUser user => (s.deleteUserResponses user).1

def run (ops : List StoreOp) : InnerStore := ops.foldl step new

/-- The operation does not store over a response that has an owner. -/
def storesUnowned (s : InnerStore) : StoreOp → Bool
  | .store response generated =>
    ((s.responses.lookup (withId response generated).id).bind StoredResponse.user).isNone
  | _ => true

/-- What the users see of the store is theirs, and all that is theirs. -/
structure Isolated (s : InnerStore) : Prop where
  /-- the listing of `u` are the stored responses of `u`, each once -/
  listed : ∀ u, (s.listUserResponses u none).Perm (s.responses.values.filter (·.user = some u))
  newest : ∀ u, (s.listUserResponses u none).Pairwise fun a b => b.createdAt ≤ a.createdAt
  deleted : ∀ u id, (s.deleteUserResponses u).1.responses.lookup id
    = (s.responses.lookup id).filter (·.user ≠ some u)
  deletedCount : ∀ u,
    (s.deleteUserResponses u).2 = (s.responses.values.filter (·.user = some u)).length
  userCount : s.stats.userCount = (s.responses.values.filterMap (·.user)).dedup.length

/-! ## The agreement of the two maps -/

/-- The ids listed under a user. -/
def idsOf (s : InnerStore) (u : String) : List ResponseId := (s.userIndex.lookup u).getD []

structure Indexed (s : InnerStore) : Prop where
  keyed : ∀ {id r}, s.responses.lookup id = some r → r.id = id
  mem_idsOf : ∀ {u id}, id ∈ s.idsOf u ↔ ∃ r, s.responses.lookup id = some r ∧ r.user = some u
  nodup : ∀ u, (s.idsOf u).Nodup
  nonempty : ∀ u, s.userIndex.lookup u ≠ some []

lemma indexed_new : Indexed new where
  keyed := nofun
  mem_idsOf := by
    intro u id
    constructor
    · intro h
      cases h
    · rintro ⟨r, h, -⟩
      cases h
  nodup := fun _ => nodup_nil
  nonempty := nofun

/-! ### What the operations do -/

lemma lookup_storeResponse (s : InnerStore) (response generated id) :
    (s.storeResponse response generated).1.responses.lookup id =
      if id = (withId response generated).id then some (withId response generated)
      else s.responses.lookup id :=
  lookup_insert_eq _ _ _ _

lemma idsOf_storeResponse (s : InnerStore) (response generated u) :
    (s.storeResponse response generated).1.idsOf u =
      if (withId response generated).user = some u
      then s.idsOf u ++ [(withId response generated).id] else s.idsOf u := by
  grind [idsOf, storeResponse]

/-- Unlisting filters the list of the user, and an empty list is not kept. -/
lemma lookup_unlist (index user id u) : (unlist index user id).lookup u =
      if u = user then ((index.lookup u).map (filter (· ≠ id))).filter (· ≠ [])
      else index.lookup u := by
  grind [unlist]

lemma lookup_deleteResponse (s : InnerStore) (id id') :
    (s.deleteResponse id).responses.lookup id'
      = if id' = id then none else s.responses.lookup id' := by
  grind [deleteResponse]

/-- A deletion unlists the id from its owner; nobody else lists it. -/
lemma Indexed.idsOf_deleteResponse (h : Indexed s) (id u) :
    (s.deleteResponse id).idsOf u = (s.idsOf u).filter (· ≠ id) := by
  have hgetD : ∀ ids : Option (List ResponseId), (ids.filter (· ≠ [])).getD [] = ids.getD [] := by
    rintro (_ | _ | _) <;> rfl
  by_cases howner : ∃ r, s.responses.lookup id = some r ∧ r.user = some u
  · obtain ⟨r, hr, hu⟩ := howner
    simp only [deleteResponse, hr, hu, idsOf, lookup_unlist, if_true, hgetD]
    cases s.userIndex.lookup u <;> rfl
  have hfree : id ∉ s.idsOf u := fun hid => howner (h.mem_idsOf.1 hid)
  have hsame : (s.deleteResponse id).idsOf u = s.idsOf u := by
    grind [deleteResponse, idsOf, lookup_unlist]
  rw [hsame, filter_eq_self.2]
  grind

lemma idsOf_deleteUserResponses (s : InnerStore) (user u) :
    (s.deleteUserResponses user).1.idsOf u = if u = user then [] else s.idsOf u := by
  grind [deleteUserResponses, idsOf]

/-- The ids listed under a user are those of the stored responses of the user. -/
lemma Indexed.lookup_deleteUserResponses (h : Indexed s) (user id) :
    (s.deleteUserResponses user).1.responses.lookup id
      = (s.responses.lookup id).filter (·.user ≠ some user) := by
  have hmem := @h.mem_idsOf user id
  cases hr : s.responses.lookup id with
  | none => grind [InnerStore.deleteUserResponses]
  | some => grind [InnerStore.deleteUserResponses, idsOf]

lemma length_deleteUserResponses (s : InnerStore) (user) :
    (s.deleteUserResponses user).2 = (s.idsOf user).length := by
  grind [deleteUserResponses, idsOf]

/-! ### The steps that keep it -/

section

variable (h : Indexed s)
include h

/-- Whatever is overwritten, a response is stored under its own id. -/
lemma Indexed.keyed_storeResponse (response generated) {id : ResponseId}
    (hr : (s.storeResponse response generated).1.responses.lookup id = some r) : r.id = id := by
  have hkeyed := @h.keyed id
  grind [lookup_storeResponse]

lemma Indexed.storeResponse (response generated)
    (hunowned : s.storesUnowned (.store response generated) = true) :
    Indexed (s.storeResponse response generated).1 := by
  -- the id is listed nowhere before the store
  have hfree : ∀ u, (withId response generated).id ∉ s.idsOf u := by
    intro u hmem
    obtain ⟨r, hr, howner⟩ := h.mem_idsOf.1 hmem
    simp [storesUnowned, hr, howner] at hunowned
  have hmem := @h.mem_idsOf
  have hnodup := h.nodup
  have hnonempty := h.nonempty
  refine ⟨h.keyed_storeResponse response generated, ?_, ?_, ?_⟩
  · grind [lookup_storeResponse, idsOf_storeResponse]
  · grind [idsOf_storeResponse]
  intro u
  cases huser : (withId response generated).user with
  | none => simpa [InnerStore.storeResponse, huser] using hnonempty u
  | some =>
    simp only [InnerStore.storeResponse, huser, lookup_upsert]
    split
    · simp
    · exact hnonempty u

lemma Indexed.deleteResponse (id) :
    Indexed (s.deleteResponse id) := by
  have hkeyed := @h.keyed
  have hmem := @h.mem_idsOf
  have hnonempty := h.nonempty
  have hids := h.idsOf_deleteResponse id
  refine ⟨?_, ?_, fun u => hids u ▸ (h.nodup u).filter _, ?_⟩
  · grind [lookup_deleteResponse]
  · grind [lookup_deleteResponse]
  · grind [InnerStore.deleteResponse, lookup_unlist, filter_eq_some_iff]

lemma Indexed.deleteUserResponses (user) :
    Indexed (s.deleteUserResponses user).1 := by
  have hkeyed := @h.keyed
  have hmem := @h.mem_idsOf
  have hnodup := h.nodup
  have hnonempty := h.nonempty
  have hlookup : ∀ id r, (s.deleteUserResponses user).1.responses.lookup id = some r ↔
      s.responses.lookup id = some r ∧ r.user ≠ some user := by
    simp [h.lookup_deleteUserResponses]
  constructor
  · grind
  · grind [idsOf_deleteUserResponses]
  · grind [idsOf_deleteUserResponses]
  · grind [InnerStore.deleteUserResponses]

lemma Indexed.step (op) (hop : s.storesUnowned op = true) :
    Indexed (s.step op) := by
  cases op with
  | store response generated => exact h.storeResponse response generated hop
  | delete id => exact h.deleteResponse id
  | deleteUser user => exact h.deleteUserResponses user

end

/-! ## What an indexed store shows its users -/

lemma Indexed.mem_values (h : Indexed s) :
    r ∈ s.responses.values ↔ s.responses.lookup r.id = some r := by
  rw [mem_values_iff]
  constructor
  · rintro ⟨id, hr⟩
    rw [h.keyed hr]
    exact hr
  · intro hr
    exact ⟨r.id, hr⟩

/-- Responses stored under their own ids are pairwise different. -/
lemma nodup_values (hkeyed : ∀ {id r}, s.responses.lookup id = some r → r.id = id) :
    s.responses.values.Nodup := by
  refine Dict.nodup_values fun id id' r hr hr' => ?_
  rw [← hkeyed hr, hkeyed hr']

/-- The listing without the sort. -/
lemma perm_listUserResponses (s : InnerStore) (u) :
    (s.listUserResponses u none).Perm ((s.idsOf u).filterMap fun id => s.responses.lookup id) := by
  unfold listUserResponses idsOf
  cases s.userIndex.lookup u with
  | none => exact List.Perm.refl _
  | some ids =>
    simp only [getD_none, take_length]
    refine ((perm_sortBy _ _).filterMap _).trans ?_
    rw [filterMap_filterMap]
    refine List.Perm.of_eq (congrArg (filterMap · ids) (funext fun id => ?_))
    cases hlookup : s.responses.lookup id with
    | none => rfl
    | some => simp [hlookup]

lemma mem_listUserResponses :
    r ∈ s.listUserResponses u none ↔ ∃ id ∈ s.idsOf u, s.responses.lookup id = some r := by
  rw [(perm_listUserResponses s u).mem_iff, mem_filterMap]

lemma Indexed.perm_idsOf (h : Indexed s) (u) :
    ((s.idsOf u).filterMap fun id => s.responses.lookup id).Perm
      (s.responses.values.filter (·.user = some u)) := by
  have hnodup : ((s.idsOf u).filterMap fun id => s.responses.lookup id).Nodup := by
    refine (h.nodup u).filterMap fun id id' r hr hr' => ?_
    rw [← h.keyed hr, h.keyed hr']
  refine (perm_ext_iff_of_nodup hnodup ((nodup_values h.keyed).filter _)).2 fun r => ?_
  rw [mem_filterMap, mem_filter, h.mem_values, decide_eq_true_eq]
  constructor
  · rintro ⟨id, hmem, hr⟩
    obtain ⟨r', hr', howner⟩ := h.mem_idsOf.1 hmem
    rw [hr] at hr'
    cases hr'
    rw [h.keyed hr]
    exact ⟨hr, howner⟩
  · rintro ⟨hr, howner⟩
    exact ⟨r.id, h.mem_idsOf.2 ⟨r, hr, howner⟩, hr⟩

instance : Std.TransCmp newestFirst where
  eq_swap := by
    intro a b
    show compare b.1 a.1 = (compare a.1 b.1).swap
    exact Std.OrientedCmp.eq_swap
  isLE_trans := by
    intro a b c (hab : (compare b.1 a.1).isLE = true) (hbc : (compare c.1 b.1).isLE = true)
    show (compare c.1 a.1).isLE = true
    exact Std.TransCmp.isLE_trans hbc hab

/-- Any listing is sorted, whatever the index holds. -/
lemma pairwise_listUserResponses (s : InnerStore) (u) :
    (s.listUserResponses u none).Pairwise fun a b => b.createdAt ≤ a.createdAt := by
  unfold listUserResponses
  cases s.userIndex.lookup u with
  | none => exact List.Pairwise.nil
  | some ids =>
    simp only [getD_none, take_length]
    rw [pairwise_filterMap]
    refine (pairwise_sortBy newestFirst _).imp_of_mem fun {a b} ha hb hle r hr r' hr' => ?_
    -- the time an id was sorted by is that of its response
    have htime : ∀ e ∈ sortBy newestFirst (ids.filterMap fun id =>
        (s.responses.lookup id).map fun r => (r.createdAt, id)),
        ∀ r, s.responses.lookup e.2 = some r → e.1 = r.createdAt := by
      intro e he r hr
      rw [mem_sortBy, mem_filterMap] at he
      obtain ⟨id, -, he⟩ := he
      rw [map_eq_some_iff] at he
      obtain ⟨r', hr', rfl⟩ := he
      rw [hr'] at hr
      cases hr
      rfl
    rw [← htime a ha r hr, ← htime b hb r' hr']
    exact compare_le_iff_le.1 hle

lemma Indexed.mem_keys (h : Indexed s) :
    u ∈ s.userIndex.keys ↔ u ∈ s.responses.values.filterMap (·.user) := by
  rw [mem_keys_iff, mem_filterMap]
  constructor
  · rintro ⟨ids, hids⟩
    match ids with
    | [] => exact absurd hids (h.nonempty u)
    | id :: rest =>
      have hmem : id ∈ s.idsOf u := by simp [idsOf, hids]
      obtain ⟨r, hr, howner⟩ := h.mem_idsOf.1 hmem
      exact ⟨r, (mem_values_iff _ _).2 ⟨id, hr⟩, howner⟩
  rintro ⟨r, hr, howner⟩
  have hmem : r.id ∈ s.idsOf u := h.mem_idsOf.2 ⟨r, h.mem_values.1 hr, howner⟩
  unfold idsOf at hmem
  cases hids : s.userIndex.lookup u with
  | none =>
    rw [hids] at hmem
    cases hmem
  | some ids => exact ⟨ids, rfl⟩

lemma Indexed.isolated (h : Indexed s) : Isolated s where
  listed := fun u => (perm_listUserResponses s u).trans (h.perm_idsOf u)
  newest := pairwise_listUserResponses s
  deleted := h.lookup_deleteUserResponses
  deletedCount := by
    intro u
    rw [length_deleteUserResponses, ← (h.perm_idsOf u).length_eq, length_filterMap_eq_countP,
      countP_eq_length.2]
    intro id hmem
    obtain ⟨r, hr, -⟩ := h.mem_idsOf.1 hmem
    rw [hr]
    rfl
  userCount := by
    refine List.Perm.length_eq ((perm_ext_iff_of_nodup s.userIndex.keys_nodup
      (nodup_dedup _)).2 fun u => ?_)
    rw [mem_dedup]
    exact h.mem_keys

/-! ## The steps that break it -/

/-- Storing over an owned response is seen by its owner: a response of somebody
else in the listing, or the new one twice. -/
lemma Indexed.not_isolated_of_overwrite (h : Indexed s) (hop : s.storesUnowned op = false) :
    ¬ Isolated (s.step op) := by
  cases op with
  | delete id
  | deleteUser => cases hop
  | store response generated =>
    intro hisolated
    have hisolated : Isolated (s.storeResponse response generated).1 := hisolated
    obtain ⟨owner, howner⟩ : ∃ u,
        (s.responses.lookup (withId response generated).id).bind StoredResponse.user = some u :=
      isSome_iff_exists.1 (by simpa [storesUnowned] using hop)
    obtain ⟨old, hold, hold_owner⟩ := bind_eq_some_iff.1 howner
    have hlisted : (withId response generated).id ∈ s.idsOf owner :=
      h.mem_idsOf.2 ⟨old, hold, hold_owner⟩
    have hnew : (s.storeResponse response generated).1.responses.lookup
        (withId response generated).id = some (withId response generated) := by
      rw [lookup_storeResponse, if_pos rfl]
    by_cases hsame : (withId response generated).user = some owner
    · -- the id is listed twice, so the response is, but it is stored once
      have hvalues := nodup_values (h.keyed_storeResponse response generated)
      have hnodup := ((perm_listUserResponses _ owner).symm.trans
        (hisolated.listed owner)).nodup_iff.2 (hvalues.filter _)
      rw [idsOf_storeResponse, if_pos hsame, filterMap_append] at hnodup
      refine disjoint_of_nodup_append hnodup (a := withId response generated) ?_ ?_
      · exact mem_filterMap.2 ⟨_, hlisted, hnew⟩
      · exact mem_filterMap.2 ⟨_, mem_singleton_self _, hnew⟩
    have hmem : withId response generated ∈
        (s.storeResponse response generated).1.listUserResponses owner none := by
      refine mem_listUserResponses.2 ⟨_, ?_, hnew⟩
      rw [idsOf_storeResponse, if_neg hsame]
      exact hlisted
    rw [(hisolated.listed owner).mem_iff, mem_filter, decide_eq_true_eq] at hmem
    exact hsame hmem.2

/-- The users are isolated in every state of a history exactly if no step of it
stores over a response that has an owner. -/
theorem isolated_iff (ops : List StoreOp) :
    (∀ ops', ops' <+: ops → Isolated (run ops')) ↔ guardedRun step storesUnowned new ops = true :=
  forall_prefix_iff_guarded (fun _ op hop h => h.step op hop) (fun _ h => h.isolated)
    (fun _ _ hop h => h.not_isolated_of_overwrite hop) ops new indexed_new

/-- One id stored for two users in turn: the first user lists the response of the
second, deletes it, and is counted although they own nothing. -/
theorem overwritten_response_listed_for_former_owner :
    let first : StoredResponse := ⟨⟨"r"⟩, none, "hello", "hi", 1, some "alice"⟩
    let second : StoredResponse := ⟨⟨"r"⟩, none, "secret", "noted", 2, some "bob"⟩
    let s := run [.store first ⟨"g"⟩, .store second ⟨"g"⟩]
    s.listUserResponses "alice" none = [second] ∧
      (s.deleteUserResponses "alice").1.getResponse ⟨"r"⟩ = none ∧
      (s.deleteUserResponses "alice").2 = 1 ∧ s.stats.userCount = 2 := by
  decide +kernel

end InnerStore

end VllmRouter.DataConnector
