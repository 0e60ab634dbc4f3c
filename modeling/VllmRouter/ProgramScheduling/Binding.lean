import VllmRouter.Lib.Select
import VllmRouter.ProgramScheduling.Runtime

/-!
# Initial Program binding (`program_scheduling/binding/mod.rs`)

A Program generation is bound to a home target once, by the configured policy.

- The ring hash and the prefix-affinity tree live outside the scheduler and are
  parameters: `fbiHash` hashes a key of the ring, `matchedChars` is what the
  tree answers at the moment of the call.
- `bind_binds`: whatever the policy, a binding names one of the candidates, and
  there is one whenever there is a candidate.
-/

namespace VllmRouter.ProgramScheduling

open List Option

/-- Initial binding algorithm selected for Program generations. -/
inductive ProgramBindingStrategy where
  | consistentHash
  | programRoundRobin
  | leastProgramCount
  | reasoningTokenBalance
  | cacheAware
deriving DecidableEq, Repr

/-- Program-level load snapshot used only for initial binding. -/
structure ProgramBindingCandidate where
  targetId : TargetId
  accountedPrograms : Nat
  accountedTokens : Rat
  capacityTokens : Option Nat
  kvPressure : Rat
  immediatelyAdmissible : Bool
deriving DecidableEq, Repr

/-- A consistent-hash ring, in the order of its keys. -/
abbrev Ring := List (Nat × TargetId)

/-- The state of the selected policy. -/
inductive ProgramBindingPolicy where
  | consistentHash (virtualNodes : Nat) (rings : Dict ModelPool (List TargetId × Ring))
  | roundRobin (nextByModel : Dict ModelPool Nat)
  | leastProgramCount
  | reasoningTokenBalance
  | cacheAware

/-- The hash of ring keys and the answers of the affinity tree. -/
structure BindingOracle where
  fbiHash : String → Nat
  matchedChars : ModelPool → String → TargetId → Nat

/-! ## Selection -/

/-- Insert a ring key; a key that is taken changes its owner. -/
def ringInsert (ring : Ring) (key : Nat) (target : TargetId) : Ring :=
  match ring with
  | [] => [(key, target)]
  | (k, t) :: rest =>
    if key < k then (key, target) :: (k, t) :: rest
    else if key = k then (key, target) :: rest
    else (k, t) :: ringInsert rest key target

def buildRing (fbiHash : String → Nat) (virtualNodes : Nat) (targets : List TargetId) : Ring :=
  targets.foldl (fun ring target =>
    (range virtualNodes).foldl (fun ring virtualNode =>
      ringInsert ring (fbiHash (target ++ ":" ++ toString virtualNode)) target) ring) []

/-- The cached rings with the one of `modelPool` built for `targets`. -/
def ringsFor (fbiHash : String → Nat) (virtualNodes : Nat)
    (rings : Dict ModelPool (List TargetId × Ring)) (modelPool : ModelPool)
    (targets : List TargetId) : Dict ModelPool (List TargetId × Ring) :=
  let rebuilt := rings.insert modelPool (targets, buildRing fbiHash virtualNodes targets)
  match rings.lookup modelPool with
  | some (current, _) => if current = targets then rings else rebuilt
  | none => rebuilt

/-- The first key at or after `hash`, else the first key. -/
def ringOwner (ring : Ring) (hash : Nat) : Option TargetId :=
  ((ring.find? fun entry => decide (hash ≤ entry.1)).or ring.head?).map Prod.snd

/-- Fewest accounted Programs, then the smallest target. -/
def leastProgramCmp (a b : ProgramBindingCandidate) : Ordering :=
  (compare a.accountedPrograms b.accountedPrograms).then (compare a.targetId b.targetId)

/-- Remaining capacity of a candidate. -/
def ProgramBindingCandidate.remaining (c : ProgramBindingCandidate) : Rat :=
  ((c.capacityTokens.getD 0 : Nat) : Rat) - c.accountedTokens

def tokenBalanceCmp (a b : ProgramBindingCandidate) : Ordering :=
  (compare a.remaining b.remaining).then (compare b.targetId a.targetId)

/-- Prefix affinity of a candidate for the request text. -/
def affinity (oracle : BindingOracle) (pool : ModelPool) (text : String)
    (c : ProgramBindingCandidate) : Rat :=
  if text.length = 0 then 0 else (oracle.matchedChars pool text c.targetId : Rat) / text.length

def ProgramBindingCandidate.headroom (c : ProgramBindingCandidate) : Rat :=
  1 - min (max c.kvPressure 0) 1

def cacheAwareCmp (oracle : BindingOracle) (pool : ModelPool) (text : String)
    (a b : ProgramBindingCandidate) : Ordering :=
  let score (c : ProgramBindingCandidate) := (1 + affinity oracle pool text c) * c.headroom
  (((compare (score a) (score b)).then (compare a.headroom b.headroom)).then
    (compare (affinity oracle pool text a) (affinity oracle pool text b))).then
      (compare b.targetId a.targetId)

namespace ProgramBindingPolicy

def new (strategy : ProgramBindingStrategy) (hashVirtualNodes : Nat) : ProgramBindingPolicy :=
  match strategy with
  | .consistentHash => .consistentHash hashVirtualNodes ∅
  | .programRoundRobin => .roundRobin ∅
  | .leastProgramCount => .leastProgramCount
  | .reasoningTokenBalance => .reasoningTokenBalance
  | .cacheAware => .cacheAware

/-- Select the home backend among candidates sorted by target. -/
def select (policy : ProgramBindingPolicy) (oracle : BindingOracle)
    (identity : ProgramIdentity) (candidates : List ProgramBindingCandidate)
    (routingText : Option String) : ProgramBindingPolicy × Option TargetId :=
  match policy with
  | .consistentHash virtualNodes rings =>
    let rings := ringsFor oracle.fbiHash virtualNodes rings identity.modelPool
      (candidates.map ProgramBindingCandidate.targetId)
    let ring := ((rings.lookup identity.modelPool).map Prod.snd).getD []
    (.consistentHash virtualNodes rings,
      ringOwner ring (oracle.fbiHash identity.placementHashKey))
  | .roundRobin nextByModel =>
    if candidates = [] then (policy, none)
    else
      let next := (nextByModel.lookup identity.modelPool).getD 0
      (.roundRobin (nextByModel.insert identity.modelPool (next + 1)),
        candidates[next % candidates.length]?.map ProgramBindingCandidate.targetId)
  | .leastProgramCount =>
    (policy, (minBy? leastProgramCmp candidates).map ProgramBindingCandidate.targetId)
  | .reasoningTokenBalance =>
    (policy, (maxBy? tokenBalanceCmp candidates).map ProgramBindingCandidate.targetId)
  | .cacheAware =>
    let eligible := candidates.filter ProgramBindingCandidate.immediatelyAdmissible
    let candidates := if eligible = [] then candidates else eligible
    (policy, (maxBy? (cacheAwareCmp oracle identity.modelPool (routingText.getD ""))
      candidates).map ProgramBindingCandidate.targetId)

end ProgramBindingPolicy

/-! ## The binding table -/

/-- Stable Program binding table plus the selected policy. -/
structure ProgramBindings where
  policy : ProgramBindingPolicy
  bindings : Dict RuntimeKey TargetId

namespace ProgramBindings

def new (strategy : ProgramBindingStrategy) (hashVirtualNodes : Nat) : ProgramBindings :=
  ⟨ProgramBindingPolicy.new strategy hashVirtualNodes, ∅⟩

variable (b : ProgramBindings) (oracle : BindingOracle) (identity : ProgramIdentity)
  (candidates : List ProgramBindingCandidate) (routingText : Option String)

/-- Establish a binding among the candidates, in the order of their targets. -/
def bindFresh :
    ProgramBindings × Option TargetId :=
  match b.policy.select oracle identity
      (sortBy (fun a b => compare a.targetId b.targetId) candidates) routingText with
  | (policy, none) => ({ b with policy := policy }, none)
  | (policy, some target) => (⟨policy, b.bindings.insert identity.key target⟩, some target)

/-- Return an existing binding, or establish one for a new generation. -/
def bind :
    ProgramBindings × Option TargetId :=
  match b.bindings.lookup identity.key with
  | some target =>
    if target ∈ candidates.map ProgramBindingCandidate.targetId then (b, some target)
    else b.bindFresh oracle identity candidates routingText
  | none => b.bindFresh oracle identity candidates routingText

/-- Release the binding of a Program. -/
def releaseProgram (b : ProgramBindings) (program : ProgramRef) : ProgramBindings :=
  { b with bindings := b.bindings.erase program.key }

/-- Invalidate bindings whose backend disappeared from discovery. -/
def removeTarget (b : ProgramBindings) (target : TargetId) : ProgramBindings :=
  { b with bindings := b.bindings.retain fun _ bound => decide (bound ≠ target) }

end ProgramBindings

/-! ## Bindings name candidates -/

variable {entry : Nat × TargetId} {ring : Ring} {target : TargetId} {fbiHash : String → Nat}
  {virtualNodes : Nat} {b : ProgramBindings}

lemma mem_ringInsert (h : entry ∈ ringInsert ring key target) :
    entry.2 = target ∨ entry ∈ ring := by
  induction ring with
  | nil =>
    rw [ringInsert, mem_singleton] at h
    exact .inl (by rw [h])
  | cons _ _ ih =>
    unfold ringInsert at h
    split at h
    · rcases mem_cons.1 h with rfl | h
      · exact .inl rfl
      · exact .inr h
    split at h
    · rcases mem_cons.1 h with rfl | h
      · exact .inl rfl
      · exact .inr (mem_cons_of_mem _ h)
    rcases mem_cons.1 h with rfl | h
    · exact .inr mem_cons_self
    · exact (ih h).imp_right (mem_cons_of_mem _)

lemma ringInsert_ne_nil (ring key target) :
    ringInsert ring key target ≠ [] := by
  cases ring with
  | nil => exact cons_ne_nil _ _
  | cons =>
    unfold ringInsert
    split
    · exact cons_ne_nil _ _
    split
    · exact cons_ne_nil _ _
    · exact cons_ne_nil _ _

variable {targets : List TargetId} {policy : ProgramBindingPolicy} {identity : ProgramIdentity}

/-- A ring names only the targets it was built for. -/
lemma mem_buildRing (h : entry ∈ buildRing fbiHash virtualNodes targets) : entry.2 ∈ targets := by
  let Names : Ring → Prop := fun ring => ∀ entry ∈ ring, entry.2 ∈ targets
  refine foldlRecOn (motive := Names) targets _ (fun _ h => absurd h not_mem_nil) ?_ entry h
  intro ring hring target htarget
  refine foldlRecOn (motive := Names) (range virtualNodes) _ hring ?_
  intro ring hring _ _ entry h
  rcases mem_ringInsert h with h | h
  · exact h ▸ htarget
  · exact hring entry h

/-- A ring with virtual nodes of some target is not empty. -/
lemma buildRing_ne_nil (hnodes : 0 < virtualNodes) (htargets : targets ≠ []) :
    buildRing fbiHash virtualNodes targets ≠ [] := by
  have hinsert : ∀ (nodes : List Nat) target ring, ring ≠ [] →
      nodes.foldl (fun ring virtualNode =>
        ringInsert ring (fbiHash (target ++ ":" ++ toString virtualNode)) target) ring ≠ [] :=
    fun nodes _ _ h => foldlRecOn (motive := (· ≠ [])) nodes _ h
      fun _ _ _ _ => ringInsert_ne_nil _ _ _
  obtain ⟨target, rest, rfl⟩ := exists_cons_of_ne_nil htargets
  obtain ⟨n, rfl⟩ := Nat.exists_eq_add_of_lt hnodes
  rw [buildRing, Nat.zero_add, range_succ_eq_map]
  refine foldlRecOn (motive := (· ≠ [])) rest _ ?_ fun ring h target _ => hinsert _ target ring h
  exact hinsert ((range n).map .succ) target _ (ringInsert_ne_nil [] _ _)

lemma ringOwner_mem {hash : Nat} (h : ringOwner ring hash = some target) :
    ∃ entry ∈ ring, entry.2 = target := by
  obtain ⟨entry, hentry, rfl⟩ := map_eq_some_iff.1 h
  refine ⟨entry, ?_, rfl⟩
  cases hfind : ring.find? fun entry => decide (hash ≤ entry.1) with
  | none =>
    rw [hfind] at hentry
    exact mem_of_mem_head? hentry
  | some =>
    rw [hfind] at hentry
    cases hentry
    exact mem_of_find?_eq_some hfind

lemma ringOwner_isSome (hash) (h : ring ≠ []) : (ringOwner ring hash).isSome = true := by
  unfold ringOwner
  obtain ⟨_, _, rfl⟩ := exists_cons_of_ne_nil h
  simp

namespace ProgramBindingPolicy

/-- Every cached ring is the one its target list determines. -/
def Built (fbiHash : String → Nat) : ProgramBindingPolicy → Prop
  | .consistentHash virtualNodes rings => ∀ pool targets ring,
      rings.lookup pool = some (targets, ring) → ring = buildRing fbiHash virtualNodes targets
  | _ => True

/-- The policy selects a target whenever there is one. -/
def CanSelect : ProgramBindingPolicy → Prop
  | .consistentHash virtualNodes _ => 0 < virtualNodes
  | _ => True

/-- The ring that a selection uses is built for its targets. -/
lemma ringsFor_built (pool targets)
    (hbuilt : Built fbiHash (.consistentHash virtualNodes rings)) :
    (ringsFor fbiHash virtualNodes rings pool targets).lookup pool
        = some (targets, buildRing fbiHash virtualNodes targets) ∧
      Built fbiHash (.consistentHash virtualNodes
        (ringsFor fbiHash virtualNodes rings pool targets)) := by
  have hrebuilt : (rings.insert pool (targets, buildRing fbiHash virtualNodes targets)).lookup pool
        = some (targets, buildRing fbiHash virtualNodes targets) ∧
      Built fbiHash (.consistentHash virtualNodes
        (rings.insert pool (targets, buildRing fbiHash virtualNodes targets))) := by
    refine ⟨by rw [Dict.lookup_insert_eq, if_pos rfl], fun pool' targets' ring h => ?_⟩
    rw [Dict.lookup_insert_eq] at h
    split at h
    · cases h
      rfl
    · exact hbuilt pool' targets' ring h
  unfold ringsFor
  cases hcache : rings.lookup pool with
  | none => exact hrebuilt
  | some cached =>
    obtain ⟨current, ring⟩ := cached
    by_cases hcurrent : current = targets
    · simp only [if_pos hcurrent]
      rw [hcache, hbuilt pool current ring hcache, hcurrent]
      exact ⟨rfl, hbuilt⟩
    · simp only [if_neg hcurrent]
      exact hrebuilt

/-- What a selection keeps and which targets it can return. -/
structure Selects (policy : ProgramBindingPolicy) (fbiHash : String → Nat)
    (candidates : List ProgramBindingCandidate)
    (result : ProgramBindingPolicy × Option TargetId) : Prop where
  built : result.1.Built fbiHash
  can : policy.CanSelect → result.1.CanSelect
  mem : ∀ t, result.2 = some t → t ∈ candidates.map ProgramBindingCandidate.targetId
  some : policy.CanSelect → candidates ≠ [] → result.2.isSome = true

/-- A policy without state that selects one of the candidates. -/
lemma selects_choice {candidates : List ProgramBindingCandidate}
    {choice : Option ProgramBindingCandidate} (hbuilt : policy.Built fbiHash)
    (hmem : ∀ c, choice = some c → c ∈ candidates)
    (hsome : candidates ≠ [] → choice.isSome = true) :
    policy.Selects fbiHash candidates (policy, choice.map ProgramBindingCandidate.targetId) where
  built := hbuilt
  can := id
  mem := by
    intro t ht
    obtain ⟨c, hc, rfl⟩ := map_eq_some_iff.1 ht
    exact mem_map_of_mem (hmem c hc)
  some := by
    intro _ hne
    rw [isSome_map]
    exact hsome hne

lemma select_selects {oracle : BindingOracle} (identity candidates routingText)
    (hbuilt : policy.Built oracle.fbiHash) : policy.Selects oracle.fbiHash candidates
      (policy.select oracle identity candidates routingText) := by
  have hminSome : ∀ cmp (l : List ProgramBindingCandidate), l ≠ [] →
      (minBy? cmp l).isSome = true := by
    intro _ _ hl
    obtain ⟨_, _, rfl⟩ := exists_cons_of_ne_nil hl
    rfl
  have hmaxSome : ∀ cmp (l : List ProgramBindingCandidate), l ≠ [] →
      (maxBy? cmp l).isSome = true := by
    intro _ _ hl
    obtain ⟨_, _, rfl⟩ := exists_cons_of_ne_nil hl
    rfl
  cases policy with
  | consistentHash =>
    obtain ⟨hring, hbuilt'⟩ := ringsFor_built identity.modelPool
      (candidates.map ProgramBindingCandidate.targetId) hbuilt
    unfold select
    simp only [hring]
    refine ⟨hbuilt', id, fun t ht => ?_, fun hcan hne => ?_⟩
    · obtain ⟨_, hentry, rfl⟩ := ringOwner_mem ht
      exact mem_buildRing hentry
    · exact ringOwner_isSome _ (buildRing_ne_nil hcan (by simpa using hne))
  | roundRobin nextByModel =>
    unfold select
    by_cases hnil : candidates = []
    · simp only [if_pos hnil]
      exact ⟨trivial, id, nofun, fun _ hne => absurd hnil hne⟩
    simp only [if_neg hnil]
    have hpos : 0 < candidates.length := length_pos_iff.2 hnil
    have hlt := Nat.mod_lt ((nextByModel.lookup identity.modelPool).getD 0) hpos
    refine ⟨trivial, fun _ => trivial, fun t ht => ?_, fun _ _ => ?_⟩
    · obtain ⟨c, hc, rfl⟩ := map_eq_some_iff.1 ht
      exact mem_map_of_mem (mem_of_getElem? hc)
    · rw [getElem?_eq_getElem hlt]
      rfl
  | leastProgramCount => exact selects_choice trivial (fun c hc => minBy?_mem hc) (hminSome _ _)
  | reasoningTokenBalance => exact selects_choice trivial (fun c hc => maxBy?_mem hc) (hmaxSome _ _)
  | cacheAware =>
    unfold select
    by_cases heligible : candidates.filter ProgramBindingCandidate.immediatelyAdmissible = []
    · simp only [if_pos heligible]
      exact selects_choice trivial (fun c hc => maxBy?_mem hc) (hmaxSome _ _)
    simp only [if_neg heligible]
    exact selects_choice trivial (fun c hc => (mem_filter.1 (maxBy?_mem hc)).1)
      (fun _ => hmaxSome _ _ heligible)

end ProgramBindingPolicy

namespace ProgramBindings

variable (oracle : BindingOracle) (candidates : List ProgramBindingCandidate)
  (routingText : Option String)

lemma lookup_bindFresh_other (hkey : key ≠ identity.key) :
    (b.bindFresh oracle identity candidates routingText).1.bindings.lookup key
      = b.bindings.lookup key := by
  unfold bindFresh
  split
  · rfl
  · exact (Dict.lookup_insert_eq _ _ _ _).trans (if_neg hkey)

/-- Binding a Program changes no other entry of the table. -/
lemma lookup_bind_other (hkey : key ≠ identity.key) :
    (b.bind oracle identity candidates routingText).1.bindings.lookup key
      = b.bindings.lookup key := by
  unfold bind
  split
  · split
    · rfl
    · exact lookup_bindFresh_other oracle candidates routingText hkey
  · exact lookup_bindFresh_other oracle candidates routingText hkey

/-- Binding keeps the policy well formed, names a candidate, and changes the
entry of the bound Program only. -/
structure Binds (b : ProgramBindings) (fbiHash : String → Nat) (key : RuntimeKey)
    (live : List TargetId) (result : ProgramBindings × Option TargetId) : Prop where
  built : result.1.policy.Built fbiHash
  can : b.policy.CanSelect → result.1.policy.CanSelect
  mem : ∀ t, result.2 = some t → t ∈ live
  some : b.policy.CanSelect → live ≠ [] → result.2.isSome = true
  other : ∀ key', key' ≠ key → result.1.bindings.lookup key' = b.bindings.lookup key'

lemma bindFresh_binds {oracle : BindingOracle} (identity candidates routingText)
    (hbuilt : b.policy.Built oracle.fbiHash) :
    b.Binds oracle.fbiHash identity.key (candidates.map ProgramBindingCandidate.targetId)
      (b.bindFresh oracle identity candidates routingText) := by
  have hsorted := ProgramBindingPolicy.select_selects identity
    (sortBy (fun a b => compare a.targetId b.targetId) candidates) routingText hbuilt
  have hne : candidates.map ProgramBindingCandidate.targetId ≠ [] →
      sortBy (fun a b => compare a.targetId b.targetId)
        candidates ≠ [] := by
    intro h hnil
    refine h (map_eq_nil_iff.2 (eq_nil_iff_forall_not_mem.2 fun c hc => ?_))
    have hc' : c ∈ sortBy (fun a b => compare a.targetId b.targetId) candidates := mem_sortBy.2 hc
    rw [hnil] at hc'
    cases hc'
  have hother : ∀ key', key' ≠ identity.key →
      (b.bindFresh oracle identity candidates routingText).1.bindings.lookup key'
        = b.bindings.lookup key' :=
    fun _ => lookup_bindFresh_other oracle candidates routingText
  unfold bindFresh at hother ⊢
  generalize hresult : b.policy.select oracle identity
    (sortBy (fun a b => compare a.targetId b.targetId) candidates) routingText = result
    at hsorted hother ⊢
  obtain ⟨_, selected⟩ := result
  cases selected with
  | none =>
    refine ⟨hsorted.built, hsorted.can, nofun, fun hcan hlive => ?_, hother⟩
    exact absurd (hsorted.some hcan (hne hlive)) (by simp)
  | some target =>
    refine ⟨hsorted.built, hsorted.can, fun t ht => ?_, fun _ _ => rfl, hother⟩
    -- a selection among the sorted candidates is one among the candidates
    cases ht
    obtain ⟨c, hc, rfl⟩ := mem_map.1 (hsorted.mem target rfl)
    exact mem_map_of_mem (mem_sortBy.1 hc)

lemma bind_binds (oracle identity candidates routingText)
    (hbuilt : b.policy.Built oracle.fbiHash) :
    b.Binds oracle.fbiHash identity.key (candidates.map ProgramBindingCandidate.targetId)
      (b.bind oracle identity candidates routingText) := by
  have hfresh := bindFresh_binds identity candidates routingText hbuilt
  unfold bind
  cases hbound : b.bindings.lookup identity.key with
  | none => exact hfresh
  | some target =>
    by_cases hlive : target ∈ candidates.map ProgramBindingCandidate.targetId
    · simp only [if_pos hlive]
      refine ⟨hbuilt, id, fun t ht => ?_, fun _ _ => rfl, fun _ _ => rfl⟩
      cases ht
      exact hlive
    · simp only [if_neg hlive]
      exact hfresh

end ProgramBindings

end VllmRouter.ProgramScheduling
