import VllmRouter.Lib.Machine
import VllmRouter.Lib.Sums
import VllmRouter.Policies.SlotManager

/-!
# The live load is exact

A counter of a target is a sum over the slots of the target, plus what the calls in
progress have still to subtract: a call that won a swap owes the manager the update
that belongs to it. Each swap moves an amount from the slots to the calls, each
manager update takes it out of the calls and the counter (`exec_balanced`), and
pruning changes no counter because an absent target counts as zero. Tokens and
requests are two meters of one account.

With no call in progress nothing is owed. A subtraction never clips, since the amount
owed is part of the counter, and a target is only dropped when no slot is left in its
sums.
-/

namespace VllmRouter.Policies

open LoadSystem List InMemorySlotManager
open KvIndex (RoutableTarget)

/-! ## Counters -/

namespace InMemorySlotManager

variable (m : InMemorySlotManager) (t t' : RoutableTarget)

/-- The counters of a target; an absent target counts nothing. -/
def counters : SlotCounters := (m.slots.lookup t).getD SlotCounters.default

lemma sample_eq :
    m.sample t = ⟨(m.counters t).activePrefillTokens, (m.counters t).activeRequests⟩ := by
  unfold sample counters
  cases m.slots.lookup t with
  | none => rfl
  | some => rfl

lemma counters_updateOrInsert (f : SlotCounters → SlotCounters) :
    (m.updateOrInsert t f).counters t' = if t' = t then f (m.counters t) else m.counters t' := by
  unfold counters updateOrInsert
  rw [Dict.lookup_upsert]
  split
  · rfl
  · rfl

lemma counters_pruneIfIdle : (m.pruneIfIdle t).counters t' = m.counters t' := by
  unfold pruneIfIdle
  cases hslot : m.slots.lookup t with
  | none => rfl
  | some slot =>
    simp only
    split
    · rename_i hidle
      unfold counters
      rw [Dict.lookup_erase_eq]
      split
      · rename_i ht
        rw [ht, hslot]
        cases slot
        obtain ⟨rfl, rfl⟩ := hidle
        rfl
      · rfl
    · rfl

lemma counters_freeRequest : (m.freeRequest t).counters t' = if t' = t then
      { m.counters t with activeRequests := (m.counters t).activeRequests - 1 }
    else m.counters t' := by
  unfold counters freeRequest
  rw [Dict.lookup_modify]
  split
  · cases m.slots.lookup t with
    | none => rfl
    | some => rfl
  · rfl

end InMemorySlotManager

/-! ## What the slots hold and what the calls owe -/

/-- The two counters of a target. -/
inductive Meter where
  | tokens
  | requests
deriving DecidableEq

namespace Meter

def read : Meter → SlotCounters → Nat
  | tokens, counters => counters.activePrefillTokens
  | requests, counters => counters.activeRequests

/-- The states in which a slot is counted. -/
def counts : Meter → SlotState → Bool
  | tokens, state => decide (state = .prefill)
  | requests, state => decide (state ≠ .freed)

/-- What a slot weighs at `t`. -/
def weigh (k : Meter) (t : RoutableTarget) (slot : KvRequestSlot) : Nat :=
  if slot.target = t then
    match k with
    | tokens => slot.prefillTokens
    | requests => 1
  else 0

/-- What a slot holds at `t`. -/
def held (k : Meter) (t : RoutableTarget) (slot : KvRequestSlot) : Nat :=
  if k.counts slot.state = true then k.weigh t slot else 0

/-- The slot that a call has still to subtract. -/
def owes : Meter → Pc → Option Nat
  | tokens, .subtractTokens i _ => some i
  | requests, .freeRequest i => some i
  | _, _ => none

/-- What a call has still to subtract at `t`. -/
def owed (k : Meter) (slots : List KvRequestSlot) (t : RoutableTarget) (pc : Pc) : Nat :=
  (((k.owes pc).bind (slots[·]?)).map (k.weigh t)).getD 0

end Meter

/-- Every counter is what the slots hold and the calls owe. -/
structure Accounts (sys : LoadSystem) : Prop where
  owing : ∀ pc ∈ sys.calls, ∀ (k : Meter) i, k.owes pc = some i → i < sys.slots.length
  exact : ∀ (k : Meter) t, k.read (sys.manager.counters t)
    = (sys.slots.map (k.held t)).sum + (sys.calls.map (k.owed sys.slots t)).sum

lemma accounts_init : Accounts init where
  owing _ h := by cases h
  exact k _ := by
    cases k with
    | tokens => rfl
    | requests => rfl

/-! ## One step -/

/-- The additions of a step stay below `2 ^ 64`. -/
def LoadSystem.fits (sys : LoadSystem) : LoadAction → Bool
  | .call _ => true
  | .advance i =>
    match sys.calls[i]? with
    | some (.beginPrefill t tokens) =>
      decide ((sys.manager.counters t).activePrefillTokens + tokens < 2 ^ 64 ∧
        (sys.manager.counters t).activeRequests + 1 < 2 ^ 64)
    | _ => true

/-- `Pc`-level reading of `fits`. -/
def Pc.Fits (m : InMemorySlotManager) : Pc → Prop
  | .beginPrefill t tokens => (m.counters t).activePrefillTokens + tokens < 2 ^ 64 ∧
      (m.counters t).activeRequests + 1 < 2 ^ 64
  | _ => True

section Exec

variable {sys : LoadSystem} {pc pc' : Pc} {m : InMemorySlotManager} {slots : List KvRequestSlot}
  {slot : KvRequestSlot} {i : Nat} {k : Meter} {t : RoutableTarget}

lemma owed_none (h : (k.owes pc).bind (slots[·]?) = none) : k.owed slots t pc = 0 := by
  unfold Meter.owed
  rw [h]
  rfl

lemma owed_nothing (h : k.owes pc = none) : k.owed slots t pc = 0 := by
  refine owed_none ?_
  rw [h]
  rfl

lemma owed_some (h : k.owes pc = some i) (hi : slots[i]? = some slot) :
    k.owed slots t pc = k.weigh t slot := by
  unfold Meter.owed
  rw [h, Option.bind_some, hi]
  rfl

/-- What a step does: a slot keeps its target and tokens, and is counted until the call
owes it. The counter, the slots and the call stay in balance: what leaves one of them
arrives at another. -/
structure Balanced (sys : LoadSystem) (pc : Pc) (m : InMemorySlotManager)
    (slots : List KvRequestSlot) (pc' : Pc) : Prop where
  kept : ∀ {j : Nat} {slot}, sys.slots[j]? = some slot → ∃ slot', slots[j]? = some slot' ∧
    slot'.target = slot.target ∧ slot'.prefillTokens = slot.prefillTokens ∧
    ∀ k : Meter, k.counts slot.state = true →
      k.counts slot'.state = true ∨ k.owes pc' = some j
  owing : ∀ (k : Meter) i, k.owes pc' = some i → i < slots.length
  balance : ∀ (k : Meter) t, k.owed sys.slots t pc ≤ k.read (sys.manager.counters t) →
    k.read (m.counters t) + (sys.slots.map (k.held t)).sum + k.owed sys.slots t pc
      = k.read (sys.manager.counters t) + (slots.map (k.held t)).sum + k.owed slots t pc'

/-- A step that leaves the counters and the slots alone. -/
lemma Balanced.rest (hm : ∀ t, m.counters t = sys.manager.counters t)
    (hpc : ∀ k : Meter, (k.owes pc).bind (sys.slots[·]?) = none)
    (hpc' : ∀ k : Meter, k.owes pc' = none) : Balanced sys pc m sys.slots pc' where
  kept hj := ⟨_, hj, rfl, rfl, fun _ => .inl⟩
  owing k i hi := by
    rw [hpc'] at hi
    cases hi
  balance k t _ := by rw [hm, owed_none (hpc k), owed_nothing (hpc' k)]

/-- A slot is handed out. -/
lemma Balanced.append (new)
    (hm : ∀ (k : Meter) t, k.read (m.counters t) = k.read (sys.manager.counters t) + k.held t new)
    (hpc : ∀ k : Meter, k.owes pc = none) (hpc' : ∀ k : Meter, k.owes pc' = none) :
    Balanced sys pc m (sys.slots ++ [new]) pc' where
  kept hj := ⟨_, (List.getElem?_append_left (List.getElem?_eq_some_iff.1 hj).1).trans hj, rfl, rfl,
    fun _ => .inl⟩
  owing k i hi := by
    rw [hpc'] at hi
    cases hi
  balance k t _ := by
    rw [hm, owed_nothing (hpc k), owed_nothing (hpc' k), List.map_append, List.sum_append,
      List.map_singleton, List.sum_singleton]
    omega

/-- A won swap: a meter counts the slot as before, or the call owes it. -/
lemma Balanced.swap (hi : sys.slots[i]? = some slot) (hpc : ∀ k : Meter, k.owes pc = none)
    (hpc' : ∀ k : Meter, (k.owes pc' = none ∧ k.counts state = k.counts slot.state) ∨
      (k.owes pc' = some i ∧ k.counts slot.state = true ∧ k.counts state = false)) :
    Balanced sys pc sys.manager (sys.slots.set i { slot with state := state }) pc' := by
  have hlt := (List.getElem?_eq_some_iff.1 hi).1
  have hnew : (sys.slots.set i { slot with state := state })[i]?
      = some { slot with state := state } := List.getElem?_set_self hlt
  refine ⟨fun {j slot₁} hj => ?_, fun k j hj => ?_, fun k t _ => ?_⟩
  · by_cases hij : i = j
    · subst hij
      obtain rfl := Option.some.inj (hi.symm.trans hj)
      refine ⟨_, hnew, rfl, rfl, fun k hk => ?_⟩
      rcases hpc' k with ⟨-, hsame⟩ | ⟨howes, -⟩
      · exact .inl (hsame.trans hk)
      · exact .inr howes
    · rw [List.getElem?_set_ne hij]
      exact ⟨slot₁, hj, rfl, rfl, fun _ => .inl⟩
  · rcases hpc' k with ⟨hnone, -⟩ | ⟨howes, -⟩
    · rw [hnone] at hj
      cases hj
    cases howes.symm.trans hj
    rw [List.length_set]
    exact hlt
  have hsum := sum_map_set (k.held t) (b := { slot with state := state }) hi
  rw [owed_nothing (hpc k)]
  rcases hpc' k with ⟨hnone, hsame⟩ | ⟨howes, hold, hgone⟩
  · have hheld : k.held t { slot with state := state } = k.held t slot := by
      unfold Meter.held
      rw [hsame]
      rfl
    rw [owed_nothing hnone]
    omega
  have hheld : k.held t slot = k.weigh t slot := if_pos hold
  have hzero : k.held t { slot with state := state } = 0 :=
    if_neg (by rw [hgone]; exact Bool.false_ne_true)
  have howed : k.owed _ t pc' = k.weigh t { slot with state := state } := owed_some howes hnew
  have hweigh : k.weigh t { slot with state := state } = k.weigh t slot := rfl
  omega

/-- The update that a call owes the manager. -/
lemma Balanced.pay (k₀ : Meter) (hi : sys.slots[i]? = some slot)
    (hm : ∀ k t, k.read (m.counters t)
      = k.read (sys.manager.counters t) - if k = k₀ then k.weigh t slot else 0)
    (hpc : ∀ k, k.owes pc = if k = k₀ then some i else none)
    (hpc' : ∀ k : Meter, k.owes pc' = none) : Balanced sys pc m sys.slots pc' where
  kept hj := ⟨_, hj, rfl, rfl, fun _ => .inl⟩
  owing k i hi := by
    rw [hpc'] at hi
    cases hi
  balance k t hle := by
    have howed : k.owed sys.slots t pc = if k = k₀ then k.weigh t slot else 0 := by
      split
      · rename_i hk
        exact owed_some ((hpc k).trans (if_pos hk)) hi
      · rename_i hk
        exact owed_nothing ((hpc k).trans (if_neg hk))
    rw [hm, owed_nothing (hpc' k)]
    omega

lemma owes_afterDecode (k : Meter) (i : Nat) (releasing : Bool) :
    k.owes (afterDecode i releasing) = none := by
  cases releasing with
  | true
  | false =>
    cases k with
    | tokens
    | requests => rfl

lemma owes_done (k : Meter) : k.owes .done = none := by
  cases k with
  | tokens
  | requests => rfl

/-- **One step** of a call is balanced. -/
lemma exec_balanced (sys : LoadSystem) (hfits : pc.Fits sys.manager) :
    Balanced sys pc (sys.exec pc).1 (sys.exec pc).2.1 (sys.exec pc).2.2 := by
  cases pc with
  | beginPrefill target tokens =>
    cases hfits
    refine .append _ (fun k t => ?_) (fun k => by cases k with | _ => rfl) owes_done
    simp only [exec, beginPrefill, counters_updateOrInsert, fetchAdd]
    cases k with
    | tokens
    | requests =>
      by_cases ht : t = target
      · subst ht
        simp [Meter.read, Meter.held, Meter.counts, Meter.weigh]
        omega
      · simp [Meter.held, Meter.weigh, ht, Ne.symm ht]
  | decodeSwap i releasing =>
    have hpc : ∀ k : Meter, k.owes (.decodeSwap i releasing) = none :=
      fun k => by cases k with | _ => rfl
    simp only [exec]
    cases hi : sys.slots[i]? with
    | none => exact .rest (fun _ => rfl) (fun k => by rw [hpc]; rfl) owes_done
    | some =>
      simp only
      split
      · rename_i hstate
        refine .swap hi hpc fun k => ?_
        rw [hstate]
        cases k with
        | tokens => exact .inr ⟨rfl, rfl, rfl⟩
        | requests => exact .inl ⟨rfl, rfl⟩
      · exact .rest (fun _ => rfl) (fun k => by rw [hpc]; rfl) (owes_afterDecode · i releasing)
  | subtractTokens i releasing =>
    simp only [exec]
    cases hi : sys.slots[i]? with
    | none =>
      refine .rest (fun _ => rfl) (fun k => ?_) owes_done
      cases k with
      | tokens => exact hi
      | requests => rfl
    | some slot =>
      refine .pay .tokens hi (fun k t => ?_) (fun k => by cases k with | _ => rfl)
        (owes_afterDecode · i releasing)
      simp only [beginDecode, if_true, counters_updateOrInsert]
      cases k with
      | tokens
      | requests =>
        by_cases ht : t = slot.target
        · simp [Meter.read, Meter.weigh, ht]
        · simp [Meter.weigh, ht, Ne.symm ht]
  | freeSwap i =>
    have hpc : ∀ k : Meter, k.owes (.freeSwap i) = none := fun k => by cases k with | _ => rfl
    simp only [exec]
    cases hi : sys.slots[i]? with
    | none => exact .rest (fun _ => rfl) (fun k => by rw [hpc]; rfl) owes_done
    | some =>
      simp only
      split
      · rename_i hstate
        refine .swap hi hpc fun k => ?_
        rw [hstate]
        cases k with
        | tokens => exact .inl ⟨rfl, rfl⟩
        | requests => exact .inr ⟨rfl, rfl, rfl⟩
      · exact .rest (fun _ => rfl) (fun k => by rw [hpc]; rfl) owes_done
  | freeRequest i =>
    simp only [exec]
    cases hi : sys.slots[i]? with
    | none =>
      refine .rest (fun _ => rfl) (fun k => ?_) owes_done
      cases k with
      | tokens => rfl
      | requests => exact hi
    | some slot =>
      refine .pay .requests hi (fun k t => ?_) (fun k => by cases k with | _ => rfl)
        (fun k => by cases k with | _ => rfl)
      rw [counters_freeRequest]
      cases k with
      | tokens
      | requests =>
        by_cases ht : t = slot.target
        · simp [Meter.read, Meter.weigh, ht]
        · simp [Meter.read, Meter.weigh, ht, Ne.symm ht]
  | prune target =>
    exact .rest (sys.manager.counters_pruneIfIdle target) (fun k => by cases k with | _ => rfl)
      owes_done
  | done => exact .rest (fun _ => rfl) (fun k => by cases k with | _ => rfl) owes_done

/-! ## Runs -/

/-- An amount is part of its sum. -/
lemma le_sum_of_mem {α : Type} (f : α → Nat) {l : List α} {a : α} (h : a ∈ l) :
    f a ≤ (l.map f).sum :=
  single_le_sum (fun _ _ => Nat.zero_le _) _ (mem_map_of_mem h)

lemma Accounts.owed_le (h : Accounts sys) (hi : sys.calls[i]? = some pc) (k : Meter) (t) :
    k.owed sys.slots t pc ≤ k.read (sys.manager.counters t) := by
  rw [h.exact]
  have hpart := le_sum_of_mem (k.owed sys.slots t) (mem_of_getElem? hi)
  omega

/-- A step leaves what every call in progress owes. -/
lemma Accounts.owed_kept (h : Accounts sys) (hexec : Balanced sys pc m slots pc')
    (hcall : call ∈ sys.calls) : k.owed slots t call = k.owed sys.slots t call := by
  cases howes : k.owes call with
  | none => rw [owed_none (by rw [howes]; rfl), owed_none (by rw [howes]; rfl)]
  | some i =>
    have hi := getElem?_eq_getElem (h.owing call hcall k i howes)
    obtain ⟨_, hslot', htarget, htokens, -⟩ := hexec.kept hi
    rw [owed_some howes hi, owed_some howes hslot']
    unfold Meter.weigh
    rw [htarget, htokens]

/-- One step of a call. -/
lemma Accounts.advance (h : Accounts sys) (hi : sys.calls[i]? = some pc)
    (hexec : Balanced sys pc m slots pc') : Accounts ⟨m, slots, sys.calls.set i pc'⟩ where
  owing call hcall k j hj := by
    rcases List.mem_or_eq_of_mem_set hcall with hold | rfl
    · obtain ⟨_, hslot', -⟩ := hexec.kept (List.getElem?_eq_getElem (h.owing call hold k j hj))
      exact (List.getElem?_eq_some_iff.1 hslot').1
    · exact hexec.owing k j hj
  exact k t := by
    have hbalance := hexec.balance k t (h.owed_le hi k t)
    have hset := sum_map_set (k.owed slots t) (b := pc') hi
    have hkept : sys.calls.map (k.owed slots t) = sys.calls.map (k.owed sys.slots t) :=
      List.map_congr_left fun call hcall => h.owed_kept hexec hcall
    rw [hkept, h.owed_kept hexec (List.mem_of_getElem? hi)] at hset
    have hexact := h.exact k t
    show k.read (m.counters t) = (slots.map (k.held t)).sum
      + ((sys.calls.set i pc').map (k.owed slots t)).sum
    omega

lemma owes_entry (k : Meter) (call : SlotCall) : k.owes call.entry = none := by
  cases k with
  | tokens
  | requests =>
    cases call with
    | _ => rfl

lemma Accounts.call (h : Accounts sys) (call : SlotCall) :
    Accounts { sys with calls := sys.calls ++ [call.entry] } where
  owing pc hpc k i hi := by
    rcases mem_append.1 hpc with hold | hnew
    · exact h.owing pc hold k i hi
    · rw [mem_singleton.1 hnew, owes_entry] at hi
      cases hi
  exact k t := by
    rw [map_append, sum_append, map_singleton, owed_none (by rw [owes_entry]; rfl)]
    exact h.exact k t

lemma fits_iff (hi : sys.calls[i]? = some pc) (hfits : sys.fits (.advance i) = true) :
    pc.Fits sys.manager := by
  simp only [fits, hi] at hfits
  cases pc with
  | beginPrefill =>
    rw [decide_eq_true_iff] at hfits
    exact hfits
  | _ => trivial

/-- **One step** whose additions fit keeps the accounts. -/
lemma Accounts.step (h : Accounts sys) (action) (hfits : sys.fits action = true) :
    Accounts (sys.step action) := by
  cases action with
  | call call => exact h.call call
  | advance i =>
    simp only [LoadSystem.step]
    cases hi : sys.calls[i]? with
    | none => exact h
    | some => exact h.advance hi (exec_balanced sys (fits_iff hi hfits))

lemma run_accounts (hfits : guardedRun step fits init actions = true) : Accounts (run actions) :=
  foldl_guarded (fun _ action hf h => h.step action hf) actions _ hfits accounts_init

end Exec

/-! ## Exactness -/

namespace LoadSystem

/-- The prefill tokens of the slots of `t` that are still in prefill. -/
def prefillTokensOf (sys : LoadSystem) (t : RoutableTarget) : Nat :=
  ((sys.slots.filter fun slot => decide (slot.target = t ∧ slot.state = .prefill)).map
    KvRequestSlot.prefillTokens).sum

/-- The number of slots of `t` that are not released yet. -/
def unreleasedOf (sys : LoadSystem) (t : RoutableTarget) : Nat :=
  (sys.slots.filter fun slot => decide (slot.target = t ∧ slot.state ≠ .freed)).length

/-- The step subtracts more than the counter holds. -/
def Clips (sys : LoadSystem) : LoadAction → Prop
  | .call _ => False
  | .advance i =>
    match sys.calls[i]? with
    | some (.subtractTokens j _) => ∃ slot, sys.slots[j]? = some slot ∧
        (sys.manager.counters slot.target).activePrefillTokens < slot.prefillTokens
    | some (.freeRequest j) => ∃ slot, sys.slots[j]? = some slot ∧
        (sys.manager.counters slot.target).activeRequests < 1
    | _ => False

/-- The step drops a target that has a slot which is not released. -/
def DropsLive (sys : LoadSystem) (action : LoadAction) : Prop :=
  ∃ target slot, slot ∈ sys.slots ∧ slot.target = target ∧ slot.state ≠ .freed ∧
    (sys.manager.slots.lookup target).isSome = true ∧
    (sys.step action).manager.slots.lookup target = none

end LoadSystem

section Exact

variable {sys : LoadSystem}

lemma Accounts.sample (h : Accounts sys) (hquiet : sys.Quiescent) (t) :
    sys.manager.sample t = ⟨sys.prefillTokensOf t, sys.unreleasedOf t⟩ := by
  have hnone : ∀ k : Meter, (sys.calls.map (k.owed sys.slots t)).sum = 0 := by
    intro k
    refine sum_eq_zero fun x hx => ?_
    obtain ⟨pc, hpc, rfl⟩ := mem_map.1 hx
    rw [hquiet pc hpc, owed_none (by rw [owes_done]; rfl)]
  have htokens := h.exact .tokens t
  have hrequests := h.exact .requests t
  rw [hnone] at htokens hrequests
  rw [sample_eq, prefillTokensOf, unreleasedOf, sum_filter, length_filter]
  refine congrArg₂ LoadSample.mk (htokens.trans ?_) (hrequests.trans ?_)
  all_goals
    refine congrArg sum (map_congr_left fun slot _ => ?_)
    by_cases ht : slot.target = t
    · simp [Meter.held, Meter.counts, Meter.weigh, ht]
    · simp [Meter.held, Meter.weigh, ht]

lemma Accounts.not_clips (h : Accounts sys) (action) : ¬ sys.Clips action := by
  cases action with
  | call => exact id
  | advance i =>
    simp only [LoadSystem.Clips]
    cases hi : sys.calls[i]? with
    | none => exact id
    | some pc =>
      cases pc with
      | subtractTokens =>
        rintro ⟨slot, hslot, hclips⟩
        have hle := h.owed_le hi .tokens slot.target
        rw [owed_some rfl hslot, Meter.weigh, if_pos rfl] at hle
        exact Nat.not_lt.2 hle hclips
      | freeRequest =>
        rintro ⟨slot, hslot, hclips⟩
        have hle := h.owed_le hi .requests slot.target
        rw [owed_some rfl hslot, Meter.weigh, if_pos rfl] at hle
        exact Nat.not_lt.2 hle hclips
      | _ => exact id

/-- A target without counters has neither a slot that is not released nor a call that
owes one. -/
lemma Accounts.unheld (h : Accounts sys) (hgone : sys.manager.slots.lookup slot.target = none) :
    (slot ∈ sys.slots → slot.state = .freed) ∧ ∀ pc ∈ sys.calls, ∀ i,
      Meter.requests.owes pc = some i → sys.slots[i]? ≠ some slot := by
  have hzero := h.exact .requests slot.target
  unfold counters at hzero
  rw [hgone, show Meter.requests.read (none.getD SlotCounters.default) = 0 from rfl] at hzero
  have hone : Meter.requests.weigh slot.target slot = 1 := if_pos rfl
  constructor
  · intro hmem
    have hheld := le_sum_of_mem (Meter.requests.held slot.target) hmem
    by_contra hstate
    have hcounted : Meter.requests.held slot.target slot = 1 :=
      (if_pos (decide_eq_true hstate)).trans hone
    omega
  intro pc hpc i howes hi
  have howed := le_sum_of_mem (Meter.requests.owed sys.slots slot.target) hpc
  rw [owed_some howes hi] at howed
  omega

lemma Accounts.not_dropsLive (hfits : sys.fits action = true) (h : Accounts (sys.step action)) :
    ¬ sys.DropsLive action := by
  rintro ⟨_, _, hmem, rfl, hstate, _, hafter⟩
  cases action with
  | call => exact hstate ((h.unheld hafter).1 hmem)
  | advance i =>
    simp only [LoadSystem.step] at h hafter
    cases hi : sys.calls[i]? with
    | none =>
      rw [hi] at h hafter
      exact hstate ((h.unheld hafter).1 hmem)
    | some =>
      rw [hi] at h hafter
      obtain ⟨j, hj⟩ := List.getElem?_of_mem hmem
      obtain ⟨_, hj', htarget, -, hcounts⟩ := (exec_balanced sys (fits_iff hi hfits)).kept hj
      rw [← htarget] at hafter
      rcases hcounts .requests (decide_eq_true hstate) with hheld | howes
      · exact of_decide_eq_true hheld ((h.unheld hafter).1 (List.mem_of_getElem? hj'))
      · exact (h.unheld hafter).2 _ (List.mem_set (List.getElem?_eq_some_iff.1 hi).1 _) j howes hj'

end Exact

/-- **The load is exact** in every interleaving in which no addition overflows: a sample
taken while no call is in progress shows what the slots hold, no subtraction clips, and
no target is dropped that has a slot left. -/
theorem run_load_exact {actions : List LoadAction}
    (hfits : guardedRun step fits init actions = true) :
    ((run actions).Quiescent → ∀ t, (run actions).manager.sample t
        = ⟨(run actions).prefillTokensOf t, (run actions).unreleasedOf t⟩) ∧
      ∀ pre action post, actions = pre ++ action :: post →
        ¬ (run pre).Clips action ∧ ¬ (run pre).DropsLive action := by
  refine ⟨fun hquiet t => (run_accounts hfits).sample hquiet t, ?_⟩
  rintro pre action _ rfl
  obtain ⟨hpre, hrest⟩ := (guardedRun_append pre _ _).1 hfits
  have haccounts := run_accounts hpre
  have hfit := (Bool.and_eq_true_iff.1 hrest).1
  exact ⟨haccounts.not_clips action, (haccounts.step action hfit).not_dropsLive hfit⟩

/-- Two clones release one slot: the second frees the request while the first has still
to subtract the tokens. -/
def racingRelease : List LoadAction :=
  [.call (.beginRequest ⟨"w", 0⟩ 90), .advance 0, .call (.release 0), .call (.release 0),
    .advance 1, .advance 2, .advance 2, .advance 2, .advance 2, .advance 1, .advance 1]

theorem racingRelease_exact : guardedRun step fits init racingRelease = true ∧
      (run racingRelease).Quiescent ∧ (run racingRelease).manager.sample ⟨"w", 0⟩ = ⟨0, 0⟩ ∧
      ((run racingRelease).Quiescent → ∀ t, (run racingRelease).manager.sample t
          = ⟨(run racingRelease).prefillTokensOf t, (run racingRelease).unreleasedOf t⟩) :=
  ⟨by decide +kernel, by decide +kernel, by decide +kernel,
    (@run_load_exact racingRelease (by decide +kernel)).1⟩

/-- Two requests whose tokens add up to `2 ^ 64`. -/
def overflowingRequests : List LoadAction :=
  [.call (.beginRequest ⟨"w", 0⟩ (2 ^ 63)), .advance 0,
    .call (.beginRequest ⟨"w", 0⟩ (2 ^ 63)), .advance 1]

/-- The token counter wraps around to zero while both requests are in prefill. -/
theorem overflowingRequests_wrap : (run overflowingRequests).Quiescent ∧
      (run overflowingRequests).manager.sample ⟨"w", 0⟩ = ⟨0, 2⟩ ∧
      (run overflowingRequests).prefillTokensOf ⟨"w", 0⟩ = 2 ^ 64 := by
  refine ⟨?_, ?_, ?_⟩
  · decide +kernel
  · decide +kernel
  · decide +kernel

end VllmRouter.Policies
