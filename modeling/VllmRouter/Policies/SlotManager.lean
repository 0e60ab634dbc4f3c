import Mathlib.Algebra.GroupWithZero.Nat
import VllmRouter.KvIndex.Types
import VllmRouter.Lib.Dict

/-!
# Live load of the KV-aware policy (`policies/kv_aware.rs`)

`InMemorySlotManager` counts, for every target, the prefill tokens and the requests
in flight. A `KvRequestSlot` is the handle of one request; its clones share one atomic
state, and whichever of them moves it on updates the counters.

The calls are cut into their atomic steps. A section that holds the map entry of a
target is one step; `free` reads the entry in one step and prunes in another; each
compare-and-swap is a step. The counters are 64-bit: an addition wraps around, a
subtraction saturates.
-/

namespace VllmRouter.Policies

open KvIndex (RoutableTarget)

/-! ## The manager -/

structure SlotCounters where
  activePrefillTokens : Nat
  activeRequests : Nat
deriving DecidableEq, Repr

namespace SlotCounters

def default : SlotCounters := ⟨0, 0⟩

end SlotCounters

/-- What a sample of a target shows. -/
structure LoadSample where
  activePrefillTokens : Nat
  activeRequests : Nat
deriving DecidableEq, Repr

/-- Counters by target. -/
structure InMemorySlotManager where
  slots : Dict RoutableTarget SlotCounters

/-- `fetch_add` on a 64-bit counter. -/
def fetchAdd (value amount : Nat) : Nat := (value + amount) % 2 ^ 64

namespace InMemorySlotManager

def new : InMemorySlotManager := ⟨∅⟩

variable (self : InMemorySlotManager)

variable (target : RoutableTarget)

def updateOrInsert (update : SlotCounters → SlotCounters) : InMemorySlotManager :=
  ⟨self.slots.upsert target SlotCounters.default update⟩

/-- Drop the counters of a target that counts nothing. -/
def pruneIfIdle : InMemorySlotManager :=
  match self.slots.lookup target with
  | none => self
  | some slot =>
    if slot.activeRequests = 0 ∧ slot.activePrefillTokens = 0
    then ⟨self.slots.erase target⟩ else self

def sample : LoadSample :=
  match self.slots.lookup target with
  | none => ⟨0, 0⟩
  | some slot => ⟨slot.activePrefillTokens, slot.activeRequests⟩

def beginPrefill (prefillTokens : Nat) : InMemorySlotManager :=
  self.updateOrInsert target fun slot =>
    ⟨fetchAdd slot.activePrefillTokens prefillTokens, fetchAdd slot.activeRequests 1⟩

/-- Take the tokens of a request out of its prefill target; a request that moves to
another target for decoding is counted there from now on. -/
def beginDecode (prefillTarget decodeTarget : RoutableTarget) (prefillTokens : Nat) :
    InMemorySlotManager :=
  if prefillTarget = decodeTarget then
    self.updateOrInsert prefillTarget fun prefill =>
      { prefill with activePrefillTokens := prefill.activePrefillTokens - prefillTokens }
  else
    let self := self.updateOrInsert prefillTarget fun prefill =>
      ⟨prefill.activePrefillTokens - prefillTokens, prefill.activeRequests - 1⟩
    let self := self.updateOrInsert decodeTarget fun decode =>
      { decode with activeRequests := fetchAdd decode.activeRequests 1 }
    self.pruneIfIdle prefillTarget

/-- The first step of `free`: take one request out of a target that is counted. -/
def freeRequest (target : RoutableTarget) : InMemorySlotManager :=
  ⟨self.slots.modify target fun slot => { slot with activeRequests := slot.activeRequests - 1 }⟩

def free (target : RoutableTarget) : InMemorySlotManager :=
  (self.freeRequest target).pruneIfIdle target

def unregisterTarget (target : RoutableTarget) : InMemorySlotManager :=
  self.pruneIfIdle target

end InMemorySlotManager

/-! ## Request slots and the calls on them -/

inductive SlotState where
  | prefill
  | decode
  | freed
deriving DecidableEq, Repr

/-- What the clones of a request handle share. -/
structure KvRequestSlot where
  target : RoutableTarget
  prefillTokens : Nat
  state : SlotState
deriving DecidableEq, Repr

/-- A call on the policy or on a clone of a slot. -/
inductive SlotCall where
  | beginRequest (target : RoutableTarget) (newPrefillTokens : Nat)
  | beginDecode (slot : Nat)
  | release (slot : Nat)
  | unregisterTarget (target : RoutableTarget)
deriving DecidableEq, Repr

/-- Where a call is: the atomic step it takes next. `release` begins as `begin_decode`
does. -/
inductive Pc where
  | beginPrefill (target : RoutableTarget) (prefillTokens : Nat)
  /-- `compare_exchange(0, 1)` -/
  | decodeSwap (slot : Nat) (releasing : Bool)
  /-- the manager's `begin_decode`, after the swap succeeded -/
  | subtractTokens (slot : Nat) (releasing : Bool)
  /-- `compare_exchange(1, 2)` -/
  | freeSwap (slot : Nat)
  /-- the manager's `free`, after the swap succeeded -/
  | freeRequest (slot : Nat)
  | prune (target : RoutableTarget)
  | done
deriving DecidableEq, Repr

def SlotCall.entry : SlotCall → Pc
  | .beginRequest target tokens => .beginPrefill target tokens
  | .beginDecode slot => .decodeSwap slot false
  | .release slot => .decodeSwap slot true
  | .unregisterTarget target => .prune target

/-- The manager, the slots handed out so far, and every call ever made. -/
structure LoadSystem where
  manager : InMemorySlotManager
  slots : List KvRequestSlot
  calls : List Pc

/-- A scheduler's choice: a thread makes a call, or a call takes its next step. -/
inductive LoadAction where
  | call (call : SlotCall)
  | advance (call : Nat)
deriving DecidableEq, Repr

namespace LoadSystem

def init : LoadSystem := ⟨InMemorySlotManager.new, [], []⟩

/-- After `begin_decode`, a release goes on and a plain call is over. -/
def afterDecode (slot : Nat) : Bool → Pc
  | true => .freeSwap slot
  | false => .done

/-- The effect of one step on the manager and the slots, and where the call is then. -/
def exec (sys : LoadSystem) : Pc → InMemorySlotManager × List KvRequestSlot × Pc
  | .beginPrefill target tokens =>
    (sys.manager.beginPrefill target tokens, sys.slots ++ [⟨target, tokens, .prefill⟩], .done)
  | .decodeSwap i releasing =>
    match sys.slots[i]? with
    | none => (sys.manager, sys.slots, .done)
    | some slot =>
      if slot.state = .prefill then
        (sys.manager, sys.slots.set i { slot with state := .decode }, .subtractTokens i releasing)
      else (sys.manager, sys.slots, afterDecode i releasing)
  | .subtractTokens i releasing =>
    match sys.slots[i]? with
    | none => (sys.manager, sys.slots, .done)
    | some slot =>
      (sys.manager.beginDecode slot.target slot.target slot.prefillTokens, sys.slots,
        afterDecode i releasing)
  | .freeSwap i =>
    match sys.slots[i]? with
    | none => (sys.manager, sys.slots, .done)
    | some slot =>
      if slot.state = .decode then
        (sys.manager, sys.slots.set i { slot with state := .freed }, .freeRequest i)
      else (sys.manager, sys.slots, .done)
  | .freeRequest i =>
    match sys.slots[i]? with
    | none => (sys.manager, sys.slots, .done)
    | some slot => (sys.manager.freeRequest slot.target, sys.slots, .prune slot.target)
  | .prune target => (sys.manager.pruneIfIdle target, sys.slots, .done)
  | .done => (sys.manager, sys.slots, .done)

/-- The steps of `free` and `unregister_target` together are these calls. -/
lemma exec_free (sys : LoadSystem) (h : sys.slots[i]? = some slot) (target) :
    sys.exec (.freeRequest i) = (sys.manager.freeRequest slot.target, sys.slots,
        .prune slot.target) ∧
      exec ⟨sys.manager.freeRequest slot.target, sys.slots, sys.calls⟩ (.prune slot.target)
        = (sys.manager.free slot.target, sys.slots, .done) ∧
      sys.exec (.prune target) = (sys.manager.unregisterTarget target, sys.slots, .done) := by
  exact ⟨by simp only [exec, h], rfl, rfl⟩

def step (sys : LoadSystem) : LoadAction → LoadSystem
  | .call call => { sys with calls := sys.calls ++ [call.entry] }
  | .advance i =>
    match sys.calls[i]? with
    | none => sys
    | some pc =>
      let (manager, slots, pc') := sys.exec pc
      ⟨manager, slots, sys.calls.set i pc'⟩

def run (actions : List LoadAction) : LoadSystem := actions.foldl step init

/-- No call is in progress. -/
def Quiescent (sys : LoadSystem) : Prop := ∀ pc ∈ sys.calls, pc = .done

instance (sys : LoadSystem) : Decidable sys.Quiescent :=
  inferInstanceAs (Decidable (∀ pc ∈ sys.calls, pc = .done))

end LoadSystem

end VllmRouter.Policies
