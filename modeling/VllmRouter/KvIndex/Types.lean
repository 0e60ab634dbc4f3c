import Mathlib.Data.List.Basic

/-!
# Residency vocabulary of the KV index (`kv_index/types.rs`)

Who holds a block (`ResidencyOwner`), on which medium (`StorageTier`), and
which worker rank a hit routes to (`RoutableTarget`). Interned `Arc<str>`
values are strings; ranks and incarnations are only compared, so they are
natural numbers.
-/

namespace VllmRouter.KvIndex

/-- Names one event source: a worker publisher. -/
abbrev SourceId := String

/-- Names a shared pool holding KV blocks across workers. -/
abbrev CacheOwnerId := String

/-- Where a request goes: one (worker, rank) target. -/
structure RoutableTarget where
  instanceId : SourceId
  dpRank : Nat
deriving DecidableEq, Repr

/-- Whether a residency is local or remote relative to the reading target. -/
inductive Locality where
  | local
  | remote
deriving DecidableEq, Repr

/-- Scope of a `clear`. -/
inductive ClearScope where
  | worker
  | cacheOwner
  | all
deriving DecidableEq, Repr

/-- What holds a cached block. A worker copy is ephemeral; a pool copy is
attributed to the worker that pushed it. -/
inductive ResidencyOwner where
  | worker (source : SourceId) (dpRank incarnation : Nat)
  | cacheOwner (poolId : CacheOwnerId) (source : SourceId) (dpRank : Nat)
deriving DecidableEq, Repr

namespace ResidencyOwner

/-- The target a hit on this owner routes to. -/
def target : ResidencyOwner → RoutableTarget
  | worker source dpRank _ => ⟨source, dpRank⟩
  | cacheOwner _ source dpRank => ⟨source, dpRank⟩

/-- Locality derived from the domain. -/
def locality : ResidencyOwner → Locality
  | worker .. => .local
  | cacheOwner .. => .remote

/-- Which domain this owner belongs to. -/
def domain : ResidencyOwner → ClearScope
  | worker .. => .worker
  | cacheOwner .. => .cacheOwner

end ResidencyOwner

/-- Storage medium holding a residency. -/
inductive StorageTier where
  | device
  | hostPinned
  | disk
  | external
deriving DecidableEq, Repr

/-- Map a worker's `medium` field to its tier: case-insensitive, unknown and
absent media are `device`. `external` only comes from the owner domain. -/
def StorageTier.fromMedium (medium : Option String) : StorageTier :=
  match medium.map (fun m => m.map Char.toUpper) with
  | none => .device
  | some m =>
    if m = "GPU" ∨ m = "DEVICE" then .device
    else if m = "CPU" ∨ m = "HOST" ∨ m = "HOST_PINNED" then .hostPinned
    else if m = "STORAGE" ∨ m = "DISK" then .disk
    else .device

end VllmRouter.KvIndex
