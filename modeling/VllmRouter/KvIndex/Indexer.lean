import VllmRouter.Lib.Dict
import VllmRouter.Lib.Runs
import VllmRouter.KvIndex.Types

/-!
# The compressed radix tree of resident KV blocks (`kv_index/indexer.rs`)

A shard is a heap of tree nodes that reference each other (`Arc<RwLock<_>>`
in the source, indices into `nodes` here), an anchor map from engine sequence
hashes to the node that carries them, and the reverse map from an
`(owner, tier)` pair to the sequence hashes it has claimed.

The model is sequential: every call runs to its end under its locks. An
operation returns `none` where the source would panic (an index out of bounds,
a failed `expect`) or retry without end (an alias its anchor node does not
carry), so "returns `some`" means the call really returns. Hash sets are lists
without duplicates. Block positions are `u32` in the source and natural
numbers here.
-/

namespace VllmRouter.KvIndex

/-- An interned engine or block-local hash. -/
abbrev Hash := String

/-- One request's query against the index: the kv-cache-spec group that selects
the shard, block-local hashes in prefix order and the tiers to report. -/
structure MatchQuery where
  groupIdx : Nat
  localHashes : List Hash
  tiersOfInterest : List StorageTier
deriving DecidableEq, Repr

/-- One hit: the maximal block intervals a target holds at a tier. -/
structure TierMatch where
  target : RoutableTarget
  tier : StorageTier
  segments : List (Nat × Nat)
  locality : Locality
deriving DecidableEq, Repr

abbrev OwnerTier := ResidencyOwner × StorageTier

/-- A heap index standing for `Arc<RwLock<TreeNode>>`. -/
abbrev NodeRef := Nat

/-- An incoming block: `(seq_hash, local_hash)`. -/
abbrev IncomingBlock := Hash × Hash

/-- One block of an edge: its historical sequence hashes and its local hash. -/
structure EdgeBlock where
  aliases : List Hash
  localHash : Hash
deriving DecidableEq, Repr

/-- Length of the common prefix between an edge and the incoming blocks,
compared by local hash only. -/
def edgeCommonPrefix (edge : List EdgeBlock) (incoming : List IncomingBlock) : Nat :=
  ((edge.zip incoming).takeWhile fun p => decide (p.1.localHash = p.2.2)).length

/-- One node of the compressed radix tree: a run of blocks, their claims
(parallel to the run) and the children keyed by their first local hash. -/
structure TreeNode where
  edge : List EdgeBlock
  claims : List (List OwnerTier)
  children : Dict Hash NodeRef

namespace TreeNode

/-- The root sentinel. -/
def root : TreeNode := ⟨[], [], ∅⟩

/-- A fresh node for a run of incoming blocks, not yet claimed by anyone. -/
def withEdge (blocks : List IncomingBlock) : TreeNode where
  edge := blocks.map fun b => ⟨[b.1], b.2⟩
  claims := blocks.map fun _ => []
  children := ∅

end TreeNode

/-- One kv-cache-spec group's tree, anchors and claims. -/
structure GroupShard where
  /-- All nodes ever allocated; `0` is the root. -/
  nodes : List TreeNode
  anchors : Dict Hash NodeRef
  reverse : Dict OwnerTier (List Hash)
  counts : Dict OwnerTier Nat

namespace GroupShard

def new : GroupShard := ⟨[TreeNode.root], ∅, ∅, ∅⟩

/-- The reference to the tree root. -/
def rootRef : NodeRef := 0

variable (sh : GroupShard)

/-- Write a node back through its reference. -/
def write (node : NodeRef) (n : TreeNode) : GroupShard :=
  { sh with nodes := sh.nodes.set node n }

/-- Allocate a node; its reference is the old heap size. -/
def alloc (n : TreeNode) : GroupShard :=
  { sh with nodes := sh.nodes ++ [n] }

/-- Record one incoming sequence hash at position `i` of the locked node `n`:
alias, anchor, reverse entry (counted when new) and per-block claim. -/
def recordBlock (n : TreeNode) (node : NodeRef) (key : OwnerTier) (i : Nat) (seq : Hash) :
    Option (GroupShard × TreeNode) := do
  let block ← n.edge[i]?
  let claims ← n.claims[i]?
  let claimed := (sh.reverse.lookup key).getD []
  let n := { n with
    edge := n.edge.set i { block with aliases := block.aliases.insert seq }
    claims := n.claims.set i (if key ∈ claims then claims else claims ++ [key]) }
  let sh := { sh with
    anchors := sh.anchors.insert seq node
    reverse := sh.reverse.insert key (claimed.insert seq)
    counts := if seq ∈ claimed then sh.counts else sh.counts.upsert key 0 (· + 1) }
  some (sh, n)

/-- The node after recording `seq` for `key` at its block `i`, which is `b` with
claims `cl`. -/
def recordNode (n : TreeNode) (i : Nat) (b : EdgeBlock) (cl : List OwnerTier)
    (key : OwnerTier) (seq : Hash) : TreeNode :=
  { n with
    edge := n.edge.set i { b with aliases := b.aliases.insert seq }
    claims := n.claims.set i (if key ∈ cl then cl else cl ++ [key]) }

/-- Record the incoming blocks into the locked node, position by position. -/
def recordLocked (sh : GroupShard) (n : TreeNode) (node : NodeRef) (key : OwnerTier) :
    Nat → List IncomingBlock → Option (GroupShard × TreeNode)
  | _, [] => some (sh, n)
  | i, (seq, _) :: rest =>
    match sh.recordBlock n node key i seq with
    | none => none
    | some (sh', n') => recordLocked sh' n' node key (i + 1) rest

/-- Point every alias of the moved blocks at the node that now carries them. -/
def reanchor (anchors : Dict Hash NodeRef) (blocks : List EdgeBlock) (node : NodeRef) :
    Dict Hash NodeRef :=
  (blocks.flatMap EdgeBlock.aliases).foldl (fun m seq => m.insert seq node) anchors

/-- Split the locked node's edge at `pos`: the first `pos` blocks stay, the
remainder becomes one new child with the remainder's claims and the old
children, and its aliases are re-anchored. -/
def splitLocked (c : TreeNode) (pos : Nat) : Option (GroupShard × TreeNode) :=
  match c.edge.drop pos with
  | [] => none
  | first :: more =>
    if c.claims.length < pos then none
    else
      let remNode := sh.nodes.length
      let sh := sh.alloc ⟨first :: more, c.claims.drop pos, c.children⟩
      let sh := { sh with anchors := reanchor sh.anchors (first :: more) remNode }
      some (sh, ⟨c.edge.take pos, c.claims.take pos,
        (∅ : Dict Hash NodeRef).insert first.localHash remNode⟩)

/-- Position of the edge block that carries `seq` among its aliases. -/
def aliasPos (edge : List EdgeBlock) (seq : Hash) : Option Nat :=
  edge.findIdx? fun b => decide (seq ∈ b.aliases)

/-- Resolve the cursor to its node, split after the cursor's block when it is
interior, and return the node below which the next blocks are stored. -/
def lockCursor (cursor : Option Hash) : Option (GroupShard × NodeRef × TreeNode) :=
  match cursor with
  | none => do
    let parent ← sh.nodes[rootRef]?
    some (sh, rootRef, parent)
  | some seq => do
    -- `expect`: anchors are insert-only, so a known cursor stays anchored
    let node ← sh.anchors.lookup seq
    let parent ← sh.nodes[node]?
    let pos ← aliasPos parent.edge seq
    if pos + 1 < parent.edge.length then
      let (sh, parent) ← sh.splitLocked parent (pos + 1)
      some (sh.write node parent, node, parent)
    else
      some (sh, node, parent)

/-- Append a new child for all remaining blocks below the locked parent. -/
def appendChild (node : NodeRef) (parent : TreeNode) (key : OwnerTier) (first : Hash)
    (blocks : List IncomingBlock) : Option GroupShard := do
  let newNode := sh.nodes.length
  let sh := sh.alloc (TreeNode.withEdge blocks)
  let (sh, n) ← sh.recordLocked (TreeNode.withEdge blocks) newNode key 0 blocks
  let sh := sh.write newNode n
  some (sh.write node { parent with children := parent.children.insert first newNode })

/-- Match the blocks against a child's edge, split it at the divergence and
record the shared prefix; returns how many blocks matched. -/
def claimChild (child : NodeRef) (key : OwnerTier) (blocks : List IncomingBlock) :
    Option (GroupShard × Nat) := do
  let c ← sh.nodes[child]?
  let matched := edgeCommonPrefix c.edge blocks
  -- `debug_assert!(matched >= 1)`
  if matched = 0 then none
  else
    let (sh, c) ← if matched < c.edge.length then sh.splitLocked c matched else some (sh, c)
    let (sh, c) ← sh.recordLocked c child key 0 (blocks.take matched)
    some (sh.write child c, matched)

/-- The loop of `store`: `blocks` are the blocks not stored yet and `cursor`
the sequence hash they hang below. Every iteration stores at least one block,
so `blocks.length` iterations are enough. -/
def storeLoop (key : OwnerTier) : Nat → GroupShard → Option Hash → List IncomingBlock →
    Option GroupShard
  | _, sh, _, [] => some sh
  | 0, _, _, _ :: _ => none
  | fuel + 1, sh, cursor, b :: rest => do
    let (sh, node, parent) ← sh.lockCursor cursor
    match parent.children.lookup b.2 with
    | none => sh.appendChild node parent key b.2 (b :: rest)
    | some child =>
      let (sh, matched) ← sh.claimChild child key (b :: rest)
      storeLoop key fuel sh (((b :: rest).take matched).getLast?.map Prod.fst)
        ((b :: rest).drop matched)

/-- Link a batch of blocks to `(owner, tier)` below the parent's block (or the
root). A store below an unknown parent is skipped. -/
def store (owner : ResidencyOwner) (tier : StorageTier) (parentSeq : Option Hash)
    (blocks : List IncomingBlock) : Option GroupShard :=
  match parentSeq with
  | some seq =>
    if (sh.anchors.lookup seq).isSome
    then storeLoop (owner, tier) blocks.length sh (some seq) blocks
    else some sh
  | none => storeLoop (owner, tier) blocks.length sh none blocks

/-- Drop the logical block claim only after its last active alias is gone. -/
def removeClaim (seq : Hash) (key : OwnerTier) : Option GroupShard :=
  match sh.anchors.lookup seq with
  | none => some sh
  | some node => do
    let n ← sh.nodes[node]?
    let idx ← aliasPos n.edge seq
    let block ← n.edge[idx]?
    let seqs := (sh.reverse.lookup key).getD []
    if block.aliases.any fun a => decide (a ∈ seqs) then some sh
    else
      let claims ← n.claims[idx]?
      some (sh.write node
        { n with claims := n.claims.set idx (claims.filter fun c => decide (c ≠ key)) })

/-- Remove one sequence hash from `(owner, tier)`. -/
def removeSeq (key : OwnerTier) (sh : GroupShard) (seq : Hash) : Option GroupShard := do
  let removed := decide (seq ∈ (sh.reverse.lookup key).getD [])
  let sh := { sh with
    reverse := sh.reverse.modify key fun seqs => seqs.filter fun s => decide (s ≠ seq) }
  let sh ← sh.removeClaim seq key
  if removed then
    let counts := sh.counts.modify key (· - 1)
    some { sh with counts := if counts.lookup key = some 0 then counts.erase key else counts }
  else some sh

/-- Drop `owner`'s claim on `seqHashes` at `tier`. -/
def remove (owner : ResidencyOwner) (tier : StorageTier) (seqHashes : List Hash) :
    Option GroupShard :=
  seqHashes.foldlM (removeSeq (owner, tier)) sh

/-- Whether `clear` treats the two owners as the same owner of their domain. -/
def sameOwner : ResidencyOwner → ResidencyOwner → Bool
  | .worker s₁ r₁ _, .worker s₂ r₂ _ => decide (s₁ = s₂ ∧ r₁ = r₂)
  | .cacheOwner p₁ _ _, .cacheOwner p₂ _ _ => decide (p₁ = p₂)
  | _, _ => false

/-- Remove every sequence hash of one `(owner, tier)` pair and forget the pair
in `reverse` once it is empty. -/
def removeKey (key : OwnerTier) : Option GroupShard := do
  let sh ← sh.remove key.1 key.2 ((sh.reverse.lookup key).getD [])
  some (if sh.reverse.lookup key = some [] then { sh with reverse := sh.reverse.erase key }
    else sh)

/-- `clear`'s loop body: `removeKey`, then drop a zero count. -/
def clearKey (key : OwnerTier) : Option GroupShard := do
  let sh ← sh.removeKey key
  some (if sh.counts.lookup key = some 0 then { sh with counts := sh.counts.erase key } else sh)

/-- Whether `clear owner scope` names the claims of `key`. -/
def clearNames (owner : ResidencyOwner) (scope : ClearScope) (key : OwnerTier) : Bool :=
  (decide (scope = .all) || decide (scope = key.1.domain)) && sameOwner owner key.1

/-- Clear `owner`'s residency in `scope`; never crosses owner domains. -/
def clear (owner : ResidencyOwner) (scope : ClearScope) : Option GroupShard :=
  (sh.reverse.keys.filter (clearNames owner scope)).foldlM clearKey sh

/-- Forget one publisher rank's observations, pool copies included. -/
def clearSource (source : SourceId) (dpRank : Nat) : Option GroupShard :=
  (sh.reverse.keys.filter fun key => decide (key.1.target = ⟨source, dpRank⟩)).foldlM
    removeKey sh

/-- How many blocks of an edge the query matches. -/
def advance (edge : List EdgeBlock) (query : List Hash) : Nat :=
  ((edge.zip query).takeWhile fun p => decide (p.1.localHash = p.2)).length

/-- Walk the query down the tree, collecting the claims of every matched
block. A partial edge match ends the walk. -/
def walk (sh : GroupShard) : Nat → Option NodeRef → List Hash →
    Option (List (List OwnerTier))
  | _, none, _ => some []
  | 0, some _, _ => none
  | fuel + 1, some child, query => do
    let c ← sh.nodes[child]?
    let advanced := advance c.edge query
    if c.claims.length < advanced then none
    else if advanced = 0 ∨ advanced < c.edge.length then some (c.claims.take advanced)
    else
      let next := (query.drop advanced).head?.bind fun h => c.children.lookup h
      let deeper ← walk sh fuel next (query.drop advanced)
      some (c.claims.take advanced ++ deeper)

/-- The claims along the matched prefix of the query. -/
def nodeClaims (query : List Hash) : Option (List (List OwnerTier)) := do
  let root ← sh.nodes[rootRef]?
  sh.walk query.length (query.head?.bind fun h => root.children.lookup h) query

end GroupShard

/-! ## Collapsing the claims into hits -/

/-- The hits under construction, by `(target, tier)`. -/
abbrev Hits := Dict (RoutableTarget × StorageTier) TierMatch

/-- Credit one claim at one depth: the first claim of a `(target, tier)` at a
depth extends its segments, every claim contributes to its locality. -/
def creditClaim (tiers : List StorageTier) (depth : Nat)
    (acc : Hits × List (RoutableTarget × StorageTier)) (claim : OwnerTier) :
    Hits × List (RoutableTarget × StorageTier) :=
  if claim.2 ∈ tiers then
    let key := (claim.1.target, claim.2)
    let entry := (acc.1.lookup key).getD ⟨claim.1.target, claim.2, [], claim.1.locality⟩
    let entry := if claim.1.locality = .local then { entry with locality := .local } else entry
    if key ∈ acc.2 then (acc.1.insert key entry, acc.2)
    else (acc.1.insert key { entry with segments := pushDepth entry.segments depth },
      acc.2.insert key)
  else acc

/-- Credit all claims of one depth; `seen` starts empty at every depth. -/
def creditDepth (tiers : List StorageTier) (best : Hits) (depth : Nat)
    (owners : List OwnerTier) : Hits :=
  (owners.foldl (creditClaim tiers depth) (best, [])).1

/-- Collapse the per-depth claims, starting at `depth`. -/
def collapse (tiers : List StorageTier) : Hits → Nat → List (List OwnerTier) → Hits
  | best, _, [] => best
  | best, depth, owners :: rest =>
    collapse tiers (creditDepth tiers best depth owners) (depth + 1) rest

/-- Answer a query: walk the tree, then collapse the claims into one hit per
`(target, tier)`. -/
def GroupShard.findMatches (sh : GroupShard) (query : MatchQuery) :
    Option (List TierMatch) := do
  let claims ← sh.nodeClaims query.localHashes
  let best := collapse query.tiersOfInterest ∅ 0 claims
  some (best.values.filter fun m => decide (m.segments ≠ []))

/-! ## The index of one cache identity -/

/-- One shard per `group_idx`, and the sources whose observations are hidden. -/
structure KvBlockIndexer where
  shards : Dict Nat GroupShard
  suspendedSources : Dict (SourceId × Nat) Unit
  sourceGeneration : Nat

namespace KvBlockIndexer

def new : KvBlockIndexer := ⟨∅, ∅, 0⟩

variable (idx : KvBlockIndexer)

/-- Get or create the shard for `groupIdx`. -/
def shard (groupIdx : Nat) : GroupShard :=
  (idx.shards.lookup groupIdx).getD GroupShard.new

/-- Run an operation on one shard and keep the result. -/
def onShard (groupIdx : Nat) (op : GroupShard → Option GroupShard) : Option KvBlockIndexer := do
  let sh ← op (idx.shard groupIdx)
  some { idx with shards := idx.shards.insert groupIdx sh }

/-- Run an operation on every existing shard. -/
def onShards (op : GroupShard → Option GroupShard) : Option KvBlockIndexer :=
  idx.shards.keys.foldlM (fun idx groupIdx => idx.onShard groupIdx op) idx

def store (groupIdx : Nat) (owner : ResidencyOwner) (tier : StorageTier) (parentSeq : Option Hash)
    (blocks : List IncomingBlock) : Option KvBlockIndexer :=
  idx.onShard groupIdx fun sh => sh.store owner tier parentSeq blocks

def remove (groupIdx : Nat) (owner : ResidencyOwner) (tier : StorageTier) (seqHashes : List Hash) :
    Option KvBlockIndexer :=
  idx.onShard groupIdx fun sh => sh.remove owner tier seqHashes

/-- Clear one owner's residency across every group. -/
def clear (owner : ResidencyOwner) (scope : ClearScope) : Option KvBlockIndexer :=
  idx.onShards fun sh => sh.clear owner scope

variable (source : SourceId) (dpRank : Nat)

/-- Hide a source's observations while contiguous replay repairs its state. -/
def suspendSource : KvBlockIndexer :=
  { idx with
    suspendedSources := idx.suspendedSources.insert (source, dpRank) ()
    sourceGeneration := idx.sourceGeneration + 1 }

/-- Stop crediting a lossy source and discard all its old observations. -/
def invalidateSource : Option KvBlockIndexer :=
  (idx.suspendSource source dpRank).onShards fun sh => sh.clearSource source dpRank

/-- Enable fresh observations again. -/
def resumeSource : KvBlockIndexer :=
  { idx with
    suspendedSources := idx.suspendedSources.erase (source, dpRank)
    sourceGeneration := idx.sourceGeneration + 1 }

/-- The source's observations are hidden from queries. -/
def isSuspended : Bool :=
  (idx.suspendedSources.lookup (source, dpRank)).isSome

/-- Answer a query from its group's shard, without the hits of hidden sources.
No writer runs in between, so the generation is the same at both loads. -/
def findMatches (query : MatchQuery) : Option (List TierMatch) := do
  let ms ← (idx.shard query.groupIdx).findMatches query
  some (ms.filter fun hit => !idx.isSuspended hit.target.instanceId hit.target.dpRank)

end KvBlockIndexer

end VllmRouter.KvIndex
