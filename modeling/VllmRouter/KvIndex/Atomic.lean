import VllmRouter.KvIndex.Observations

/-!
# The calls on a shard as atomic steps (`kv_index/indexer.rs`)

`KvIndex.Indexer` runs every call to its end. Here the same calls are cut where
other threads can come in between: each section held under one node lock and
each operation on a concurrent map outside such a section is one step. A call
is a program counter, and a schedule says whose step is next.

- `StorePc`, `RemovePc`, `QueryPc`: where the three calls can be interrupted.
- `Thread.step`: one step of one call; `none` is a panic of the source.
- `Threads`: the shard with its running calls, `Threads.run` a whole schedule.

The local variables of the source (`cursor`, `bi`, `qi`) are fields of the
program counters. `retries` is not in the source: it counts how often the
present sequence hash had to be resolved again.
-/

namespace VllmRouter.KvIndex

namespace GroupShard

/-! ## `store` -/

/-- What a section on a node that should carry the cursor's block ends in. -/
inductive Locked where
  /-- A split moved the cursor's block to another node. -/
  | moved
  /-- The cursor's block ends the node. -/
  | at (sh : GroupShard) (parent : TreeNode)

/-- The locked part of `lockCursor` on an already resolved `node`. -/
def lockNode (sh : GroupShard) (cursor : Option Hash) (node : NodeRef) : Option Locked := do
  let parent ← sh.nodes[node]?
  match cursor with
  | none => some (.at sh parent)
  | some seq =>
    match aliasPos parent.edge seq with
    | none => some .moved
    | some pos =>
      if pos + 1 < parent.edge.length then
        let (sh, parent) ← sh.splitLocked parent (pos + 1)
        some (.at (sh.write node parent) parent)
      else
        some (.at sh parent)

end GroupShard

/-- The arguments of one `store`. -/
structure StoreCall where
  owner : ResidencyOwner
  tier : StorageTier
  parentSeq : Option Hash
  blocks : List IncomingBlock
deriving DecidableEq, Repr

def StoreCall.key (call : StoreCall) : OwnerTier := (call.owner, call.tier)

/-- Where a `store` is. -/
inductive StorePc where
  /-- Before `anchors.contains_key(parent_seq)`. -/
  | check
  /-- At the head of the loop, before `anchors.get(cursor)`. -/
  | resolve (cursor : Option Hash) (bi retries : Nat)
  /-- Before `node.write()`. -/
  | lock (cursor : Option Hash) (bi retries : Nat) (node : NodeRef)
  /-- Before `child.write()`. -/
  | claim (bi : Nat) (child : NodeRef)
  /-- Returned; `false` when the parent was unknown. -/
  | done (stored : Bool)
deriving DecidableEq, Repr

/-- One step of a `store`. -/
def StoreCall.step (call : StoreCall) (sh : GroupShard) :
    StorePc → Option (GroupShard × StorePc)
  | .check =>
    match call.parentSeq with
    | some seq =>
      if (sh.anchors.lookup seq).isSome then some (sh, .resolve (some seq) 0 0)
      else some (sh, .done false)
    | none => some (sh, .resolve none 0 0)
  | .resolve cursor bi retries =>
    if call.blocks.length ≤ bi then some (sh, .done true)
    else
      match cursor with
      | none => some (sh, .lock none bi retries GroupShard.rootRef)
      | some seq => (sh.anchors.lookup seq).map fun node => (sh, .lock cursor bi retries node)
  | .lock cursor bi retries node => do
    match ← sh.lockNode cursor node with
    | .moved => some (sh, .resolve cursor bi (retries + 1))
    | .at sh parent =>
      let blk ← call.blocks[bi]?
      match parent.children.lookup blk.2 with
      | none =>
        let sh ← sh.appendChild node parent call.key blk.2 (call.blocks.drop bi)
        some (sh, .done true)
      | some child => some (sh, .claim bi child)
  | .claim bi child => do
    let (sh, matched) ← sh.claimChild child call.key (call.blocks.drop bi)
    let last ← call.blocks[bi + matched - 1]?
    some (sh, .resolve (some last.1) (bi + matched) 0)
  | .done stored => some (sh, .done stored)

/-! ## `remove` -/

/-- The arguments of one `remove`. -/
structure RemoveCall where
  owner : ResidencyOwner
  tier : StorageTier
  seqHashes : List Hash
deriving DecidableEq, Repr

def RemoveCall.key (call : RemoveCall) : OwnerTier := (call.owner, call.tier)

/-- Where a `remove` is; `i` is the position of the current sequence hash. -/
inductive RemovePc where
  /-- Before `reverse.get_mut(&key)`. -/
  | next (i : Nat)
  /-- In `remove_claim`, before `anchors.get(seq)`. -/
  | resolve (i : Nat) (removed : Bool) (retries : Nat)
  /-- In `remove_claim`, before `node.write()`. -/
  | lock (i : Nat) (removed : Bool) (retries : Nat) (node : NodeRef)
  /-- After `remove_claim`, before `counts.get_mut(&key)`. -/
  | count (i : Nat) (removed : Bool)
  /-- Before `counts.remove_if(&key, ..)`. -/
  | uncount (i : Nat)
  | done
deriving DecidableEq, Repr

namespace GroupShard

/-- The locked part of `removeClaim` on an already resolved `node`: `none`
inside is the retry after a split moved the block. -/
def cleanNode (sh : GroupShard) (seq : Hash) (key : OwnerTier) (node : NodeRef) :
    Option (Option GroupShard) := do
  let n ← sh.nodes[node]?
  match aliasPos n.edge seq with
  | none => some none
  | some idx =>
    let block ← n.edge[idx]?
    let seqs := (sh.reverse.lookup key).getD []
    if block.aliases.any fun a => decide (a ∈ seqs) then some (some sh)
    else
      let claims ← n.claims[idx]?
      some (some (sh.unclaim node n idx claims key))

end GroupShard

/-- One step of a `remove`. -/
def RemoveCall.step (call : RemoveCall) (sh : GroupShard) :
    RemovePc → Option (GroupShard × RemovePc)
  | .next i =>
    match call.seqHashes[i]? with
    | none => some (sh, .done)
    | some seq => some (sh.forget call.key seq, .resolve i (decide (sh.Active call.key seq)) 0)
  | .resolve i removed retries => do
    let seq ← call.seqHashes[i]?
    match sh.anchors.lookup seq with
    | none => some (sh, .count i removed)
    | some node => some (sh, .lock i removed retries node)
  | .lock i removed retries node => do
    let seq ← call.seqHashes[i]?
    match ← sh.cleanNode seq call.key node with
    | none => some (sh, .resolve i removed (retries + 1))
    | some sh => some (sh, .count i removed)
  | .count i removed =>
    if removed then some ({ sh with counts := sh.counts.modify call.key (· - 1) }, .uncount i)
    else some (sh, .next (i + 1))
  | .uncount i =>
    some ({ sh with
      counts := if sh.counts.lookup call.key = some 0 then sh.counts.erase call.key
        else sh.counts }, .next (i + 1))
  | .done => some (sh, .done)

/-! ## `find_matches` -/

/-- Where a `find_matches` is; `nodeClaims` are the claims read so far, one
entry for each depth. -/
inductive QueryPc where
  /-- Before `root.read()`. -/
  | start
  /-- Before `child.read()`. -/
  | read (child : NodeRef) (qi : Nat) (nodeClaims : List (List OwnerTier))
  | done (nodeClaims : List (List OwnerTier))
deriving DecidableEq, Repr

/-- The claims a walk has collected. -/
def QueryPc.nodeClaims : QueryPc → List (List OwnerTier)
  | .start => []
  | .read _ _ nodeClaims => nodeClaims
  | .done nodeClaims => nodeClaims

/-- One step of the walk of `find_matches`: a read section on one node. -/
def MatchQuery.step (query : MatchQuery) (sh : GroupShard) : QueryPc → Option QueryPc
  | .start => do
    let root ← sh.nodes[GroupShard.rootRef]?
    match query.localHashes.head?.bind fun h => root.children.lookup h with
    | none => some (.done [])
    | some child => some (.read child 0 [])
  | .read child qi nodeClaims => do
    let c ← sh.nodes[child]?
    let advanced := GroupShard.advance c.edge (query.localHashes.drop qi)
    if c.claims.length < advanced then none
    else
      let nodeClaims := nodeClaims ++ c.claims.take advanced
      if advanced = 0 ∨ advanced < c.edge.length then some (.done nodeClaims)
      else
        match query.localHashes[qi + advanced]?.bind fun h => c.children.lookup h with
        | none => some (.done nodeClaims)
        | some next => some (.read next (qi + advanced) nodeClaims)
  | .done nodeClaims => some (.done nodeClaims)

/-- The end of `find_matches`, which looks at no shared state: the claims
collapsed into hits. -/
def MatchQuery.hits (query : MatchQuery) (nodeClaims : List (List OwnerTier)) :
    List TierMatch :=
  (collapse query.tiersOfInterest ∅ 0 nodeClaims).values.filter
    fun m => decide (m.segments ≠ [])

/-- `find_matches` without interruption ends in the hits of the claims it walks
over. -/
lemma GroupShard.findMatches_eq (sh : GroupShard) (query : MatchQuery) :
    sh.findMatches query = (sh.nodeClaims query.localHashes).map query.hits := by
  unfold GroupShard.findMatches
  cases sh.nodeClaims query.localHashes with
  | none => rfl
  | some claims => rfl

/-! ## Schedules -/

/-- A call on a shard. -/
inductive Call where
  | store (call : StoreCall)
  | remove (call : RemoveCall)
  | query (query : MatchQuery)
deriving DecidableEq, Repr

/-- The owner in whose name the call writes. -/
def Call.owner : Call → Option ResidencyOwner
  | .store call => some call.owner
  | .remove call => some call.owner
  | .query _ => none

/-- The same call, run without interruption. -/
def Call.op : Call → Option ShardOp
  | .store call => some (.store call.owner call.tier call.parentSeq call.blocks)
  | .remove call => some (.remove call.owner call.tier call.seqHashes)
  | .query _ => none

/-- One running call. -/
inductive Thread where
  | store (call : StoreCall) (pc : StorePc)
  | remove (call : RemoveCall) (pc : RemovePc)
  | query (query : MatchQuery) (pc : QueryPc)
  | panicked
deriving DecidableEq, Repr

/-- A call before its first step. -/
def Call.start : Call → Thread
  | .store call => .store call .check
  | .remove call => .remove call (.next 0)
  | .query q => .query q .start

namespace Thread

/-- One step of a call. -/
def step (sh : GroupShard) : Thread → Option (GroupShard × Thread)
  | .store call pc => (call.step sh pc).map fun r => (r.1, .store call r.2)
  | .remove call pc => (call.step sh pc).map fun r => (r.1, .remove call r.2)
  | .query q pc => (q.step sh pc).map fun pc' => (sh, .query q pc')
  | .panicked => none

/-- The writers that have returned; queries need not have. -/
def writerDone : Thread → Bool
  | .store _ (.done _) => true
  | .remove _ .done => true
  | .query _ _ => true
  | _ => false

end Thread

/-- A shard and the calls that run on it. -/
structure Threads where
  sh : GroupShard
  threads : List Thread

namespace Threads

def start (sh : GroupShard) (calls : List Call) : Threads := ⟨sh, calls.map Call.start⟩

/-- Thread `i` takes its next step. -/
def step (s : Threads) (i : Nat) : Threads :=
  match s.threads[i]? with
  | none => s
  | some t =>
    match t.step s.sh with
    | none => { s with threads := s.threads.set i .panicked }
    | some (sh, t') => ⟨sh, s.threads.set i t'⟩

/-- Run a schedule: the thread of each entry takes one step. -/
def run (s : Threads) (schedule : List Nat) : Threads := schedule.foldl step s

@[simp] lemma run_snoc (s : Threads) (schedule i) :
    s.run (schedule ++ [i]) = (s.run schedule).step i := by
  simp [run]

end Threads

end VllmRouter.KvIndex
