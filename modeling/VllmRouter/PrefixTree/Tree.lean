import Mathlib.Algebra.GroupWithZero.Nat
import VllmRouter.Lib.Dict
import VllmRouter.Lib.Select
import VllmRouter.Lib.Traversal
import VllmRouter.PrefixTree.Text

/-!
# The multi-tenant prefix tree (`tree.rs`)

The nodes live in an arena and refer to each other by their index; the root is
node 0 and a detached node stays in the arena. The functions follow the source
for calls that do not overlap. They return nothing where the source would panic
(a slice off a character boundary, an `unwrap`), and where a loop has not ended
within its fuel; the modules above this one show that neither happens.

- Hash maps are iterated, and heap entries with equal timestamps popped, in an
  unspecified order: the calls that depend on it take a `MapOrder`.
- `EPOCH_COUNTER` is a static that all trees of the process share. A call takes
  its value and returns the new one; `elapse` is what the other trees do to it.
- The locks of `insert_capped` and the log lines are left out.
-/

namespace VllmRouter.PrefixTree

abbrev TenantId := String

abbrev NodeRef := Nat

structure Node where
  /-- Children by the first character of their text. -/
  children : Dict Char NodeRef
  text : NodeText
  /-- The tenants of the node and the epoch of their last access. -/
  tenantLastAccessTime : Dict TenantId UInt64
  parent : Option NodeRef
  /-- The tenant of the last match, which may be stale. -/
  lastTenant : Option TenantId

namespace Node

def root : Node := ⟨∅, NodeText.empty, ∅, none, none⟩

/-- `tenant_last_access_time.contains_key`. -/
def lists (n : Node) (tenant : TenantId) : Bool := (n.tenantLastAccessTime.lookup tenant).isSome

/-- `tenant_last_access_time.insert`. -/
def touch (n : Node) (tenant : TenantId) (epoch : UInt64) : Node :=
  { n with tenantLastAccessTime := n.tenantLastAccessTime.insert tenant epoch }

end Node

structure Tree where
  nodes : List Node
  tenantCharCount : Dict TenantId Nat

structure PrefixMatchResult where
  tenant : TenantId
  matchedCharCount : Nat
  inputCharCount : Nat
deriving DecidableEq, Repr

structure EvictionEntry where
  timestamp : UInt64
  tenant : TenantId
  node : NodeRef
deriving DecidableEq, Repr

/-- How the maps that a call goes through are ordered, and in which order the heap
returns entries with equal timestamps, round by round. -/
structure MapOrder where
  children : NodeRef → List NodeRef → List NodeRef
  tenants : NodeRef → List TenantId → List TenantId
  ties : Nat → List EvictionEntry → List EvictionEntry
  children_perm : ∀ i l, (children i l).Perm l
  tenants_perm : ∀ i l, (tenants i l).Perm l
  ties_perm : ∀ i l, (ties i l).Perm l

/-- Maps in entry order, ties in the order of the pushes. -/
def MapOrder.entryOrder : MapOrder where
  children _ l := l
  tenants _ l := l
  ties _ l := l
  children_perm _ l := .refl l
  tenants_perm _ l := .refl l
  ties_perm _ l := .refl l

namespace Tree

def rootRef : NodeRef := 0

def new : Tree := ⟨[Node.root], ∅⟩

variable (t : Tree) (order : MapOrder)

/-- The node behind a reference. References always point into the arena. -/
def node (i : NodeRef) : Node := (t.nodes[i]?).getD Node.root

def update (i : NodeRef) (f : Node → Node) : Tree :=
  { t with nodes := t.nodes.set i (f (t.node i)) }

/-- `Arc::new`: the new node is the last of the arena. -/
def alloc (n : Node) : Tree := { t with nodes := t.nodes ++ [n] }

/-- Add `chars` to a tenant's count
(`entry(..).and_modify(|count| *count += chars).or_insert(chars)`). -/
def addChars (tenant : TenantId) (chars : Nat) : Tree :=
  { t with tenantCharCount := t.tenantCharCount.upsert tenant 0 (· + chars) }

/-- Take `chars` from a tenant's count, if it has one
(`and_modify(|count| *count = count.saturating_sub(chars))`). -/
def subChars (tenant : TenantId) (chars : Nat) : Tree :=
  { t with tenantCharCount := t.tenantCharCount.modify tenant (· - chars) }

/-! ## Insertion -/

/-- Attach the tenant to an inner node of `chars` characters, unless it is there. -/
def ensureTenant (i : NodeRef) (tenant : TenantId) (chars : Nat) : Tree :=
  if (t.node i).lists tenant then t
  else (t.addChars tenant chars).update i (·.touch tenant 0)

inductive InsertStep where
  | done
  | continue (nextPrev : NodeRef) (advanceChars : Nat)

/-- The new node of a tenant that is alone with the rest of its text. -/
def leafNode (epoch : UInt64) (tenant : TenantId) (prev : NodeRef) (remaining : Text) : Node where
  children := ∅
  text := NodeText.new remaining
  tenantLastAccessTime := (∅ : Dict TenantId UInt64).insert tenant epoch
  parent := some prev
  lastTenant := some tenant

/-- No child starts with the first remaining character: the rest of the text becomes
a leaf. -/
def insertLeaf (epoch : UInt64) (tenant : TenantId) (prev : NodeRef) (remaining : Text)
    (firstChar : Char) : Tree :=
  ((t.addChars tenant remaining.length).alloc (leafNode epoch tenant prev remaining)).update prev
    fun n => { n with children := n.children.insert firstChar t.nodes.length }

/-- The new node above a split one, with its tenants. -/
def upperNode (m : Node) (prev matched : NodeRef) (firstNewChar : Char)
    (matchedText : NodeText) : Node where
  children := (∅ : Dict Char NodeRef).insert firstNewChar matched
  text := matchedText
  tenantLastAccessTime := m.tenantLastAccessTime
  parent := some prev
  lastTenant := m.lastTenant

/-- The split node with the rest of its text. -/
def lowerNode (m : Node) (newNode : NodeRef) (contractedText : NodeText) : Node :=
  { m with text := contractedText, parent := some newNode }

/-- Put a new node with the text `matchedText` between `prev` and the node `matched`,
which keeps `contractedText`. -/
def splitNode (prev matched : NodeRef) (firstChar firstNewChar : Char)
    (matchedText contractedText : NodeText) : Tree :=
  ((t.alloc (upperNode (t.node matched) prev matched firstNewChar matchedText)).update prev
    fun n => { n with children := n.children.insert firstChar t.nodes.length }).update matched
    fun n => lowerNode n t.nodes.length contractedText

/-- One round of the loop of `insert`. -/
def insertStep (epoch : UInt64) (tenant : TenantId) (prev : NodeRef) (remaining : Text)
    (firstChar : Char) : Option (Tree × InsertStep) :=
  match (t.node prev).children.lookup firstChar with
  | none => some (t.insertLeaf epoch tenant prev remaining firstChar, .done)
  | some matched =>
    let matchedNodeText := (t.node matched).text
    let sharedCount := sharedPrefixCount remaining matchedNodeText.text
    if sharedCount < matchedNodeText.charCount then do
      let (matchedText, contractedText) ← matchedNodeText.splitAtChar sharedCount
      let firstNewChar ← contractedText.firstChar
      let newNode := t.nodes.length
      let t₁ := t.splitNode prev matched firstChar firstNewChar matchedText contractedText
      some (t₁.ensureTenant newNode tenant sharedCount, .continue newNode sharedCount)
    else
      some (t.ensureTenant matched tenant matchedNodeText.charCount,
        .continue matched sharedCount)

def insertLoop (epoch : UInt64) (tenant : TenantId) : Nat → Tree → NodeRef → Text → Option Tree
  | 0, _, _, _ => none
  | _ + 1, t, prev, [] => some (t.update prev (·.touch tenant epoch))
  | fuel + 1, t, prev, firstChar :: rest => do
    let (t, step) ← t.insertStep epoch tenant prev (firstChar :: rest) firstChar
    match step with
    | .done => some t
    | .continue nextPrev advanceChars =>
      insertLoop epoch tenant fuel t nextPrev (← advanceByChars (firstChar :: rest) advanceChars)

/-- Insert a text for a tenant. -/
def insert (epoch : UInt64) (text : Text) (tenant : TenantId) :
    Option (Tree × UInt64) := do
  let t₁ := t.update rootRef fun n =>
    { n with tenantLastAccessTime := n.tenantLastAccessTime.upsert tenant 0 id }
  let t₂ := t₁.addChars tenant 0
  let t₃ ← insertLoop epoch tenant (text.length + 1) t₂ rootRef text
  some (t₃, epoch + 1)

/-- Insert unless the tenant already sits at its budget, and say whether the insert
happened. -/
def insertCapped (epoch : UInt64) (text : Text) (tenant : TenantId) (maxChars : Nat) :
    Option (Tree × UInt64 × Bool) :=
  if maxChars = 0 then some (t, epoch, false)
  else if ((t.tenantCharCount.lookup tenant).any fun count => decide (maxChars ≤ count)) then
    some (t, epoch, false)
  else do
    let (t, epoch) ← t.insert epoch text tenant
    some (t, epoch, true)

/-! ## Matching -/

/-- The loop of the prefix matches. It goes through the nodes that are `visible` and
returns the number of matched characters and the last node. -/
def walk (t : Tree) (visible : Node → Bool) : Nat → NodeRef → Text → Nat → Option (Nat × NodeRef)
  | 0, _, _, _ => none
  | _ + 1, prev, [], matchedChars => some (matchedChars, prev)
  | fuel + 1, prev, firstChar :: rest, matchedChars =>
    match (t.node prev).children.lookup firstChar with
    | none => some (matchedChars, prev)
    | some matched =>
      if visible (t.node matched) then
        let matchedText := (t.node matched).text
        let sharedCount := sharedPrefixCount (firstChar :: rest) matchedText.text
        if sharedCount = matchedText.charCount then do
          let remaining ← advanceByChars (firstChar :: rest) sharedCount
          walk t visible fuel matched remaining (matchedChars + sharedCount)
        else some (matchedChars + sharedCount, matched)
      else some (matchedChars, prev)

/-- The tenant that a match reports at a node: the cached one if the node still lists
it, otherwise any, and `empty` where there is none. -/
def matchTenant (n : Node) (order : List TenantId → List TenantId) : TenantId :=
  match n.lastTenant.filter n.lists with
  | some tenant => tenant
  | none => ((order n.tenantLastAccessTime.keys).head?).getD "empty"

/-- Prefix matching over all tenants. -/
def prefixMatchWithCounts (epoch : UInt64) (order : MapOrder) (text : Text) :
    Option (Tree × UInt64 × PrefixMatchResult) := do
  let (matchedChars, curr) ← t.walk (fun _ => true) (text.length + 1) rootRef text 0
  let tenant := matchTenant (t.node curr) (order.tenants curr)
  -- the cache keeps a tenant that is still listed, and gets the reported one otherwise
  let t₁ := t.update curr fun n => { n with lastTenant := some tenant }
  let t₂ := if epoch &&& 7 = 0 then t₁.update curr (·.touch tenant epoch) else t₁
  some (t₂, epoch + 1, ⟨tenant, matchedChars, text.length⟩)

/-- Legacy interface: the matched text and the tenant. -/
def prefixMatch (epoch : UInt64) (order : MapOrder) (text : Text) :
    Option (Tree × UInt64 × Text × TenantId) := do
  let (t, epoch, result) ← t.prefixMatchWithCounts epoch order text
  let matchedText ← takeChars text result.matchedCharCount
  some (t, epoch, matchedText, result.tenant)

/-- The matched characters and the last node of one tenant. -/
def prefixMatchTenantState (text : Text) (tenant : TenantId) : Option (Nat × NodeRef) :=
  t.walk (fun n => n.lists tenant) (text.length + 1) rootRef text 0

/-- Prefix matching for one tenant. -/
def prefixMatchTenant (epoch : UInt64) (text : Text) (tenant : TenantId) :
    Option (Tree × UInt64 × Text) := do
  let (matchedChars, curr) ← t.prefixMatchTenantState text tenant
  let matchedText ← takeChars text matchedChars
  if (t.node curr).lists tenant then
    some (t.update curr (·.touch tenant epoch), epoch + 1, matchedText)
  else some (t, epoch, matchedText)

/-- One tenant's matched character count; the tree stays as it is. -/
def prefixMatchTenantCharCount (text : Text) (tenant : TenantId) : Option Nat :=
  (t.prefixMatchTenantState text tenant).map Prod.fst

/-! ## Traversal -/

def childrenOf (i : NodeRef) : List NodeRef := (t.node i).children.values

/-- The nodes in the order in which a depth-first traversal from the root meets
them. -/
def traversal : Option (List NodeRef) :=
  -- the children are pushed in iteration order, so the last one is popped first
  depthFirst (fun i => (order.children i (t.childrenOf i)).reverse) t.nodes.length [rootRef]

/-- The node lists the tenant and none of its children does. -/
def isLeafFor (i : NodeRef) (tenant : TenantId) : Bool :=
  (t.node i).lists tenant && !(t.childrenOf i).any fun c => (t.node c).lists tenant

/-- The tenants for which a node is a leaf. -/
def leafOf (i : NodeRef) : List TenantId :=
  let own := (t.node i).tenantLastAccessTime.keys.foldl
    (fun m tenant => m.insert tenant true) (∅ : Dict TenantId Bool)
  let candidates := (t.childrenOf i).foldl (fun m c =>
    (t.node c).tenantLastAccessTime.keys.foldl (fun m tenant => m.insert tenant false) m) own
  order.tenants i ((candidates.entries.filter Sigma.snd).map Sigma.fst)

/-! ## Removal of listings -/

/-- Remove a tenant from a node, and the node from its parent when nothing is left
of it. -/
def unlist (i : NodeRef) (tenant : TenantId) : Tree :=
  let t₁ := t.update i fun n =>
    { n with tenantLastAccessTime := n.tenantLastAccessTime.erase tenant }
  if (t₁.node i).children.entries = [] ∧ (t₁.node i).tenantLastAccessTime.entries = [] then
    match (t.node i).parent, (t.node i).text.firstChar with
    | some parent, some firstChar =>
      t₁.update parent fun n => { n with children := n.children.erase firstChar }
    | _, _ => t₁
  else t₁

/-- The parent of a node, if it has become a leaf for the tenant. -/
def newLeaf (i : NodeRef) (tenant : TenantId) : Option NodeRef :=
  (t.node i).parent.filter fun parent => t.isLeafFor parent tenant

/-- The heap entry for a listing. -/
def evictionEntry (tenant : TenantId) (i : NodeRef) : Option EvictionEntry :=
  ((t.node i).tenantLastAccessTime.lookup tenant).map fun timestamp => ⟨timestamp, tenant, i⟩

/-- `pop` on the heap: an entry with the least timestamp. -/
def popEntry (ties : List EvictionEntry → List EvictionEntry) (pq : List EvictionEntry) :
    Option (EvictionEntry × List EvictionEntry) :=
  match sortBy (fun a b => compare a.timestamp.toNat b.timestamp.toNat) (ties pq) with
  | [] => none
  | entry :: rest => some (entry, rest)

/-- One round of the eviction: what becomes of the tree, and the entries to push. -/
def evictEntry (maxSize : Nat) (entry : EvictionEntry) : Tree × List EvictionEntry :=
  if (t.tenantCharCount.lookup entry.tenant).any fun usedSize => decide (usedSize ≤ maxSize) then
    (t, [])
  else if t.isLeafFor entry.node entry.tenant then
    let nodeLen := (t.node entry.node).text.charCount
    let t := (t.subChars entry.tenant nodeLen).unlist entry.node entry.tenant
    (t, ((t.newLeaf entry.node entry.tenant).bind (t.evictionEntry entry.tenant)).toList)
  else (t, [])

def evictLoop (order : MapOrder) (maxSize : Nat) : Nat → Tree → List EvictionEntry → Option Tree
  | 0, _, _ => none
  | fuel + 1, t, pq =>
    match popEntry (order.ties fuel) pq with
    | none => some t
    | some (entry, pq) =>
      evictLoop order maxSize fuel (t.evictEntry maxSize entry).1
        ((t.evictEntry maxSize entry).2 ++ pq)

/-- How often a tenant is listed at a node. -/
def listings : Nat := (t.nodes.map fun n => n.tenantLastAccessTime.keys.length).sum

/-- Evict leaves of every tenant that is above the limit, least recently used first. -/
def evictTenantBySize (maxSize : Nat) : Option Tree := do
  let nodes ← t.traversal order
  let pq := nodes.flatMap fun i =>
    (t.leafOf order i).filterMap fun tenant => t.evictionEntry tenant i
  evictLoop order maxSize (pq.length + t.listings + 1) t pq

def removeLoop (tenant : TenantId) : Nat → Tree → List NodeRef → Option Tree
  | 0, _, _ => none
  | _ + 1, t, [] => some t
  | fuel + 1, t, curr :: queue =>
    let t := t.unlist curr tenant
    removeLoop tenant fuel t (queue ++ (t.newLeaf curr tenant).toList)

/-- Remove a tenant from every node, from its leaves upwards, and from the counts. -/
def removeTenant (tenant : TenantId) : Option Tree := do
  let nodes ← t.traversal order
  let queue := nodes.filter fun i => t.isLeafFor i tenant
  let t ← removeLoop tenant (queue.length + t.listings + 1) t queue
  some { t with tenantCharCount := t.tenantCharCount.erase tenant }

/-- The sizes per tenant, computed from the nodes. -/
def getUsedSizePerTenant : Option (Dict TenantId Nat) := do
  let nodes ← t.traversal order
  some (nodes.foldl (fun sizes i =>
    (t.node i).tenantLastAccessTime.keys.foldl
      (fun sizes tenant => sizes.upsert tenant 0 (· + (t.node i).text.charCount)) sizes) ∅)

end Tree

/-! ## Histories -/

/-- A tree and the epoch counter. -/
structure TreeState where
  tree : Tree
  epoch : UInt64

inductive Op where
  | insert (text : Text) (tenant : TenantId)
  | insertCapped (text : Text) (tenant : TenantId) (maxChars : Nat)
  | prefixMatchWithCounts (text : Text) (order : MapOrder)
  | prefixMatchTenant (text : Text) (tenant : TenantId)
  | evictTenantBySize (maxSize : Nat) (order : MapOrder)
  | removeTenant (tenant : TenantId) (order : MapOrder)
  /-- Other trees take `n` epochs. -/
  | elapse (n : Nat)

namespace TreeState

def init (epoch : UInt64) : TreeState := ⟨Tree.new, epoch⟩

def step (s : TreeState) : Op → Option TreeState
  | .insert text tenant => do
    let (t, epoch) ← s.tree.insert s.epoch text tenant
    some ⟨t, epoch⟩
  | .insertCapped text tenant maxChars => do
    let (t, epoch, _) ← s.tree.insertCapped s.epoch text tenant maxChars
    some ⟨t, epoch⟩
  | .prefixMatchWithCounts text order => do
    let (t, epoch, _) ← s.tree.prefixMatchWithCounts s.epoch order text
    some ⟨t, epoch⟩
  | .prefixMatchTenant text tenant => do
    let (t, epoch, _) ← s.tree.prefixMatchTenant s.epoch text tenant
    some ⟨t, epoch⟩
  | .evictTenantBySize maxSize order => do
    let t ← s.tree.evictTenantBySize order maxSize
    some { s with tree := t }
  | .removeTenant tenant order => do
    let t ← s.tree.removeTenant order tenant
    some { s with tree := t }
  | .elapse n => some { s with epoch := s.epoch + UInt64.ofNat n }

/-- A sequential history. -/
def run (s : TreeState) (ops : List Op) : Option TreeState := ops.foldlM step s

end TreeState

end VllmRouter.PrefixTree
