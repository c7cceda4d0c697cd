import AuthKademlia.KBucket
import AuthKademlia.Lib.Execution
import Mathlib.Data.List.Sort

/-!
# The routing table

The table is a list of buckets.  `insert` calls itself after every split and the
source gives no bound on how often that happens, so the embedding takes the number
of calls allowed as its first argument: `insert fuel t node = some _` says that the
call returns within `fuel` nested calls, and a call that returns for no `fuel` does
not return at all.  `none` also stands for a panic, that is `u128` arithmetic in
`KBucket.split` leaving its type or an index outside the bucket list.

`find_neighbors` runs under a read lock but touches `last_updated` of the bucket
it starts from, so it returns the touched table beside its answer.

## Main definitions

* `RoutingTable.addContact`, `removeContact`, `findNeighbors`, `isNewNode` — the
  operations of the source.
* `TableTraverser` — the bucket-by-bucket iterator behind `findNeighbors`.
* `RoutingOp`, `RoutingTable.step` — one call on the table, for runs of calls.
-/

namespace AuthKademlia

/-- A list of buckets around the local node. -/
structure RoutingTable where
  node : Node
  ksize : ℕ
  buckets : List KBucket
  deriving DecidableEq

/-! ## Traversal -/

/-- The iterator state.  The three lists are popped at their end. -/
structure TableTraverser where
  currentNodes : List Node
  leftBuckets : List KBucket
  rightBuckets : List KBucket
  takeLeft : Bool

namespace TableTraverser

/-- Move to the next bucket: left if it is its turn, else right, else whatever is
left on the left. -/
def advance (tr : TableTraverser) : Option TableTraverser :=
  match tr.takeLeft, tr.leftBuckets.getLast? with
  | true, some b =>
      some { tr with
        currentNodes := b.nodes, leftBuckets := tr.leftBuckets.dropLast, takeLeft := false }
  | _, left =>
      match tr.rightBuckets.getLast? with
      | some b =>
          some { tr with
            currentNodes := b.nodes, rightBuckets := tr.rightBuckets.dropLast, takeLeft := true }
      | none =>
          left.map fun b =>
            { tr with currentNodes := b.nodes, leftBuckets := tr.leftBuckets.dropLast }

/-- Drain the current bucket, then advance; every advance uses up one bucket. -/
def nextWithin : ℕ → TableTraverser → Option (Node × TableTraverser)
  | fuel, tr =>
      match tr.currentNodes.getLast? with
      | some node => some (node, { tr with currentNodes := tr.currentNodes.dropLast })
      | none =>
          match fuel with
          | 0 => none
          | fuel + 1 => tr.advance.bind (nextWithin fuel)

/-- The next contact of the traversal. -/
def next (tr : TableTraverser) : Option (Node × TableTraverser) :=
  nextWithin (tr.leftBuckets.length + tr.rightBuckets.length) tr

/-- How many contacts the traversal can still yield. -/
def remaining (tr : TableTraverser) : ℕ :=
  tr.currentNodes.length + ((tr.leftBuckets ++ tr.rightBuckets).map fun b => b.nodes.length).sum

end TableTraverser

/-- `sort_unstable_by_key` on the distance; the order of equal distances is not
specified by the source. -/
def sortByDistance (l : List (ℕ × Node)) : List (ℕ × Node) :=
  l.insertionSort fun a b => a.1 ≤ b.1

namespace RoutingTable

/-! ## The operations -/

def new (node : Node) (ksize now : ℕ) : RoutingTable :=
  ⟨node, ksize, [KBucket.new 0 u128Max ksize now]⟩

/-- Position of the first bucket covering `longId`, else the last position. -/
def bucketIndexFor (t : RoutingTable) (longId : ℕ) : ℕ :=
  (t.buckets.findIdx? fun b => b.covers longId).getD (t.buckets.length - 1)

/-- Replace the bucket at `idx` by its two halves. -/
def splitBucket (t : RoutingTable) (idx now : ℕ) : Option RoutingTable :=
  (t.buckets[idx]?).bind fun b =>
    (b.split now).map fun halves =>
      { t with buckets := t.buckets.take idx ++ halves.1 :: halves.2 :: t.buckets.drop (idx + 1) }

/-- The split rule: the bucket covers the local node or its depth is not a
multiple of five. -/
def mustSplit (t : RoutingTable) (b : KBucket) : Bool :=
  b.covers t.node.longId || !(b.depth % 5 == 0)

/-- Insert a node, splitting as long as the rule asks for it.  The first argument
bounds the depth of the recursion. -/
def insert (now : ℕ) : ℕ → RoutingTable → Node → Option (Option Node × RoutingTable)
  | 0, _, _ => none
  | fuel + 1, t, node =>
      let idx := t.bucketIndexFor node.longId
      match t.buckets[idx]? with
      | none => none
      | some b =>
          let (added, b') := b.addNode node
          let t' := { t with buckets := t.buckets.set idx b' }
          if added then some (none, t')
          else if t'.mustSplit b' then
            (t'.splitBucket idx now).bind fun t'' => insert now fuel t'' node
          else some (b'.head, t')

/-- Add a contact; the local node is ignored.  An answer `some lru` asks the caller
to ping `lru`. -/
def addContact (now fuel : ℕ) (t : RoutingTable) (node : Node) :
    Option (Option Node × RoutingTable) :=
  if node.id = t.node.id then some (none, t) else insert now fuel t node

/-- Apply `f` to the bucket responsible for `longId`. -/
def modifyBucket (t : RoutingTable) (longId : ℕ) (f : KBucket → KBucket) : RoutingTable :=
  { t with buckets := t.buckets.modify (t.bucketIndexFor longId) f }

def removeContact (t : RoutingTable) (node : Node) : RoutingTable :=
  t.modifyBucket node.longId fun b => b.removeNode node

/-- The node is not a primary contact of its bucket. -/
def isNewNode (t : RoutingTable) (node : Node) : Bool :=
  !((t.buckets[t.bucketIndexFor node.longId]?).any fun b => b.contains node)

/-- Start a traversal at the bucket of `target`.  The buckets on the left are
reversed and popped at the end like the ones on the right. -/
def traverser (t : RoutingTable) (target : Node) : TableTraverser :=
  let idx := t.bucketIndexFor target.longId
  { currentNodes := ((t.buckets[idx]?).map KBucket.nodes).getD []
    leftBuckets := (t.buckets.take idx).reverse
    rightBuckets := (t.buckets.drop (idx + 1)).reverse
    takeLeft := true }

/-- The collecting loop of `find_neighbors`: skip the target and the excluded node,
stop at `ksize` candidates. -/
def collectNeighbors (ksize : ℕ) (target : Node) (exclude : Option Node) :
    ℕ → TableTraverser → List (ℕ × Node) → List (ℕ × Node)
  | 0, _, acc => acc
  | fuel + 1, tr, acc =>
      match tr.next with
      | none => acc
      | some (neighbor, tr') =>
          if neighbor.id = target.id ∨ (exclude.any fun ex => neighbor.id == ex.id) then
            collectNeighbors ksize target exclude fuel tr' acc
          else
            let acc' := acc ++ [(neighbor.distanceTo target, neighbor)]
            if acc'.length = ksize then acc'
            else collectNeighbors ksize target exclude fuel tr' acc'

/-- Up to `ksize` contacts near `target`, sorted by distance, and the table with
the central bucket touched. -/
def findNeighbors (t : RoutingTable) (now : ℕ) (target : Node) (exclude : Option Node) :
    List Node × RoutingTable :=
  let tr := t.traverser target
  let found := collectNeighbors t.ksize target exclude tr.remaining tr []
  ((sortByDistance found).map Prod.snd,
    t.modifyBucket target.longId fun b => b.touchLastUpdated now)

end RoutingTable

/-! ## Runs of calls -/

/-- One call on a routing table, at time `now`. -/
inductive RoutingOp
  | addContact (now fuel : ℕ) (node : Node)
  | removeContact (node : Node)
  | findNeighbors (now : ℕ) (target : Node) (exclude : Option Node)

/-- The table after one call, if the call returns. -/
def RoutingTable.step (t : RoutingTable) : RoutingOp → Option RoutingTable
  | .addContact now fuel node => (t.addContact now fuel node).map Prod.snd
  | .removeContact node => some (t.removeContact node)
  | .findNeighbors now target exclude => some (t.findNeighbors now target exclude).2

end AuthKademlia
