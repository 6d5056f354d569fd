import CertTrans.Merkletree.Basic

/-!
The `MerkleTree` class of `merkle_tree.cc`.

A tree keeps all its levels, `tree_[0]` holding the leaf hashes.  Leaves are
appended without touching the upper levels; the levels are brought up to date
lazily, by `UpdateToSnapshot`, only as far as a query needs, and
`leaves_processed_` records how many leaves the upper levels reflect.  Past
snapshots are answered from the lazily evaluated levels by rehashing the
right spine (`RecomputePastSnapshot`).

Each level of `tree_` is a `std::string` concatenating `DigestSize`-byte
nodes (`PushBack` asserts the size); it is kept here as the list of those
nodes, and `Node`, `LastNode`, `PopBack` and `PushBack` act on that list.
-/

namespace CertTrans

open MerkleTreeMath

structure MerkleTree where
  tree : List (List ByteString)
  leavesProcessed : Nat
  levelCount : Nat
deriving DecidableEq, Repr

namespace MerkleTree

def empty : MerkleTree := ⟨[], 0, 0⟩

section Storage

variable (t : MerkleTree)

def lazyLevelCount : Nat := t.tree.length

def nodeCount (level : Nat) : Nat := (t.tree.getD level []).length

def leafCount : Nat := if t.tree = [] then 0 else t.nodeCount 0

def node (level index : Nat) : ByteString := (t.tree.getD level []).getD index []

/-- `Root()`: the top level, read as one string. -/
def root : ByteString := (t.tree.getLastD []).flatten

def lastNode (level : Nat) : ByteString := (t.tree.getD level []).getLastD []

def popBack (level : Nat) : MerkleTree := { t with tree := t.tree.modify level List.dropLast }

def pushBack (level : Nat) (node : ByteString) : MerkleTree :=
  { t with tree := t.tree.modify level (· ++ [node]) }

def addLevel : MerkleTree := { t with tree := t.tree ++ [[]] }

/-- `LeafHash(leaf)`: the leaf hash at a 1-based index, empty when out of range. -/
def leafHash (leaf : Nat) : ByteString :=
  if leaf = 0 ∨ leaf > t.leafCount then [] else t.node 0 (leaf - 1)

end Storage

/-- `AddLeafHash`: append a leaf hash without updating the upper levels;
returns the new leaf count. -/
def addLeafHash (t : MerkleTree) (hash : ByteString) : Nat × MerkleTree :=
  let t := if t.lazyLevelCount = 0 then { t.addLevel with leavesProcessed := 1 } else t
  let t := t.pushBack 0 hash
  let leafCount := t.leafCount
  let t := if isPowerOfTwoPlusOne leafCount then { t with levelCount := t.levelCount + 1 }
    else t
  (leafCount, t)

variable (th : TreeHasher)

/-- `AddLeaf`: append the leaf hash of `data`. -/
def addLeaf (t : MerkleTree) (data : ByteString) : Nat × MerkleTree :=
  t.addLeafHash (th.hashLeaf data)

def pushParents (level j lastNode : Nat) (t : MerkleTree) : MerkleTree :=
  if j < lastNode then
    pushParents level (j + 2) lastNode
      (t.pushBack (level + 1) (th.hashChildren (t.node level j) (t.node level (j + 1))))
  else t
termination_by lastNode - j

def prepareParentLevel (level firstNode : Nat) (t : MerkleTree) : MerkleTree :=
  if t.lazyLevelCount ≤ level + 1 then t.addLevel
  else if t.nodeCount (level + 1) = parent firstNode + 1 then t.popBack (level + 1)
  else t

def dummyPropagate (level lastNode : Nat) (t : MerkleTree) : MerkleTree :=
  if !isRightChild lastNode then t.pushBack (level + 1) (t.node level lastNode) else t

def updateLevel (level firstNode lastNode : Nat) (t : MerkleTree) : MerkleTree :=
  -- `first_node & ~1`: start with a left sibling
  dummyPropagate level lastNode
    (pushParents th level (firstNode / 2 * 2) lastNode (prepareParentLevel level firstNode t))

def updateLevels (level firstNode lastNode : Nat) (t : MerkleTree) : MerkleTree :=
  if lastNode = 0 then t
  else
    updateLevels (level + 1) (parent firstNode) (parent lastNode)
      (updateLevel th level firstNode lastNode t)
termination_by lastNode
decreasing_by simp only [parent_eq]; omega

/-- `UpdateToSnapshot`: bring the levels up to date with the first `snapshot`
leaves and return the root. -/
def updateToSnapshot (t : MerkleTree) (snapshot : Nat) : ByteString × MerkleTree :=
  if snapshot = 0 then (th.hashEmpty, t)
  else if snapshot = 1 then (t.node 0 0, t)
  else if snapshot = t.leavesProcessed then (t.root, t)
  else
    let t := updateLevels th 0 t.leavesProcessed (snapshot - 1) t
    let t := { t with leavesProcessed := snapshot }
    (t.root, t)

def climbRightSpine (t : MerkleTree) (nodeLevel level lastNode : Nat)
    (node : Option ByteString) : Nat × Nat × Option ByteString :=
  if isRightChild lastNode then
    let node := if node.isSome ∧ nodeLevel = level then some (t.node level lastNode) else node
    climbRightSpine t nodeLevel (level + 1) (parent lastNode) node
  else (level, lastNode, node)
termination_by lastNode
decreasing_by
  simp only [parent_eq]
  have : lastNode % 2 = 1 := (isRightChild_eq_true_iff _).mp (by assumption)
  omega

def rehashRightSpine (t : MerkleTree) (nodeLevel level lastNode : Nat)
    (subtreeRoot : ByteString) (node : Option ByteString) : ByteString × Option ByteString :=
  if lastNode = 0 then (subtreeRoot, node)
  else
    let subtreeRoot := if isRightChild lastNode then
        th.hashChildren (t.node level (lastNode - 1)) subtreeRoot
      else subtreeRoot
    let node := if node.isSome ∧ nodeLevel = level + 1 then some subtreeRoot else node
    rehashRightSpine t nodeLevel (level + 1) (parent lastNode) subtreeRoot node
termination_by lastNode
decreasing_by simp only [parent_eq]; omega

/-- `RecomputePastSnapshot(snapshot, node_level, node)`: the root of a
snapshot no later than `leaves_processed_`; `node` is `none` for a null
pointer and otherwise receives the last node of level `nodeLevel`. -/
def recomputePastSnapshot (t : MerkleTree) (snapshot nodeLevel : Nat)
    (node : Option ByteString) : ByteString × Option ByteString :=
  let lastNode := snapshot - 1
  if snapshot = t.leavesProcessed then
    let node := if node.isSome ∧ t.lazyLevelCount > nodeLevel then
        (if nodeLevel > 0 then some (t.lastNode nodeLevel) else some (t.node nodeLevel lastNode))
      else node
    (t.root, node)
  else
    let (level, lastNode, node) := climbRightSpine t nodeLevel 0 lastNode node
    let subtreeRoot := t.node level lastNode
    let node := if node.isSome ∧ nodeLevel = level then some subtreeRoot else node
    rehashRightSpine th t nodeLevel level lastNode subtreeRoot node

def pathLoop (t : MerkleTree) (snapshot node level lastNode : Nat) : List ByteString :=
  if lastNode = 0 then []
  else
    let sibling := MerkleTreeMath.sibling node
    let here := if sibling < lastNode then [t.node level sibling]
      else if sibling = lastNode then
        [((recomputePastSnapshot th t snapshot level (some [])).2).getD []]
      else []
    here ++ pathLoop t snapshot (parent node) (level + 1) (parent lastNode)
termination_by lastNode
decreasing_by simp only [parent_eq]; omega

def pathFromNodeToRootAtSnapshot (t : MerkleTree) (node level snapshot : Nat) :
    List ByteString × MerkleTree :=
  if snapshot = 0 then ([], t)
  else
    let lastNode := (snapshot - 1) >>> level
    if level ≥ t.levelCount ∨ node > lastNode ∨ snapshot > t.leafCount then ([], t)
    else
      let t := if snapshot > t.leavesProcessed then (updateToSnapshot th t snapshot).2 else t
      (pathLoop th t snapshot node level lastNode, t)

def rootAtSnapshot (t : MerkleTree) (snapshot : Nat) : ByteString × MerkleTree :=
  if snapshot = 0 then (th.hashEmpty, t)
  else if snapshot > t.leafCount then ([], t)
  else if snapshot ≥ t.leavesProcessed then updateToSnapshot th t snapshot
  else ((recomputePastSnapshot th t snapshot 0 none).1, t)

def currentRoot (t : MerkleTree) : ByteString × MerkleTree := rootAtSnapshot th t t.leafCount

/-- `PathToRootAtSnapshot(leaf, snapshot)`, with a 1-based leaf index. -/
def pathToRootAtSnapshot (t : MerkleTree) (leaf snapshot : Nat) :
    List ByteString × MerkleTree :=
  if leaf > snapshot ∨ snapshot > t.leafCount ∨ leaf = 0 then ([], t)
  else pathFromNodeToRootAtSnapshot th t (leaf - 1) 0 snapshot

def pathToCurrentRoot (t : MerkleTree) (leaf : Nat) : List ByteString × MerkleTree :=
  pathToRootAtSnapshot th t leaf t.leafCount

def climbRightChildren (node level : Nat) : Nat × Nat :=
  if isRightChild node then climbRightChildren (parent node) (level + 1) else (node, level)
termination_by node
decreasing_by
  simp only [parent_eq]
  have : node % 2 = 1 := (isRightChild_eq_true_iff _).mp (by assumption)
  omega

def snapshotConsistency (t : MerkleTree) (snapshot1 snapshot2 : Nat) :
    List ByteString × MerkleTree :=
  if snapshot1 = 0 ∨ snapshot1 ≥ snapshot2 ∨ snapshot2 > t.leafCount then ([], t)
  else
    let (node, level) := climbRightChildren (snapshot1 - 1) 0
    let t := if snapshot2 > t.leavesProcessed then (updateToSnapshot th t snapshot2).2 else t
    let proof := if node ≠ 0 then [t.node level node] else []
    let (path, t) := pathFromNodeToRootAtSnapshot th t node level snapshot2
    (proof ++ path, t)

inductive Op
  | addLeaf (data : ByteString)
  | addLeafHash (hash : ByteString)
  | currentRoot
  | rootAtSnapshot (snapshot : Nat)
  | pathToCurrentRoot (leaf : Nat)
  | pathToRootAtSnapshot (leaf snapshot : Nat)
  | snapshotConsistency (snapshot1 snapshot2 : Nat)
deriving DecidableEq, Repr

def step (t : MerkleTree) : Op → MerkleTree
  | .addLeaf data => (t.addLeaf th data).2
  | .addLeafHash hash => (t.addLeafHash hash).2
  | .currentRoot => (currentRoot th t).2
  | .rootAtSnapshot snapshot => (rootAtSnapshot th t snapshot).2
  | .pathToCurrentRoot leaf => (pathToCurrentRoot th t leaf).2
  | .pathToRootAtSnapshot leaf snapshot => (pathToRootAtSnapshot th t leaf snapshot).2
  | .snapshotConsistency snapshot1 snapshot2 => (snapshotConsistency th t snapshot1 snapshot2).2

def run (ops : List Op) : MerkleTree := ops.foldl (step th) empty

def addedLeaves : List Op → List ByteString
  | [] => []
  | .addLeaf data :: ops => th.hashLeaf data :: addedLeaves ops
  | .addLeafHash hash :: ops => hash :: addedLeaves ops
  | _ :: ops => addedLeaves ops

end MerkleTree

end CertTrans
