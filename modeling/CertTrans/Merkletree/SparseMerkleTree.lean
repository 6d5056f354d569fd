import CertTrans.Merkletree.Basic

/-!
`SparseMerkleTree` of `sparse_merkle_tree.cc`: a tree of depth
`kDigestSizeBits` whose leaves are addressed by 256-bit paths.

A leaf is stored at the first free node along its path; when that node already
holds another leaf, the other leaf is pushed one level down and the node
becomes internal.  Internal nodes cache their hash, cleared along the path of
every `SetLeaf`.  A node is found by its index within its level, and the
index is an `IndexType`, a 64-bit integer: from depth 64 on, the index is the
last 64 bits of the path prefix only, and distinct subtrees share indices.

`CHECK`, `LOG(FATAL)` and an uncaught `std::out_of_range` end the process;
they are the `Except.error` results here, with the failed condition as text.
-/

namespace CertTrans

namespace SparseMerkleTree

def kDigestSizeBits : Nat := 256

abbrev Path := Vector UInt8 32

/-- `IndexType`: the position of a node within its level. -/
abbrev IndexType := UInt64

/-- `PathBit(path, bit)`: the `bit`th most significant bit. -/
def pathBit (path : Path) (bit : Nat) : Except String Nat :=
  if h : bit < 32 * 8 then
    .ok (if path[bit / 8].toNat &&& (1 <<< (7 - bit % 8)) = 0 then 0 else 1)
  else .error "Check failed: bit < path.size() * 8"

inductive TreeNode
  | internal (hash : ByteString)
  | leaf (path : Path) (hash : ByteString)
deriving DecidableEq, Repr

abbrev Level := List (IndexType × TreeNode)

/-- `emplace`: `none` when the index is taken. -/
def emplace (level : Level) (index : IndexType) (node : TreeNode) : Option Level :=
  if (level.lookup index).isSome then none else some (level ++ [(index, node)])

def update (level : Level) (index : IndexType) (node : TreeNode) : Level :=
  level.map fun entry => if entry.1 = index then (index, node) else entry

def ensureHaveLevel (tree : List Level) (level : Nat) : List Level :=
  if tree.length < level + 1 then tree ++ List.replicate (level + 1 - tree.length) [] else tree

def setLeafLoop (path : Path) (leafHash : ByteString) :
    (remaining depth : Nat) → IndexType → List Level → Except String (List Level)
  | 0, _, _, _ => .error "Failed to set"
  | remaining + 1, depth, nodeIndex, tree => do
      let bit ← pathBit path depth
      let nodeIndex := nodeIndex + bit.toUInt64
      let tree := ensureHaveLevel tree depth
      let level := tree.getD depth []
      match level.lookup nodeIndex with
      | none =>
          match emplace level nodeIndex (.leaf path leafHash) with
          | some level => .ok (tree.set depth level)
          | none => .error "Check failed: tree_[depth].emplace(...).second"
      | some (.internal _) =>
          setLeafLoop path leafHash remaining (depth + 1) (nodeIndex <<< 1)
            (tree.set depth (update level nodeIndex (.internal [])))
      | some (.leaf other hash) =>
          if other = path then
            .ok (tree.set depth (update level nodeIndex (.leaf other leafHash)))
          else if depth < kDigestSizeBits then do
            let tree := ensureHaveLevel tree (depth + 1)
            let childBit ← pathBit other (depth + 1)
            let childIndex := (nodeIndex <<< 1) + childBit.toUInt64
            match emplace (tree.getD (depth + 1) []) childIndex (.leaf other hash) with
            | some next =>
                setLeafLoop path leafHash remaining (depth + 1) (nodeIndex <<< 1)
                  ((tree.set (depth + 1) next).set depth (update level nodeIndex (.internal [])))
            | none => .error "Check failed: tree_[depth + 1].emplace(...).second"
          else .error "Check failed: depth < kDigestSizeBits"

end SparseMerkleTree

structure SparseMerkleTree where
  tree : List SparseMerkleTree.Level
  rootHash : ByteString
deriving DecidableEq, Repr

namespace SparseMerkleTree

variable (th : TreeHasher)

def empty : SparseMerkleTree := ⟨[], []⟩

def setLeaf (t : SparseMerkleTree) (path : Path) (data : ByteString) :
    Except String SparseMerkleTree := do
  if th.digestSize ≠ 32 then throw "Check failed: treehasher_.DigestSize() == path.size()"
  let tree ← setLeafLoop path (th.hashLeaf data) (kDigestSizeBits + 1) 0 0 t.tree
  return ⟨tree, []⟩

def emptyHash : Nat → ByteString
  | 0 => th.hashLeaf []
  | i + 1 => th.hashChildren (emptyHash i) (emptyHash i)

/-- `GetNullHashes`: entry `depth` is the hash of an empty subtree at that
depth, down to the empty leaf. -/
def nullHashes : List ByteString :=
  ((List.range (th.digestSize * 8)).map (emptyHash th)).reverse

/-- `null_hashes_->at(depth)`. -/
def nullHashAt (depth : Nat) : Except String ByteString :=
  match (nullHashes th)[depth]? with
  | some hash => .ok hash
  | none => .error "std::out_of_range: vector::at"

def hashLeafUp (path : Path) (depth : Nat) : (i : Nat) → ByteString → Except String ByteString
  | 0, ret => .ok ret
  | i + 1, ret =>
      if i + 1 > depth then do
        let bit ← pathBit path (i + 1)
        let null ← nullHashAt th (i + 1)
        hashLeafUp path depth i
          (if bit = 0 then th.hashChildren ret null else th.hashChildren null ret)
      else .ok ret

/-- `CalculateSubtreeHash(depth, index)`, which caches the hashes of the
internal nodes it computes; `remaining` bounds the levels below `depth`. -/
def calculateSubtreeHash :
    (remaining depth : Nat) → IndexType → List Level → Except String (ByteString × List Level)
  | 0, depth, _, tree => return (← nullHashAt th depth, tree)
  | remaining + 1, depth, index, tree =>
      if tree.length ≤ depth then return (← nullHashAt th depth, tree)
      else
        match (tree.getD depth []).lookup index with
        | none => return (← nullHashAt th depth, tree)
        | some (.internal hash) =>
            if !hash.isEmpty then .ok (hash, tree)
            else do
              let leftChildIndex := index <<< 1
              let (left, tree) ← calculateSubtreeHash remaining (depth + 1) leftChildIndex tree
              let (right, tree) ←
                calculateSubtreeHash remaining (depth + 1) (leftChildIndex + 1) tree
              let hash := th.hashChildren left right
              .ok (hash, tree.set depth (update (tree.getD depth []) index (.internal hash)))
        | some (.leaf path hash) => return (← hashLeafUp th path depth (kDigestSizeBits - 1) hash, tree)

def currentRoot (t : SparseMerkleTree) : Except String (ByteString × SparseMerkleTree) :=
  if t.rootHash.isEmpty then do
    let (left, tree) ← calculateSubtreeHash th t.tree.length 0 0 t.tree
    let (right, tree) ← calculateSubtreeHash th tree.length 0 1 tree
    let rootHash := th.hashChildren left right
    return (rootHash, ⟨tree, rootHash⟩)
  else return (t.rootHash, t)

inductive Op
  | setLeaf (path : Path) (data : ByteString)
  | currentRoot
deriving DecidableEq, Repr

def step (t : SparseMerkleTree) : Op → Except String SparseMerkleTree
  | .setLeaf path data => setLeaf th t path data
  | .currentRoot => return (← currentRoot th t).2

def run (ops : List Op) : Except String SparseMerkleTree := ops.foldlM (step th) empty

def pathWithBits (positions : List (Fin 32)) : Path :=
  positions.foldl (fun path i => path.set i.val 0x80 i.isLt) (Vector.replicate 32 0)

/-- Leaves at the paths with neither bit 0 nor bit 64, with bit 64, and with
bit 0, then one at the path with both: pushing the leaf of bit 0 down along the
last path, its index at depth 64 wraps from `2 ^ 64` to `0`, the slot of the
first leaf, and the `emplace` check aborts the process.  `SetLeaf` only moves
hashes around, so any hasher of 32-byte digests runs the same way. -/
theorem run_setLeaf_index_wraps :
    run ⟨32, [], fun data => 0 :: data, fun l r => 1 :: (l ++ r)⟩
        [.setLeaf (pathWithBits []) [], .setLeaf (pathWithBits [8]) [],
          .setLeaf (pathWithBits [0]) [], .setLeaf (pathWithBits [0, 8]) []] =
      .error "Check failed: tree_[depth + 1].emplace(...).second" := by
  decide +kernel

end SparseMerkleTree

end CertTrans
