import CertTrans.Merkletree.Basic
import CertTrans.Log.EtcdConsistentStore

/-!
`ct.crypto.merkle` of the Python client: the full-tree hash of `TreeHasher`,
the append-only `CompactMerkleTree` and `MerkleVerifier`.

The exceptions the module raises are the errors of `Except`; a message that
renders hashes in base64 keeps its text up to them.  Sizes and indices are
natural numbers where the code only ever gives them non-negative values, and
integers where a caller may pass any (the verifier's arguments).  The
hasher's three functions are a `TreeHasher`.
-/

namespace CertTrans.Python.Merkle

inductive Error
  | valueError (message : String)
  | indexError (message : String)
  | assertionError
  | stopIteration
  | proofError (message : String)
  | consistencyError (message : String)
deriving DecidableEq, Repr

/-- `count_bits_set(i)`: one round of `i &= i - 1` per set bit. -/
def countBitsSet (i : Nat) : Nat :=
  if i = 0 then 0 else countBitsSet (i &&& (i - 1)) + 1
termination_by i
decreasing_by exact Nat.lt_of_le_of_lt Nat.and_le_right (by omega)

/-- `lowest_bit_set(i)`: the 1-based index of the lowest set bit, `0` for `0`.
`i & -i` keeps the lowest set bit, and the loop that shifts it out counts its
bit length. -/
def lowestBitSet (i : Nat) : Nat := Nat.size (Int.land i (-i)).toNat

variable (th : TreeHasher)

/-- `TreeHasher._hash_full(leaves, l_idx, r_idx)`: the root of the tree over
the leaves in `[l_idx, r_idx)` and the roots of its full subtrees, largest
first. -/
def hashFull (leaves : List ByteString) (lIdx rIdx : Nat) :
    Except Error (ByteString × List ByteString) :=
  if rIdx < lIdx ∨ rIdx > leaves.length then
    throw (.indexError (toString lIdx ++ "," ++ toString rIdx ++ " not a valid range over [0," ++
      toString leaves.length ++ "]"))
  else if rIdx - lIdx = 0 then return (th.hashEmpty, [])
  else if rIdx - lIdx = 1 then
    let leafHash := th.hashLeaf (leaves.getD lIdx [])
    return (leafHash, [leafHash])
  else
    let splitWidth := 2 ^ (Nat.size (rIdx - lIdx - 1) - 1)
    if splitWidth < rIdx - lIdx ∧ rIdx - lIdx ≤ 2 * splitWidth then do
      let (lRoot, lHashes) ← hashFull leaves lIdx (lIdx + splitWidth)
      if lHashes.length ≠ 1 then throw .assertionError
      let (rRoot, rHashes) ← hashFull leaves (lIdx + splitWidth) rIdx
      let rootHash := th.hashChildren lRoot rRoot
      return (rootHash, if splitWidth * 2 = rIdx - lIdx then [rootHash] else lHashes ++ rHashes)
    else throw .assertionError
termination_by rIdx - lIdx
decreasing_by
  all_goals
    have := Nat.two_pow_pos (Nat.size (rIdx - lIdx - 1) - 1)
    omega

/-- `TreeHasher._hash_fold(hashes)`: the hashes combined from the right;
`next` on the empty iterator raises `StopIteration`. -/
def hashFold (hashes : List ByteString) : Except Error ByteString :=
  match hashes.reverse with
  | [] => throw .stopIteration
  | accum :: revHashes => return revHashes.foldl (fun accum cur => th.hashChildren cur accum) accum

/-- `TreeHasher.hash_full_tree(leaves)`. -/
def hashFullTree (leaves : List ByteString) : Except Error ByteString := do
  let (rootHash, hashes) ← hashFull th leaves 0 leaves.length
  if hashes.length ≠ countBitsSet leaves.length then throw .assertionError
  if hashes ≠ [] then
    if (← hashFold th hashes) ≠ rootHash then throw .assertionError
  else if rootHash ≠ th.hashEmpty then throw .assertionError
  return rootHash

structure CompactMerkleTree where
  treeSize : Nat
  hashes : List ByteString
  mintreeHeight : Nat
  cachedRootHash : Option ByteString
deriving DecidableEq, Repr

namespace CompactMerkleTree

/-- `_update(tree_size, hashes)`: the whole state is replaced and the cached
root dropped. -/
def update (treeSize : Nat) (hashes : List ByteString) : Except Error CompactMerkleTree :=
  let bitsSet := countBitsSet treeSize
  let numHashes := hashes.length
  if numHashes ≠ bitsSet then
    throw (.valueError ("number of hashes != bits set in tree_size: " ++ toString numHashes ++
      " vs " ++ toString bitsSet))
  else return ⟨treeSize, hashes, lowestBitSet treeSize, none⟩

theorem hashes_of_update_eq_ok {treeSize : Nat} {hashes : List ByteString}
    {t : CompactMerkleTree} (h : update treeSize hashes = .ok t) : t.hashes = hashes := by
  unfold update at h
  dsimp only at h
  split_ifs at h
  cases h
  rfl

/-- `CompactMerkleTree(hasher, tree_size, hashes)`, and `load` of a saved
tree. -/
def new (treeSize : Nat) (hashes : List ByteString) : Except Error CompactMerkleTree :=
  update treeSize hashes

/-- `client_pb2.CompactMerkleTree`, the form in which `save` stores a tree and
`load` reads it back. -/
structure Saved where
  treeSize : Nat
  hashes : List ByteString
deriving DecidableEq, Repr

/-- `save(other)`: the size and the hashes, without the cached root. -/
def save (t : CompactMerkleTree) : Saved := ⟨t.treeSize, t.hashes⟩

/-- `load(other)`: `_update(other.tree_size, other.hashes)`. -/
def load (other : Saved) : Except Error CompactMerkleTree := update other.treeSize other.hashes

/-- `root_hash()`: the fold of the hashes, computed once and cached. -/
def rootHash (t : CompactMerkleTree) : Except Error (ByteString × CompactMerkleTree) :=
  match t.cachedRootHash with
  | some rootHash => return (rootHash, t)
  | none => do
      let rootHash ← if t.hashes ≠ [] then hashFold th t.hashes else pure th.hashEmpty
      return (rootHash, { t with cachedRootHash := some rootHash })

/-- `__push_subtree_hash(subtree_h, sub_hash)`: a subtree smaller than the
smallest one is appended; one of the same height is combined with it, as an
addition carry, and pushed one height up. -/
def pushSubtreeHash (t : CompactMerkleTree) (subtreeH : Nat) (subHash : ByteString) :
    Except Error CompactMerkleTree :=
  let size := 1 <<< (subtreeH - 1)
  let mintreeH := t.mintreeHeight
  if subtreeH < mintreeH ∨ mintreeH = 0 then update (t.treeSize + size) (t.hashes ++ [subHash])
  else if subtreeH ≠ mintreeH then throw .assertionError
  else
    -- addition carry: rewind the tree and re-try with the bigger subtree
    match _hlast : t.hashes.getLast? with
    | none => throw (.indexError "tuple index out of range")
    | some prevHash =>
        match hu : update (t.treeSize - size) t.hashes.dropLast with
        | .error e => throw e
        | .ok t' =>
            if ¬(mintreeH < t'.mintreeHeight ∨ t'.mintreeHeight = 0) then throw .assertionError
            else pushSubtreeHash t' (subtreeH + 1) (th.hashChildren prevHash subHash)
termination_by t.hashes.length
decreasing_by
  obtain ⟨init, hinit⟩ := List.getLast?_eq_some_iff.mp _hlast
  rw [hashes_of_update_eq_ok hu, hinit, List.dropLast_concat, List.length_append]
  exact Nat.lt_succ_self _

/-- `_push_subtree(leaves)`: extend with a full subtree no larger than the
smallest one. -/
def pushSubtree (t : CompactMerkleTree) (leaves : List ByteString) :
    Except Error CompactMerkleTree := do
  let size := leaves.length
  if countBitsSet size ≠ 1 then
    throw (.valueError ("invalid subtree with size != 2^k: " ++ toString size))
  -- the highest bit of a power of two is also its lowest
  let subtreeH := lowestBitSet size
  let mintreeH := t.mintreeHeight
  if mintreeH > 0 ∧ subtreeH > mintreeH then
    throw (.valueError ("subtree " ++ toString subtreeH ++ " > current smallest subtree " ++
      toString mintreeH))
  let (rootHash, hashes) ← hashFull th leaves 0 size
  if hashes ≠ [rootHash] then throw .assertionError
  pushSubtreeHash th t subtreeH rootHash

/-- `append(new_leaf)`. -/
def append (t : CompactMerkleTree) (newLeaf : ByteString) : Except Error CompactMerkleTree :=
  pushSubtree th t [newLeaf]

def extendLoop (newLeaves : List ByteString) (t : CompactMerkleTree) (idx : Nat) :
    Except Error (CompactMerkleTree × Nat) :=
  let maxH := t.mintreeHeight
  let maxSize := if maxH > 0 then 1 <<< (maxH - 1) else 0
  if maxH > 0 ∧ newLeaves.length - idx ≥ maxSize then do
    let t ← pushSubtree th t ((newLeaves.drop idx).take maxSize)
    extendLoop newLeaves t (idx + maxSize)
  else return (t, idx)
termination_by newLeaves.length - idx
decreasing_by
  obtain ⟨hpos, hle⟩ := ‹_ ∧ _›
  have hsize : maxSize = 2 ^ (maxH - 1) := by
    simp only [maxSize, dif_pos hpos, Nat.one_shiftLeft]
  have := Nat.two_pow_pos (maxH - 1)
  rw [hsize] at hle
  change newLeaves.length - (idx + maxSize) < newLeaves.length - idx
  omega

/-- `extend(new_leaves)`: push subtrees while they fit, then hash the rest in
one go. -/
def extend (t : CompactMerkleTree) (newLeaves : List ByteString) :
    Except Error CompactMerkleTree := do
  let size := newLeaves.length
  let finalSize := t.treeSize + size
  let (t, idx) ← extendLoop th newLeaves t 0
  let t ← if idx < size then do
      let (_, hashes) ← hashFull th newLeaves idx size
      update finalSize (t.hashes ++ hashes)
    else pure t
  if t.treeSize ≠ finalSize then throw .assertionError
  return t

/-- `extended(new_leaves)`: `__copy__`, which builds a new tree from the size
and the hashes, extended. -/
def extended (t : CompactMerkleTree) (newLeaves : List ByteString) :
    Except Error CompactMerkleTree := do
  let newTree ← new t.treeSize t.hashes
  newTree.extend th newLeaves

inductive Op
  | append (newLeaf : ByteString)
  | extend (newLeaves : List ByteString)
  | rootHash

def step (t : CompactMerkleTree) : Op → Except Error CompactMerkleTree
  | .append newLeaf => t.append th newLeaf
  | .extend newLeaves => t.extend th newLeaves
  | .rootHash => return (← t.rootHash th).2

def run (t : CompactMerkleTree) (ops : List Op) : Except Error CompactMerkleTree :=
  ops.foldlM (step th) t

def addedLeaves : List Op → List ByteString
  | [] => []
  | .append newLeaf :: ops => newLeaf :: addedLeaves ops
  | .extend newLeaves :: ops => newLeaves ++ addedLeaves ops
  | .rootHash :: ops => addedLeaves ops

end CompactMerkleTree

namespace MerkleVerifier

/-- `p.next()` within the `try` of `verify_tree_consistency`, whose
`except StopIteration` turns running out of proof into a `ProofError`. -/
def next : List ByteString → Except Error (ByteString × List ByteString)
  | [] => throw (.proofError "Merkle proof is too short")
  | node :: p => return (node, p)

/-- `while node % 2`: while the node is a right child, everything is in both
trees, so move one level up. -/
def climbRightChildren (node lastNode : Nat) : Nat × Nat :=
  if node % 2 = 1 then climbRightChildren (node / 2) (lastNode / 2) else (node, lastNode)
termination_by node

/-- `while node` of `verify_tree_consistency`: compute the two root hashes in
parallel. -/
def consistencyLoop (node lastNode : Nat) (oldHash newHash : ByteString) (p : List ByteString) :
    Except Error (Nat × ByteString × ByteString × List ByteString) :=
  if node = 0 then return (lastNode, oldHash, newHash, p)
  else if node % 2 = 1 then do
    let (nextNode, p) ← next p
    consistencyLoop (node / 2) (lastNode / 2) (th.hashChildren nextNode oldHash)
      (th.hashChildren nextNode newHash) p
  else if node < lastNode then do
    let (nextNode, p) ← next p
    consistencyLoop (node / 2) (lastNode / 2) oldHash (th.hashChildren newHash nextNode) p
  else
    consistencyLoop (node / 2) (lastNode / 2) oldHash newHash p
termination_by node

/-- `while last_node`: continue the path until the new root. -/
def rootLoop (lastNode : Nat) (newHash : ByteString) (p : List ByteString) :
    Except Error (ByteString × List ByteString) :=
  if lastNode = 0 then return (newHash, p)
  else do
    let (nextNode, p) ← next p
    rootLoop (lastNode / 2) (th.hashChildren newHash nextNode) p
termination_by lastNode

/-- `verify_tree_consistency(old_tree_size, new_tree_size, old_root,
new_root, proof)`; proof nodes left over are accepted. -/
def verifyTreeConsistency (oldTreeSize newTreeSize : Int) (oldRoot newRoot : ByteString)
    (proof : List ByteString) : Except Error Bool :=
  if oldTreeSize < 0 ∨ newTreeSize < 0 then throw (.valueError "Negative tree size")
  else if oldTreeSize > newTreeSize then
    throw (.valueError ("Older tree has bigger size (" ++ toString oldTreeSize ++ " vs " ++
      toString newTreeSize ++ "), did you supply inputs in the wrong order?"))
  else if oldTreeSize = newTreeSize then
    if oldRoot = newRoot then return true
    else throw (.consistencyError "Inconsistency: different root hashes for the same tree size")
  else if oldTreeSize = 0 then return true
  else do
    let (node, lastNode) := climbRightChildren (oldTreeSize - 1).toNat (newTreeSize - 1).toNat
    let (start, p) ← if node ≠ 0 then next proof else pure (oldRoot, proof)
    let (lastNode, oldHash, newHash, p) ← consistencyLoop th node lastNode start start p
    let (newHash, _) ← rootLoop th lastNode newHash p
    if newHash ≠ newRoot then
      throw (.proofError "Bad Merkle proof: second root hash does not match.")
    else if oldHash ≠ oldRoot then
      throw (.consistencyError "Inconsistency: first root hash does not match.")
    else return true

def calculateLoop (nodeIndex lastNode : Nat) (calculatedHash : ByteString)
    (auditPath : List ByteString) : Except Error (ByteString × List ByteString) :=
  if lastNode > 0 then
    match auditPath with
    | [] => throw (.proofError ("Proof too short: left with node index " ++ toString nodeIndex))
    | auditHash :: rest =>
        if nodeIndex % 2 = 1 then
          calculateLoop (nodeIndex / 2) (lastNode / 2) (th.hashChildren auditHash calculatedHash)
            rest
        else if nodeIndex < lastNode then
          calculateLoop (nodeIndex / 2) (lastNode / 2) (th.hashChildren calculatedHash auditHash)
            rest
        else
          calculateLoop (nodeIndex / 2) (lastNode / 2) calculatedHash (auditHash :: rest)
  else return (calculatedHash, auditPath)
termination_by lastNode

/-- `_calculate_root_hash_from_audit_path(leaf_hash, node_index, audit_path,
tree_size)`. -/
def calculateRootHashFromAuditPath (leafHash : ByteString) (nodeIndex : Nat)
    (auditPath : List ByteString) (treeSize : Nat) : Except Error ByteString := do
  let (calculatedHash, auditPath) ← calculateLoop th nodeIndex (treeSize - 1) leafHash auditPath
  if auditPath ≠ [] then
    throw (.proofError ("Proof too long: Left with " ++ toString auditPath.length ++ " hashes."))
  return calculatedHash

/-- `verify_leaf_hash_inclusion(leaf_hash, leaf_index, proof, sth)`. -/
def verifyLeafHashInclusion (leafHash : ByteString) (leafIndex : Int) (proof : List ByteString)
    (sth : SignedTreeHead) : Except Error Bool := do
  let treeSize := sth.treeSize
  if treeSize ≤ leafIndex then
    throw (.valueError ("Provided STH is for a tree that is smaller than the leaf index. " ++
      "Tree size: " ++ toString treeSize ++ " Leaf index: " ++ toString leafIndex))
  if treeSize < 0 ∨ leafIndex < 0 then
    throw (.valueError ("Negative tree size or leaf index: Tree size: " ++ toString treeSize ++
      " Leaf index: " ++ toString leafIndex))
  let calculatedRootHash ←
    calculateRootHashFromAuditPath th leafHash leafIndex.toNat proof treeSize.toNat
  if calculatedRootHash = sth.sha256RootHash then return true
  throw (.proofError "Constructed root hash differs from provided root hash.")

/-- `verify_leaf_inclusion(leaf, leaf_index, proof, sth)`. -/
def verifyLeafInclusion (leaf : ByteString) (leafIndex : Int) (proof : List ByteString)
    (sth : SignedTreeHead) : Except Error Bool :=
  verifyLeafHashInclusion th (th.hashLeaf leaf) leafIndex proof sth

end MerkleVerifier

end CertTrans.Python.Merkle
