import CertTrans.Merkletree.MerkleTree
import CertTrans.Log.EtcdConsistentStore

/-!
`LogLookup` of `log_lookup.cc`: the read side of a log node, which keeps the
whole Merkle tree in memory to serve audit and consistency proofs.

`UpdateFromSTH` runs on each tree head the database reports: it appends the
leaf hash of every entry from the tree's leaf count up to the head's size, as
the database scan yields them, records in `leaf_index_` the first index of
each leaf hash, and dies unless the tree's root is then the head's.  The
queries read the tree, whose levels they may bring up to date, so each
returns the tree it leaves behind.

`SerializeForLeaf` is a parameter: the `MerkleTreeLeaf` encoder of
`CertTrans.Proto.CertSerializer` applied to the SCT and entry that
`LoggedEntry` abstracts here.  The version `CHECK` on the tree head is left
out, as the version is.
-/

namespace CertTrans

structure LogLookup where
  certTree : MerkleTree
  leafIndex : ByteString → Option Nat
  latestTreeHead : SignedTreeHead

namespace LogLookup

def new : LogLookup := ⟨MerkleTree.empty, fun _ => none, {}⟩

/-- `leaf_index_.insert(make_pair(leaf_hash, sequence_number))`: `insert`
keeps an existing entry, so a duplicate leaf keeps its first index. -/
def insertLeafIndex (leafIndex : ByteString → Option Nat) (leafHash : ByteString)
    (sequenceNumber : Nat) : ByteString → Option Nat :=
  match leafIndex leafHash with
  | some _ => leafIndex
  | none => Function.update leafIndex leafHash (some sequenceNumber)

/-- `ct::ShortMerkleAuditProof` as `AuditProof` fills it: the leaf index and
the audit path. -/
structure ShortMerkleAuditProof where
  leafIndex : Nat
  pathNode : List ByteString
deriving DecidableEq, Repr

variable (th : TreeHasher) (serializeForLeaf : LoggedEntry → ByteString)

/-- `LeafHash(logged)`. -/
def leafHash (logged : LoggedEntry) : ByteString := th.hashLeaf (serializeForLeaf logged)

def appendLeaves (treeSize : Int) (sequenceNumber : Nat) (l : LogLookup) :
    List LoggedEntry → Except String LogLookup
  | [] =>
      if (sequenceNumber : Int) < treeSize then throw "Check failed: it->GetNextEntry(&logged)"
      else return l
  | logged :: rest =>
      if (sequenceNumber : Int) < treeSize then
        if logged.sequenceNumber.isNone then throw "Check failed: logged.has_sequence_number()"
        else if logged.sequenceNumber ≠ some (sequenceNumber : Int) then
          throw "Check failed: sequence_number == logged.sequence_number()"
        else
          let hash := leafHash th serializeForLeaf logged
          let (count, certTree) := l.certTree.addLeafHash hash
          if sequenceNumber + 1 ≠ count then
            throw "Check failed: static_cast<size_t>(sequence_number + 1) == cert_tree_.AddLeafHash(leaf_hash)"
          else
            appendLeaves treeSize (sequenceNumber + 1)
              { l with certTree, leafIndex := insertLeafIndex l.leafIndex hash sequenceNumber } rest
      else return l

/-- `UpdateFromSTH(sth)`, with the database's `ScanEntries`.  A head with the
timestamp already held is ignored, and so, with a warning, is an older or a
smaller one. -/
def updateFromSTH (scanEntries : Int → Except String (List LoggedEntry)) (l : LogLookup)
    (sth : SignedTreeHead) : Except String LogLookup :=
  if sth.timestamp = l.latestTreeHead.timestamp then return l
  else if sth.treeSize < 0 then throw "Check failed: 0 <= sth.tree_size()"
  else if sth.timestamp ≤ l.latestTreeHead.timestamp ∨ sth.treeSize < l.certTree.leafCount then
    return l
  else do
    let entries ← scanEntries l.certTree.leafCount
    if (l.certTree.leafCount : Int) > EtcdConsistentStore.int64Max then
      throw "Check failed: cert_tree_.LeafCount() <= static_cast<uint64_t>(INT64_MAX)"
    else
      let l ← appendLeaves th serializeForLeaf sth.treeSize l.certTree.leafCount l entries
      let (root, certTree) := MerkleTree.currentRoot th l.certTree
      if root ≠ sth.sha256RootHash then
        throw "Check failed: HexString(cert_tree_.CurrentRoot()) == HexString(sth.sha256_root_hash())"
      else return { l with certTree, latestTreeHead := sth }

/-- `GetIndexInternal`: `-1`, here `none`, for a hash that is not logged. -/
def getIndex (l : LogLookup) (merkleLeafHash : ByteString) : Option Nat :=
  l.leafIndex merkleLeafHash

/-- `AuditProof(leaf_index, tree_size, proof)`. -/
def auditProof (l : LogLookup) (leafIndex treeSize : Nat) : ShortMerkleAuditProof × LogLookup :=
  let (path, certTree) := MerkleTree.pathToRootAtSnapshot th l.certTree (leafIndex + 1) treeSize
  (⟨leafIndex, path⟩, { l with certTree })

@[simp] theorem auditProof_fst (l : LogLookup) (leafIndex treeSize : Nat) :
    (l.auditProof th leafIndex treeSize).1 =
      ⟨leafIndex, (MerkleTree.pathToRootAtSnapshot th l.certTree (leafIndex + 1) treeSize).1⟩ :=
  rfl

@[simp] theorem auditProof_snd (l : LogLookup) (leafIndex treeSize : Nat) :
    (l.auditProof th leafIndex treeSize).2 =
      { l with certTree := (MerkleTree.pathToRootAtSnapshot th l.certTree (leafIndex + 1) treeSize).2 } :=
  rfl

/-- `AuditProof(merkle_leaf_hash, tree_size, proof)`: `NOT_FOUND`, here
`none`, for a hash that is not logged. -/
def auditProofByHash (l : LogLookup) (merkleLeafHash : ByteString) (treeSize : Nat) :
    Option (ShortMerkleAuditProof × LogLookup) :=
  (l.getIndex merkleLeafHash).map fun leafIndex => l.auditProof th leafIndex treeSize

/-- `ConsistencyProof(first, second)`. -/
def consistencyProof (l : LogLookup) (first second : Nat) : List ByteString × LogLookup :=
  let (proof, certTree) := MerkleTree.snapshotConsistency th l.certTree first second
  (proof, { l with certTree })

@[simp] theorem consistencyProof_fst (l : LogLookup) (first second : Nat) :
    (l.consistencyProof th first second).1 =
      (MerkleTree.snapshotConsistency th l.certTree first second).1 :=
  rfl

@[simp] theorem consistencyProof_snd (l : LogLookup) (first second : Nat) :
    (l.consistencyProof th first second).2 =
      { l with certTree := (MerkleTree.snapshotConsistency th l.certTree first second).2 } :=
  rfl

/-- `RootAtSnapshot(tree_size)`. -/
def rootAtSnapshot (l : LogLookup) (treeSize : Nat) : ByteString × LogLookup :=
  let (root, certTree) := MerkleTree.rootAtSnapshot th l.certTree treeSize
  (root, { l with certTree })

@[simp] theorem rootAtSnapshot_fst (l : LogLookup) (treeSize : Nat) :
    (l.rootAtSnapshot th treeSize).1 = (MerkleTree.rootAtSnapshot th l.certTree treeSize).1 :=
  rfl

@[simp] theorem rootAtSnapshot_snd (l : LogLookup) (treeSize : Nat) :
    (l.rootAtSnapshot th treeSize).2 =
      { l with certTree := (MerkleTree.rootAtSnapshot th l.certTree treeSize).2 } :=
  rfl

end LogLookup

end CertTrans
