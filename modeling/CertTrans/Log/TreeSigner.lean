import Mathlib.Data.List.Sort
import CertTrans.Log.EtcdConsistentStore
import CertTrans.Merkletree.CompactMerkleTree

/-!
`TreeSigner::SequenceNewEntries` of `tree_signer-inl.h`: the single sequencer
assigns sequence numbers to the pending entries and writes the new
`/sequence_mapping`, then adds the sequenced entries to its local database.

The pending entries are taken in `PendingEntriesOrder`, by SCT timestamp and
then by hash.  An entry less than the guard window old is skipped; an entry
whose hash is mapped keeps its number; any other gets the next number.  A
mapped hash whose pending entry was not seen must lie below the serving tree
size.  `std::sort` is modelled by an insertion sort: the orders involved are
strict and total on the lists sorted (distinct hashes, distinct numbers), so
every correct sort gives the same list.

Times are milliseconds: `now` is the clock reading and `guardWindow` the
guard window, both as integers since a clock may be set back.
-/

namespace CertTrans

open EtcdConsistentStore

namespace TreeSigner

/-- `PendingEntriesOrder`: by SCT timestamp, then by hash. -/
def pendingEntriesOrder (x y : LoggedEntry) : Prop :=
  x.timestamp < y.timestamp ∨ (x.timestamp = y.timestamp ∧ x.hash < y.hash)

instance : DecidableRel pendingEntriesOrder := fun x y =>
  inferInstanceAs (Decidable (x.timestamp < y.timestamp ∨ (x.timestamp = y.timestamp ∧ x.hash < y.hash)))

/-- `std::sort(pending_entries, PendingEntriesOrder)`. -/
def sortPending (pending : List LoggedEntry) : List LoggedEntry :=
  pending.insertionSort fun x y => ¬ pendingEntriesOrder y x

/-- `sort(new_mapping, LessThanBySequence)`. -/
def sortBySequence (mapping : List Mapping) : List Mapping :=
  mapping.insertionSort fun x y => x.sequenceNumber ≤ y.sequenceNumber

/-- `sequenced_hashes`: each mapped hash with its number and whether its
pending entry was seen. -/
abbrev SequencedHashes := List (ByteString × Int × Bool)

def insertSequencedHashes (sequencedHashes : SequencedHashes) : List Mapping →
    Except String SequencedHashes
  | [] => return sequencedHashes
  | m :: rest =>
      if sequencedHashes.any (·.1 = m.entryHash) then
        throw "Check failed: sequenced_hashes.insert(std::make_pair(m.entry_hash(), std::make_pair(m.sequence_number(), false))).second"
      else insertSequencedHashes (sequencedHashes ++ [(m.entryHash, m.sequenceNumber, false)]) rest

/-- `seq_it->second.second = true`. -/
def markPresent (hash : ByteString) (sequencedHashes : SequencedHashes) : SequencedHashes :=
  sequencedHashes.map fun s => if s.1 = hash then (s.1, s.2.1, true) else s

structure Sequencing where
  sequencedHashes : SequencedHashes
  newMapping : List Mapping
  seqToEntry : List (Int × LoggedEntry)
  numSequenced : Nat
  nextSequenceNumber : Int
deriving Repr

def sequenceEntry (guardWindow now : Int) (st : Sequencing) (pendingEntry : LoggedEntry) :
    Except String Sequencing :=
  if now - pendingEntry.timestamp < guardWindow then return st
  else do
    let (st, sequenceNumber) ←
      match st.sequencedHashes.find? (·.1 = pendingEntry.hash) with
      | none =>
          pure ({ st with
              newMapping := st.newMapping ++ [Mapping.mk pendingEntry.hash st.nextSequenceNumber]
              numSequenced := st.numSequenced + 1
              nextSequenceNumber := st.nextSequenceNumber + 1 }, st.nextSequenceNumber)
      | some (hash, seq, present) =>
          if present then throw "Check failed: !seq_it->second.second"
          else if pendingEntry.sequenceNumber.isSome then
            throw "Check failed: !pending_entry.Entry().has_sequence_number()"
          else
            pure ({ st with
                sequencedHashes := markPresent hash st.sequencedHashes
                newMapping := st.newMapping ++ [Mapping.mk hash seq] }, seq)
    if st.seqToEntry.any (·.1 = sequenceNumber) then
      throw "Check failed: seq_to_entry.insert(std::make_pair(pending_entry.Entry().sequence_number(), pending_entry.MutableEntry())).second"
    else
      return { st with
        seqToEntry := st.seqToEntry ++ [(sequenceNumber, { pendingEntry with sequenceNumber := some sequenceNumber })] }

def checkVanished (servingTreeSize : Int) : SequencedHashes → Except String Unit
  | [] => pure ()
  | (_, seq, present) :: rest =>
      if !present ∧ ¬ seq < servingTreeSize then throw "Check failed: s.second.first < serving_tree_size"
      else checkVanished servingTreeSize rest

/-- `CHECK_LE(new_mapping.Get(0).sequence_number(), serving_tree_size)` on a
nonempty mapping. -/
def checkLowest (servingTreeSize : Int) : List Mapping → Except String Unit
  | [] => pure ()
  | m :: _ =>
      if m.sequenceNumber > servingTreeSize then
        throw "Check failed: new_mapping.Get(0).sequence_number() <= serving_tree_size"
      else pure ()

def addToDatabase (db : Database.State) : List (Int × LoggedEntry) → Except String Database.State
  | [] => return db
  | (seq, logged) :: rest => do
      if logged.sequenceNumber ≠ some seq then
        throw "Check failed: it->first == it->second->sequence_number()"
      let (result, db) ← Database.createSequencedEntry db logged
      if result ≠ .ok then throw "Check failed: Database::OK == db_->CreateSequencedEntry(*(it->second))"
      addToDatabase db rest

/-- `seq_to_entry` in key order, from the key `db_->TreeSize()` on, or nothing
when that key is absent. -/
def entriesFromTreeSize (db : Database.State) (seqToEntry : List (Int × LoggedEntry)) :
    List (Int × LoggedEntry) :=
  ((seqToEntry.insertionSort fun x y => x.1 ≤ y.1).dropWhile fun e => e.1 ≠ Database.treeSize db)

def sequenceNewEntries (guardWindow now : Int) (store : EtcdState) (db : Database.State) :
    Except String (Except String (EtcdState × Database.State)) := do
  let next ← nextAvailableSequenceNumber store
  if next < 0 then throw "Check failed: next_sequence_number >= 0"
  let mapping ← getSequenceMapping store
  let sequencedHashes ← insertSequencedHashes [] mapping
  let pending ← getPendingEntries store
  let st ← (sortPending pending).foldlM (sequenceEntry guardWindow now)
    { sequencedHashes, newMapping := [], seqToEntry := [], numSequenced := 0,
      nextSequenceNumber := next }
  match getServingSTH store with
  | .error status => return .error status
  | .ok servingSth =>
      if servingSth.treeSize > int64Max then
        throw "Check failed: serving_sth.ValueOrDie().tree_size() <= INT64_MAX"
      checkVanished servingSth.treeSize st.sequencedHashes
      let newMapping := sortBySequence st.newMapping
      checkLowest servingSth.treeSize newMapping
      let store ← updateSequenceMapping store newMapping
      let db ← addToDatabase db (entriesFromTreeSize db st.seqToEntry)
      return .ok (store, db)

structure Signer where
  certTree : CompactMerkleTree
  latestTreeHead : SignedTreeHead
deriving DecidableEq, Repr

def Signer.new (certTree : CompactMerkleTree) (newestSth : Option SignedTreeHead) : Signer :=
  ⟨certTree, newestSth.getD {}⟩

def lastUpdateTime (s : Signer) : Nat := s.latestTreeHead.timestamp

variable (th : TreeHasher) (serializeForLeaf : LoggedEntry → Option ByteString)

def appendToTree (certTree : CompactMerkleTree) (logged : LoggedEntry) :
    Except String CompactMerkleTree :=
  match serializeForLeaf logged with
  | none => throw "Check failed: logged.SerializeForLeaf(&serialized_leaf)"
  | some serializedLeaf => return (CompactMerkleTree.addLeaf th certTree serializedLeaf).2

def appendLoop (i : Int) (minTimestamp : Nat) (certTree : CompactMerkleTree) :
    List LoggedEntry → Except String (CompactMerkleTree × Nat)
  | [] => return (certTree, minTimestamp)
  | logged :: rest =>
      if logged.sequenceNumber.getD 0 ≠ i then return (certTree, minTimestamp)
      else do
        let certTree ← appendToTree th serializeForLeaf certTree logged
        appendLoop (i + 1) (max minTimestamp logged.timestamp) certTree rest

/-- `TimestampAndSign` at the clock reading `now`. -/
def timestampAndSign (now minTimestamp : Nat) (certTree : CompactMerkleTree) :
    SignedTreeHead × CompactMerkleTree :=
  let (root, certTree) := CompactMerkleTree.currentRoot th certTree
  let timestamp := if now < minTimestamp then minTimestamp else now
  ({ timestamp, treeSize := certTree.leafCount, sha256RootHash := root }, certTree)

section TimestampAndSign

variable (now minTimestamp : Nat) (certTree : CompactMerkleTree)

@[simp] theorem timestampAndSign_timestamp :
    (timestampAndSign th now minTimestamp certTree).1.timestamp =
      if now < minTimestamp then minTimestamp else now := rfl

@[simp] theorem timestampAndSign_treeSize :
    (timestampAndSign th now minTimestamp certTree).1.treeSize =
      (CompactMerkleTree.currentRoot th certTree).2.leafCount := rfl

end TimestampAndSign

/-- `UpdateTree` against the database `db`, reading it through `scanEntries`,
at the clock reading `now`. -/
def updateTree (scanEntries : Database.State → Int → Except String (List LoggedEntry))
    (db : Database.State) (now : Nat) (s : Signer) : Except String Signer := do
  let minTimestamp := (lastUpdateTime s + 1) % 2 ^ 64
  let entries ← scanEntries db s.certTree.leafCount
  let (certTree, minTimestamp) ←
    appendLoop th serializeForLeaf s.certTree.leafCount minTimestamp s.certTree entries
  let (sth, certTree) := timestampAndSign th now minTimestamp certTree
  return { certTree, latestTreeHead := sth }

end TreeSigner

end CertTrans
