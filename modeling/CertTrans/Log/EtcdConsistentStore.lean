import CertTrans.Log.Database

/-!
The parts of `EtcdConsistentStore` (`etcd_consistent_store-inl.h`) that the
sequencer and the serving STH go through: `/sequence_mapping`, the pending
entries under `/entries`, and `/serving_sth`.

`GetSequenceMapping` and `UpdateSequenceMapping` `CHECK` that the mapping is
strictly increasing in sequence number and, once the serving STH exists, that
its lowest number is at most the serving tree size and that the numbers from
the serving tree size on are consecutive.  `NextAvailableSequenceNumber` is one
past the last mapped number, else the serving tree size, else `0`.

The store is read as a value: the watches that keep `serving_sth_` current and
the failures of etcd requests, which return a status before anything is
written, are not modelled.  A `CHECK` ends the process as the outer
`Except String`; a returned status is the inner one.
-/

namespace CertTrans

/-- `ct::SignedTreeHead`, with the fields the log reads of it: `timestamp` is a
`uint64` and `tree_size` an `int64` in `ct.proto`. -/
structure SignedTreeHead where
  timestamp : Nat := 0
  treeSize : Int := 0
  sha256RootHash : ByteString := []
deriving DecidableEq, Repr

/-- `ct::SequenceMapping::Mapping`: an entry hash and the number it is
sequenced at. -/
structure Mapping where
  entryHash : ByteString
  sequenceNumber : Int
deriving DecidableEq, Repr

structure EtcdState where
  sequenceMapping : List Mapping
  pendingEntries : List LoggedEntry
  servingSth : Option SignedTreeHead
deriving DecidableEq, Repr

namespace EtcdConsistentStore

/-- `INT64_MAX`. -/
def int64Max : Int := 2 ^ 63 - 1

/-- `CheckMappingIsOrdered`. -/
def checkMappingIsOrdered : List Mapping → Except String Unit
  | m₁ :: m₂ :: rest =>
      if m₁.sequenceNumber < m₂.sequenceNumber then checkMappingIsOrdered (m₂ :: rest)
      else throw "Check failed: mapping.mapping(i).sequence_number() < mapping.mapping(i + 1).sequence_number()"
  | _ => pure ()

def checkContiguousFrom (treeSize : Int) (aboveSth : Bool) : List Mapping → Except String Unit
  | m₁ :: m₂ :: rest =>
      if treeSize ≤ m₁.sequenceNumber then
        if m₁.sequenceNumber + 1 = m₂.sequenceNumber then checkContiguousFrom treeSize true (m₂ :: rest)
        else throw "Check failed: mapped_seq + 1 == mapping.mapping(i + 1).sequence_number()"
      else if aboveSth then throw "Check failed: !above_sth"
      else checkContiguousFrom treeSize aboveSth (m₂ :: rest)
  | _ => pure ()

def checkMappingIsContiguousWithServingTree (servingSth : Option SignedTreeHead) :
    List Mapping → Except String Unit
  | [] => pure ()
  | m :: rest =>
      match servingSth with
      | none => pure ()
      | some sth =>
          if sth.treeSize > int64Max then
            throw "Check failed: serving_sth_->Entry().tree_size() <= INT64_MAX"
          else if m.sequenceNumber > sth.treeSize then
            throw "Check failed: lowest_sequence_number <= tree_size"
          else checkContiguousFrom sth.treeSize false (m :: rest)

def getSequenceMapping (store : EtcdState) : Except String (List Mapping) := do
  checkMappingIsOrdered store.sequenceMapping
  checkMappingIsContiguousWithServingTree store.servingSth store.sequenceMapping
  return store.sequenceMapping

def nextAvailableSequenceNumber (store : EtcdState) : Except String Int := do
  let mapping ← getSequenceMapping store
  match mapping.getLast? with
  | some last => return last.sequenceNumber + 1
  | none =>
      match store.servingSth with
      | none => return 0
      | some sth => return sth.treeSize

/-- `GetPendingEntries`, with its `CHECK` that no pending entry is sequenced. -/
def getPendingEntries (store : EtcdState) : Except String (List LoggedEntry) :=
  if store.pendingEntries.any (·.sequenceNumber.isSome) then
    throw "Check failed: !entry.Entry().has_sequence_number()"
  else return store.pendingEntries

/-- `GetServingSTH`: `NOT_FOUND` before the first serving STH. -/
def getServingSTH (store : EtcdState) : Except String SignedTreeHead :=
  match store.servingSth with
  | none => throw "No current Serving STH."
  | some sth => return sth

/-- `SetServingSTH`: the first serving STH is created; a later one must be
newer than the current one, and its tree size is `CHECK`ed not to be smaller. -/
def setServingSTH (store : EtcdState) (newSth : SignedTreeHead) : Except String (Except String EtcdState) :=
  match store.servingSth with
  | none => return .ok { store with servingSth := some newSth }
  | some sth =>
      if sth.timestamp ≥ newSth.timestamp then return .error "Tree head is not newer than existing head"
      else if ¬ sth.treeSize ≤ newSth.treeSize then
        throw "Check failed: serving_sth_->Entry().tree_size() <= new_sth.tree_size()"
      else return .ok { store with servingSth := some newSth }

/-- `UpdateSequenceMapping`: the same `CHECK`s as a read, then the write. -/
def updateSequenceMapping (store : EtcdState) (mapping : List Mapping) : Except String EtcdState := do
  checkMappingIsOrdered mapping
  checkMappingIsContiguousWithServingTree store.servingSth mapping
  return { store with sequenceMapping := mapping }

end EtcdConsistentStore

end CertTrans
