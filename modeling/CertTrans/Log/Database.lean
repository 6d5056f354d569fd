import Mathlib.Data.List.AList
import Mathlib.Data.Finset.Max
import CertTrans.Merkletree.Basic

/-!
The local database of a log node: `FileDB` of `file_db.cc` and `LevelDB` of
`leveldb_db.cc`, for their sequenced entries.

Entries sit on disk keyed by sequence number (an association list here), and
an index kept in memory answers `TreeSize`, `LookupByHash` and the scans:
`contiguous_size_`, the length of the run of stored numbers from `0`;
`sparse_entries_`, the stored numbers past that run; and `id_by_hash_`, for
each hash the least sequence number storing it.  `InsertEntryMapping` and
`CreateSequencedEntry_` are the same in both databases, up to the storage
they write to.  They differ in the order in which `BuildIndex` replays the
stored entries when a database is opened: `FileDB` scans its file names, the
decimal sequence numbers in string order ("10" before "2"), and `LevelDB` its
fixed-width hexadecimal keys, in numeric order.  They also differ in how
`ScanEntries` walks: `FileDB` through the index, `LevelDB` along its keys.

A `CHECK` ends the process as the outer `Except String`; storage failures
are not modelled.
-/

namespace CertTrans

/-- `LoggedEntry` as the log reads it: `sequence_number` when set, the SCT
timestamp, `Hash()` (the leaf hash of its entry), and the rest of its
contents.  Two entries are equal when their serializations are. -/
structure LoggedEntry where
  sequenceNumber : Option Int := none
  timestamp : Nat := 0
  hash : ByteString := []
  contents : ByteString := []
deriving DecidableEq, Repr

namespace Database

inductive WriteResult
  | ok
  | sequenceNumberAlreadyInUse
deriving DecidableEq, Repr

structure Index where
  contiguousSize : Nat := 0
  sparseEntries : Finset Nat := ∅
  idByHash : ByteString → Option Nat := fun _ => none

structure State where
  storage : AList (fun _ : Nat => LoggedEntry)
  index : Index

def drainSparse (contiguousSize : Nat) (sparseEntries : Finset Nat) : Nat × Finset Nat :=
  if h : contiguousSize ∈ sparseEntries then
    drainSparse (contiguousSize + 1) (sparseEntries.erase contiguousSize)
  else (contiguousSize, sparseEntries)
termination_by sparseEntries.card
decreasing_by exact Finset.card_erase_lt_of_mem h

def insertIdByHash (idByHash : ByteString → Option Nat) (sequenceNumber : Nat) (hash : ByteString) :
    ByteString → Option Nat :=
  Function.update idByHash hash
    (some (match idByHash hash with
      | none => sequenceNumber
      | some seq => min seq sequenceNumber))

def insertEntryMapping (index : Index) (sequenceNumber : Nat) (hash : ByteString) :
    Except String Index :=
  let idByHash := insertIdByHash index.idByHash sequenceNumber hash
  if sequenceNumber = index.contiguousSize then
    let drained := drainSparse (index.contiguousSize + 1) index.sparseEntries
    return { contiguousSize := drained.1, sparseEntries := drained.2, idByHash }
  else if sequenceNumber ∈ index.sparseEntries then
    throw "Check failed: sparse_entries_.insert(sequence_number).second"
  else return { index with sparseEntries := insert sequenceNumber index.sparseEntries, idByHash }

/-- `Database::CreateSequencedEntry`, with its `CHECK`s, and
`CreateSequencedEntry_`: a new sequence number is stored and indexed; a used
one leaves the database as it is. -/
def createSequencedEntry (db : State) (logged : LoggedEntry) : Except String (WriteResult × State) :=
  match logged.sequenceNumber with
  | none => throw "Check failed: logged.has_sequence_number()"
  | some sequenceNumber =>
      if sequenceNumber < 0 then throw "Check failed: logged.sequence_number() >= 0"
      else
        match db.storage.lookup sequenceNumber.toNat with
        | some existing =>
            return (if existing = logged then .ok else .sequenceNumberAlreadyInUse, db)
        | none => do
            let index ← insertEntryMapping db.index sequenceNumber.toNat logged.hash
            return (.ok, { storage := db.storage.insert sequenceNumber.toNat logged, index })

def buildIndexFrom (index : Index) : List (Σ _ : Nat, LoggedEntry) → Except String Index
  | [] => return index
  | ⟨seq, logged⟩ :: rest =>
      if logged.sequenceNumber.isNone then throw "Check failed: logged.has_sequence_number()"
      else if logged.sequenceNumber ≠ some (seq : Int) then
        throw "Check failed: logged.sequence_number() == seq"
      else do
        let index ← insertEntryMapping index seq logged.hash
        buildIndexFrom index rest

def treeSize (db : State) : Nat := db.index.contiguousSize

def lookupByIndex (db : State) (sequenceNumber : Nat) : Option LoggedEntry :=
  db.storage.lookup sequenceNumber

/-- `FileDB::LookupByHash`: the entry at the sequence number the index holds
for the hash, `CHECK`ed to be there and to have that hash. -/
def lookupByHash (db : State) (hash : ByteString) : Except String (Option LoggedEntry) :=
  match db.index.idByHash hash with
  | none => return none
  | some sequenceNumber =>
      match db.storage.lookup sequenceNumber with
      | none => throw "Check failed: status == util::Status::OK"
      | some logged =>
          if logged.hash ≠ hash then throw "Check failed: logged.Hash() == hash"
          else return some logged

inductive Op
  | createSequencedEntry (logged : LoggedEntry)
  | reopen
deriving DecidableEq, Repr

def openWith (scan : AList (fun _ : Nat => LoggedEntry) → List (Σ _ : Nat, LoggedEntry))
    (storage : AList (fun _ : Nat => LoggedEntry)) : Except String State := do
  let index ← buildIndexFrom {} (scan storage)
  return { storage, index }

def stepWith (scan : AList (fun _ : Nat => LoggedEntry) → List (Σ _ : Nat, LoggedEntry))
    (db : State) : Op → Except String State
  | .createSequencedEntry logged => Prod.snd <$> createSequencedEntry db logged
  | .reopen => openWith scan db.storage

def runWith (scan : AList (fun _ : Nat => LoggedEntry) → List (Σ _ : Nat, LoggedEntry))
    (ops : List Op) : Except String State := do
  let db ← openWith scan ∅
  ops.foldlM (stepWith scan) db

end Database

open Database

namespace FileDB

/-- `cert_storage_->Scan()`: the file names in string order. -/
def scan (storage : AList (fun _ : Nat => LoggedEntry)) : List (Σ _ : Nat, LoggedEntry) :=
  storage.entries.mergeSort fun a b => decide (toString a.1 ≤ toString b.1)

/-- `FileDB(...)`: a new index, built over the storage. -/
def «open» (storage : AList (fun _ : Nat => LoggedEntry)) : Except String State :=
  openWith scan storage

/-- `sparse_entries_.lower_bound(next_index_)`. -/
def lowerBound (sparseEntries : Finset Nat) (nextIndex : Nat) : Option Nat :=
  (sparseEntries.filter (nextIndex ≤ ·)).min

/-- `GetNextEntry` of `FileDB::Iterator` from `next_index_` until it returns
`false`: below `contiguous_size_` every number is read, past it only the
sparse entries. -/
def scanFrom (db : State) (nextIndex : Nat) : Except String (List LoggedEntry) :=
  match _h : (if db.index.contiguousSize ≤ nextIndex then lowerBound db.index.sparseEntries nextIndex
      else some nextIndex) with
  | none => return []
  | some index =>
      match hl : lookupByIndex db index with
      | none => throw "Check failed: db_->LookupByIndex(next_index_, entry) == Database::LOOKUP_OK"
      | some logged => (logged :: ·) <$> scanFrom db (index + 1)
termination_by (db.storage.keys.filter (nextIndex ≤ ·)).length
decreasing_by
  -- the entry read is stored at or past `nextIndex`, and the walk moves past it
  have hge : nextIndex ≤ index := by
    split at _h
    · have hmem := Finset.mem_of_min _h
      exact (Finset.mem_filter.mp hmem).2
    · cases _h
      exact le_rfl
  have hkey : index ∈ db.storage.keys := AList.mem_keys.mp (AList.lookup_isSome.mp (by
    simp only [lookupByIndex] at hl
    rw [hl]
    rfl))
  have hsub : db.storage.keys.filter (index + 1 ≤ ·) =
      (db.storage.keys.filter (nextIndex ≤ ·)).filter (index + 1 ≤ ·) := by
    rw [List.filter_filter]
    apply List.filter_congr
    intro k _
    by_cases hk : index + 1 ≤ k
    · simp [hk]
      omega
    · simp [hk]
  rw [hsub]
  exact List.length_filter_lt_length_iff_exists.mpr
    ⟨index, List.mem_filter.mpr ⟨hkey, by simpa using hge⟩, by simp⟩

/-- `ScanEntries(start_index)`, read to its end. -/
def scanEntries (db : State) (startIndex : Int) : Except String (List LoggedEntry) :=
  if startIndex < 0 then throw "Check failed: next_index_ >= 0" else scanFrom db startIndex.toNat

def step (db : State) (op : Op) : Except String State := stepWith scan db op

def run (ops : List Op) : Except String State := runWith scan ops

end FileDB

namespace LevelDB

def scan (storage : AList (fun _ : Nat => LoggedEntry)) : List (Σ _ : Nat, LoggedEntry) :=
  storage.entries.mergeSort fun a b => decide (a.1 ≤ b.1)

def «open» (storage : AList (fun _ : Nat => LoggedEntry)) : Except String State :=
  openWith scan storage

/-- `ScanEntries(start_index)` read to its end: the keys from
`IndexToKey(start_index)` on, where a negative start is the key of `0`. -/
def scanEntries (db : State) (startIndex : Int) : Except String (List LoggedEntry) :=
  ((scan db.storage).filter fun e => startIndex ≤ e.1).mapM fun e =>
    if e.2.sequenceNumber.isNone then throw "Check failed: entry->has_sequence_number()"
    else if e.2.sequenceNumber ≠ some (e.1 : Int) then
      throw "Check failed: entry->sequence_number() == seq"
    else return e.2

/-- `LevelDB::LookupByHash`: a number of the index whose key the database
lacks answers `NOT_FOUND`, where `FileDB` fails its `CHECK`. -/
def lookupByHash (db : State) (hash : ByteString) : Except String (Option LoggedEntry) :=
  match db.index.idByHash hash with
  | none => return none
  | some sequenceNumber =>
      match db.storage.lookup sequenceNumber with
      | none => return none
      | some logged =>
          if logged.hash ≠ hash then throw "Check failed: logged.Hash() == hash"
          else return some logged

def step (db : State) (op : Op) : Except String State := stepWith scan db op

def run (ops : List Op) : Except String State := runWith scan ops

end LevelDB

end CertTrans
