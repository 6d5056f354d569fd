import Mathlib.Logic.Relation
import CertTrans.Codec.Bytes
import CertTrans.Python.Merkle

/-!
`Monitor` of `ct/client/monitor.py`: the client that follows a log.  It keeps
the last STH it verified, an STH whose entries it is still fetching (the
pending one), and two compact Merkle trees: the verified tree, over the entries
checked against an STH, and the unverified tree, over the entries fetched so
far.  Every change of state is written by the state keeper.

The monitor runs on Twisted callbacks, so it is modelled as a state machine:
`Event` lists what can happen next, with what the log server answers in it
(an STH, a consistency proof, a batch of entries, or a failed request), and
`step` is the callback chain that event runs.  A run with arbitrary events is
a run against an arbitrary log server.  An `update()` runs to its end before
the next one starts; scan threads may finish at any time, also after the fetch
that started them has failed.

The entry producer of `log_client.py` is not modelled line by line; what the
monitor relies on is in the guards of `step`: it writes non-empty batches, no
more entries in all than asked for (`_parse_entries` rejects a larger answer),
and calls `done` with the number asked for once it has written them all, or
with `None` when it fails.

The signature check of `verify_sth` below the encoding of its input (decoding
`tree_head_signature`, checking its algorithms, and the ECDSA or RSA
verification with the log key) is the parameter `verifySignature`.
-/

namespace CertTrans.Python.Client

open Codec
open CertTrans.Python.Merkle

/-- `client_pb2.SthResponse`. -/
structure SthResponse where
  treeSize : Nat
  timestamp : Nat
  sha256RootHash : ByteString
  treeHeadSignature : ByteString
deriving DecidableEq, Repr

def SthResponse.empty : SthResponse := ⟨0, 0, [], []⟩

/-- `client_pb2.MonitorState`, with `none` for an unset STH. -/
structure MonitorState where
  verifiedSth : Option SthResponse
  pendingSth : Option SthResponse
  verifiedTree : Merkle.CompactMerkleTree.Saved
  unverifiedTree : Merkle.CompactMerkleTree.Saved
deriving DecidableEq, Repr

namespace MonitorState

/-- `client_pb2.MonitorState()`. -/
def empty : MonitorState := ⟨none, none, ⟨0, []⟩, ⟨0, []⟩⟩

/-- `state.verified_sth`, read through an unset field. -/
def verified (state : MonitorState) : SthResponse := state.verifiedSth.getD .empty

/-- `state.pending_sth`, read through an unset field. -/
def pending (state : MonitorState) : SthResponse := state.pendingSth.getD .empty

end MonitorState

/-- `error.VerifyError`, of which the Merkle verifier raises `ConsistencyError`
and `ProofError`. -/
def isVerifyError : Error → Bool
  | .consistencyError _ | .proofError _ => true
  | _ => false

section Verify

variable (th : TreeHasher) (verifySignature : ByteString → ByteString → Bool)

/-- `_encode_sth_input`: `struct.pack(">BBQQ32s", V1, TREE_HEAD, timestamp,
tree_size, sha256_root_hash)`; `none` where it raises, for a root hash that is
not 32 bytes long (`EncodingError`) or a number `Q` cannot hold. -/
def encodeSthInput (sth : SthResponse) : Option ByteString :=
  if sth.sha256RootHash.length ≠ 32 then none
  else if 2 ^ 64 ≤ sth.timestamp ∨ 2 ^ 64 ≤ sth.treeSize then none
  else some ([0, 1] ++ encodeBE sth.timestamp 8 ++ encodeBE sth.treeSize 8 ++ sth.sha256RootHash)

/-- `verify_sth`: `true` where it returns, `false` where it raises. -/
def verifySth (sth : SthResponse) : Bool :=
  match encodeSthInput sth with
  | none => false
  | some signatureInput => verifySignature signatureInput sth.treeHeadSignature

/-- `verify_sth_temporal_consistency`. -/
def verifySthTemporalConsistency (oldSth newSth : SthResponse) : Except Error Unit :=
  if oldSth.timestamp > newSth.timestamp then
    throw (.valueError ("Older STH has newer timestamp (" ++ toString oldSth.timestamp ++ " vs " ++
      toString newSth.timestamp ++ "), did you supply inputs in the wrong order?"))
  else if oldSth.timestamp = newSth.timestamp ∧ oldSth.treeSize ≠ newSth.treeSize then
    throw (.consistencyError "Inconsistency: different tree sizes for the same timestamp")
  else if oldSth.timestamp < newSth.timestamp ∧ oldSth.treeSize > newSth.treeSize then
    throw (.consistencyError "Inconsistency: older tree has bigger size")
  else pure ()

/-- `verify_sth_consistency`: the temporal check, then the consistency proof.
`verify_tree_consistency` returns only `True`, so the decorator that raises
on any other value never does. -/
def verifySthConsistency (oldSth newSth : SthResponse) (proof : List ByteString) :
    Except Error Unit := do
  verifySthTemporalConsistency oldSth newSth
  let _ ← Merkle.MerkleVerifier.verifyTreeConsistency th oldSth.treeSize newSth.treeSize
    oldSth.sha256RootHash newSth.sha256RootHash proof
  pure ()

/-- `_compute_projected_sth_from_tree(tree, extra_leaves)`, with the leaf
inputs of the extra leaves: a partial STH with a dummy timestamp and no
signature, and the extended tree. -/
def computeProjectedSthFromTree (tree : Merkle.CompactMerkleTree) (extraLeaves : List ByteString) :
    Except Error (SthResponse × Merkle.CompactMerkleTree) := do
  let newTree ← tree.extended th extraLeaves
  let (rootHash, newTree) ← newTree.rootHash th
  pure (⟨tree.treeSize + extraLeaves.length, 0, rootHash, []⟩, newTree)

end Verify

structure EntryConsumer where
  querySize : Nat
  fetched : Nat
  unverifiedTree : Merkle.CompactMerkleTree
  partialSth : Option SthResponse

structure Monitor where
  state : MonitorState
  stateFile : Option MonitorState
  verifiedTree : Merkle.CompactMerkleTree
  unverifiedTree : Merkle.CompactMerkleTree
  consumer : Option EntryConsumer
  scans : Nat

inductive Event
  /-- `update()` asks for an STH: get-sth's answer, and the proof
  get-sth-consistency returns for it; `none` for a request that fails. -/
  | updateSth (sthResponse : Option SthResponse) (proof : Option (List ByteString))
  /-- `update()` finds entries of the pending STH missing and fetches them. -/
  | fetchEntries
  /-- `update()` has the entries of the pending STH and checks them, with the
  proof get-sth-consistency returns. -/
  | verifyEntries (proof : Option (List ByteString))
  /-- The producer writes a batch of entries, by their leaf inputs. -/
  | consume (entryBatch : List ByteString)
  /-- The producer has written every entry; the proof is the one
  get-sth-consistency returns for the check that follows. -/
  | finish (proof : Option (List ByteString))
  /-- The producer fails. -/
  | fail
  /-- A scan thread finishes, or raises. -/
  | scanFinished (failed : Bool)

namespace Monitor

variable (th : TreeHasher) (verifySignature : ByteString → ByteString → Bool)

/-- `__init__`: the state from the state file, or an empty one on a first run,
and both trees loaded from it. -/
def new (stateFile : Option MonitorState) : Except Error Monitor := do
  let state := stateFile.getD .empty
  let verifiedTree ← Merkle.CompactMerkleTree.load state.verifiedTree
  let unverifiedTree ← Merkle.CompactMerkleTree.load state.unverifiedTree
  pure ⟨state, stateFile, verifiedTree, unverifiedTree, none, 0⟩

/-- `__update_state(new_state)`: both trees are saved into the new state,
which is written and kept. -/
def updateState (m : Monitor) (newState : MonitorState) : Monitor :=
  let newState := { newState with
    verifiedTree := m.verifiedTree.save, unverifiedTree := m.unverifiedTree.save }
  { m with state := newState, stateFile := some newState }

/-- `_set_pending_sth(new_sth)`: an STH larger than the verified one becomes
pending, one of the same size replaces it. -/
def setPendingSth (m : Monitor) (newSth : SthResponse) : Except Error Monitor :=
  if newSth.treeSize < m.state.verified.treeSize then
    throw (.valueError "pending size must be >= verified size")
  else if newSth.timestamp ≤ m.state.verified.timestamp then
    throw (.valueError "pending time must be > verified time")
  else if newSth.treeSize > m.state.verified.treeSize then
    pure (m.updateState { m.state with pendingSth := some newSth })
  else pure (m.updateState { m.state with verifiedSth := some newSth })

/-- `_set_verified_tree(new_tree)`; a failed `assert` raises `AssertionError`. -/
def setVerifiedTree (m : Monitor) (newTree : Merkle.CompactMerkleTree) : Except Error Monitor := do
  let pendingSth := m.state.pending
  if pendingSth.treeSize < newTree.treeSize then throw .assertionError
  if pendingSth.treeSize = newTree.treeSize then
    let (rootHash, newTree) ← newTree.rootHash th
    if pendingSth.sha256RootHash ≠ rootHash then throw .assertionError
    pure ({ m with verifiedTree := newTree }.updateState
      { m.state with verifiedSth := some pendingSth, pendingSth := none })
  else pure ({ m with verifiedTree := newTree }.updateState m.state)

/-- `_update_unverified_data(unverified_tree)`. -/
def updateUnverifiedData (m : Monitor) (unverifiedTree : Merkle.CompactMerkleTree) : Monitor :=
  { m with unverifiedTree }.updateState m.state

/-- `_verify_new_tree(partial_sth, new_tree, ...)` with the answer of
get-sth-consistency.  A consistency error sends the unverified tree back to
the verified one; any other exception of the check reaches
`_update_entries_errback` and changes nothing; an exception of
`_set_verified_tree` is the result. -/
def verifyNewTree (m : Monitor) (partialSth : SthResponse) (newTree : Merkle.CompactMerkleTree)
    (proof : Option (List ByteString)) : Except Error Monitor :=
  match proof with
  | none => pure m
  | some proof =>
      match verifySthConsistency th partialSth m.state.pending proof with
      | .ok () => m.setVerifiedTree th newTree
      | .error e => if isVerifyError e then pure (m.updateUnverifiedData m.verifiedTree) else pure m

/-- `_update_sth` and `__update_sth_callback`, with the answers of get-sth and
of get-sth-consistency.  Every exception on the way ends in an errback that
returns `False`, leaving the state as it was. -/
def updateSth (m : Monitor) (sthResponse : Option SthResponse)
    (proof : Option (List ByteString)) : Monitor :=
  if m.state.pendingSth.isSome then m
  else
    match sthResponse with
    | none => m
    | some sthResponse =>
        if m.state.verifiedSth = some sthResponse then m
        -- an older STH is only checked for consistency in the background
        else if m.state.verifiedSth.isSome ∧
            sthResponse.timestamp < m.state.verified.timestamp then m
        else if !verifySth verifySignature sthResponse then m
        else
          match proof with
          | none => m
          | some proof =>
              match verifySthConsistency th m.state.verified sthResponse proof with
              | .error _ => m
              | .ok () =>
                  match m.setPendingSth sthResponse with
                  | .ok m' => m'
                  | .error _ => m

/-- `_fetch_entries(start, end)`: a consumer that builds on the unverified
tree. -/
def fetchEntries (m : Monitor) (start last : Nat) : Monitor :=
  { m with consumer := some ⟨last - start + 1, 0, m.unverifiedTree, none⟩ }

/-- `EntryConsumer.consume(entry_batch)`: a scan thread starts, the
consumer's tree takes the batch, and the monitor keeps that tree as its
unverified one.  An exception stops the producer, which ends the fetch. -/
def consume (m : Monitor) (c : EntryConsumer) (entryBatch : List ByteString) : Monitor :=
  let c := { c with fetched := c.fetched + entryBatch.length }
  let m := { m with scans := m.scans + 1 }
  match computeProjectedSthFromTree th c.unverifiedTree entryBatch with
  | .error _ => { m with consumer := none }
  | .ok (partialSth, unverifiedTree) =>
      { m with consumer := some { c with partialSth := some partialSth, unverifiedTree } }
        |>.updateUnverifiedData unverifiedTree

/-- `EntryConsumer.done(result)`, which ends the fetch.  With `_partial_sth`
unset the `AttributeError` reaches `_fetch_entries_errback`, which calls
`done(None)`. -/
def done (m : Monitor) (c : EntryConsumer) (result : Option Nat)
    (proof : Option (List ByteString)) : Except Error Monitor :=
  let m := { m with consumer := none }
  match result with
  | none | some 0 => pure m
  | some result =>
      if result < c.querySize then pure m
      else
        match c.partialSth with
        | none => pure m
        | some partialSth => m.verifyNewTree th partialSth c.unverifiedTree proof

/-- `_verify_entries`: the unverified tree checked against the pending STH. -/
def verifyEntries (m : Monitor) (proof : Option (List ByteString)) : Except Error Monitor := do
  let (projectedSth, newTree) ← computeProjectedSthFromTree th m.unverifiedTree []
  m.verifyNewTree th projectedSth newTree proof

def step (m : Monitor) : Event → Option (Except Error Monitor)
  | .updateSth sthResponse proof =>
      if m.consumer.isSome then none
      else some (pure (m.updateSth th verifySignature sthResponse proof))
  | .fetchEntries =>
      match m.consumer, m.state.pendingSth with
      | none, some pendingSth =>
          if m.unverifiedTree.treeSize < pendingSth.treeSize then
            some (pure (m.fetchEntries m.unverifiedTree.treeSize (pendingSth.treeSize - 1)))
          else none
      | _, _ => none
  | .verifyEntries proof =>
      match m.consumer, m.state.pendingSth with
      | none, some pendingSth =>
          if pendingSth.treeSize ≤ m.unverifiedTree.treeSize then some (m.verifyEntries th proof)
          else none
      | _, _ => none
  | .consume entryBatch =>
      match m.consumer with
      | some c =>
          if entryBatch ≠ [] ∧ c.fetched + entryBatch.length ≤ c.querySize then
            some (pure (m.consume th c entryBatch))
          else none
      | none => none
  | .finish proof =>
      match m.consumer with
      | some c =>
          if c.fetched = c.querySize then some (m.done th c (some c.querySize) proof) else none
      | none => none
  | .fail =>
      match m.consumer with
      | some c => some (m.done th c none none)
      | none => none
  | .scanFinished failed =>
      if m.scans = 0 then none
      else
        let m := { m with scans := m.scans - 1 }
        some (pure (if failed then m.updateUnverifiedData m.verifiedTree else m))

def Steps (m m' : Monitor) : Prop := ∃ e, m.step th verifySignature e = some (.ok m')

def Reachable (m : Monitor) : Prop :=
  ∃ m₀, new none = .ok m₀ ∧ Relation.ReflTransGen (Steps th verifySignature) m₀ m

end Monitor

end CertTrans.Python.Client
