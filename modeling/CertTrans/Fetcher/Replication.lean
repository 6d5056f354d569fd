import CertTrans.Log.LoggedEntry
import CertTrans.Server.Handler

/-!
An entry on its way from one log node to another.  `BlockingGetEntries`
(`handler.cc`) writes its leaf input, its extra data and, for `include_scts`,
its SCT; `DoneGetEntries` (`async_log_client.cc`) parses them into an
`AsyncLogClient::Entry`; `FetchState::WriteToDatabase` (`fetcher.cc`) rebuilds
a `LoggedEntry` with `CopyFromClientLogEntry`, puts the SCT it was sent in place
of the rebuilt one, checks it, and hands the entry to `CreateSequencedEntry`.

Each function here is the body of its loop for one entry.  The JSON and base64
around the three byte strings give the bytes back and are left out.  The
results of `DeserializeX509Chain` and `DeserializePrecertChainEntry` are not
checked: where one fails the model leaves the chain empty, while the code keeps
the elements read before the failure.
-/

namespace CertTrans

open Serializer

variable (config : SerializerConfig)

def HttpHandler.blockingGetEntriesEntry (includeScts : Bool) (e : LoggedEntryPB) :
    Except String (Option HttpHandler.EntryJson) := do
  let some leafInput ← e.serializeForLeaf config | return none
  let some extraData ← e.serializeExtraData | return none
  if includeScts then
    match Serializer.serializeSCT e.sct with
    | .ok sctData => return some ⟨leafInput, extraData, some sctData⟩
    | .error _ => return none
  else return some ⟨leafInput, extraData, none⟩

def AsyncLogClient.readSCT : Option ByteString → Option (Option SignedCertificateTimestamp)
  | none => some none
  | some sctData => (Deserializer.deserializeSCT sctData).toOption.map some

def AsyncLogClient.doneGetEntriesEntry (json : HttpHandler.EntryJson) :
    Except String (Option AsyncLogClient.Entry) := do
  let .ok leaf ← Deserializer.deserializeMerkleTreeLeaf config json.leafInput | return none
  let some sct := AsyncLogClient.readSCT json.sct | return none
  match leaf.timestampedEntry.entryType with
  | .x509Entry =>
      let certificateChain := (deserializeX509Chain json.extraData).toOption.getD []
      return some { leaf, sct, entry := { x509Entry := { certificateChain } } }
  | .precertEntry =>
      let (preCertificate, precertificateChain) :=
        (deserializePrecertChainEntry json.extraData).toOption.getD ([], [])
      return some { leaf, sct, entry := { precertEntry := { preCertificate, precertificateChain } } }
  | .xJsonEntry => return some { leaf, sct }
  | type => throw ("Don\x27t understand entry type: " ++ toString type.toNat)

inductive FetchState.EntryError
  | format
  | sctVerifyFailed (message : String)
deriving DecidableEq, Repr

def FetchState.writeToDatabaseEntry (verifier : LogVerifier) (now : UInt64) (index : Int)
    (entry : AsyncLogClient.Entry) : Except String (Except FetchState.EntryError LoggedEntryPB) := do
  let some cert ← LoggedEntryPB.copyFromClientLogEntry entry | return .error .format
  match entry.sct with
  | none => return .ok { cert with sequenceNumber := some index }
  | some sct =>
      -- the SCT sent with the entry replaces the one rebuilt from its leaf
      let verifyResult := verifier.verifySignedCertificateTimestamp config now cert.entry sct
      if verifyResult ≠ .verifyOk then
        return .error (.sctVerifyFailed ("Failed to verify SCT signature for entry# " ++
          toString index ++ " : " ++ verifyResult.verifyResultString))
      else return .ok { cert with sct, sequenceNumber := some index }

def replicateEntry (verifier : LogVerifier) (now : UInt64) (includeScts : Bool) (index : Int)
    (e : LoggedEntryPB) : Except String (Option LoggedEntryPB) := do
  let some json ← HttpHandler.blockingGetEntriesEntry config includeScts e | return none
  let some entry ← AsyncLogClient.doneGetEntriesEntry config json | return none
  match ← FetchState.writeToDatabaseEntry config verifier now index entry with
  | .ok cert => return some cert
  | .error _ => return none

end CertTrans
