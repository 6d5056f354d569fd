import CertTrans.Proto.ListSerializer
import CertTrans.Proto.SignatureInput

/-!
`cert_trans::LoggedEntry` (`logged_entry.h`, `logged_entry.cc`) over the
`ct::LoggedEntryPB` it extends, the chain serializers of `cert_serializer.cc`
its extra data goes through, and the check of an SCT by `LogVerifier`
(`log_verifier.cc`, with `LogSigVerifier::VerifySCTSignature` of
`log_signer.cc` and `Verifier::Verify` of `verifier.cc`).

`Hash()` is SHA-256 of `LeafData`, with the `SerialHasher` a parameter as in
the tree code; the public-key operation `Verifier::RawVerify` is a parameter of
the verifier.  The `has_*` checks of `CertV1LeafData` and `CertV2LeafData` test
the presence of a field, which the model does not keep, and are left out; a
key id is present when it is not empty.  A `LOG(FATAL)` is the outer
`Except String`.
-/

namespace CertTrans

open Serializer TLSSerializer TLSDeserializer

def kMaxCertificateChainLength : Nat := 2 ^ 24 - 1

def serializeX509Chain (entry : X509ChainEntry) : Except String (Except SerializeResult ByteString) :=
  serializeList entry.certificateChain kMaxCertificateLength kMaxCertificateChainLength

/-- `SerializePrecertChainEntry(pre_certificate, precertificate_chain)`, which
the overload on a `PrecertChainEntry` calls with its two fields. -/
def serializePrecertChainEntry (preCertificate : ByteString) (precertificateChain : List ByteString) :
    Except String (Except SerializeResult ByteString) :=
  if preCertificate.length > kMaxCertificateLength then return .error .certificateTooLong
  else if preCertificate.isEmpty then return .error .emptyCertificate
  else do
    let header ← writeVarBytesChecked preCertificate kMaxCertificateLength
    match ← writeList precertificateChain kMaxCertificateLength kMaxCertificateChainLength with
    | .error res => return .error res
    | .ok list => return .ok (header ++ list)

def deserializeX509Chain (input : ByteString) : Except DeserializeResult (List ByteString) :=
  Deserializer.deserializeList input kMaxCertificateChainLength kMaxCertificateLength

def readPrecertChainEntry : ReadM (ByteString × List ByteString) := do
  let preCertificate ← (readVarBytes kMaxCertificateLength).orThrow .inputTooShort
  let precertificateChain ← readList kMaxCertificateChainLength kMaxCertificateLength
  return (preCertificate, precertificateChain)

def deserializePrecertChainEntry (input : ByteString) :
    Except DeserializeResult (ByteString × List ByteString) := do
  let (chainEntry, rest) ← readPrecertChainEntry.run input
  if rest ≠ [] then throw .inputTooLong else return chainEntry

/-- `Serializer::LeafData` under a configuration: `CertV1LeafData` or
`CertV2LeafData`, the certificate bytes an entry is known by. -/
def Serializer.leafData (config : SerializerConfig) (entry : LogEntry) : Except String ByteString :=
  match config, entry.type with
  | .v1CT, .x509Entry => .ok entry.x509Entry.leafCertificate
  | .v1CT, .precertEntry => .ok entry.precertEntry.preCert.tbsCertificate
  | .v2CT, .x509Entry => .ok entry.x509Entry.certInfo.tbsCertificate
  | .v2CT, .precertEntryV2 => .ok entry.precertEntry.certInfo.tbsCertificate
  | _, type => .error ("Invalid entry type " ++ toString type.toNat)

/-- `ct::LoggedEntryPB`: the `sequence_number` when set, and the SCT and the
entry of its `contents`. -/
structure LoggedEntryPB where
  sequenceNumber : Option Int := none
  sct : SignedCertificateTimestamp := {}
  entry : LogEntry := {}
deriving DecidableEq, Repr

/-- `AsyncLogClient::Entry`: a leaf, the parts of the entry that the leaf does
not carry, and the SCT when one was sent. -/
structure AsyncLogClient.Entry where
  leaf : MerkleTreeLeaf := {}
  entry : LogEntry := {}
  sct : Option SignedCertificateTimestamp := none
deriving DecidableEq, Repr

namespace LoggedEntryPB

variable (config : SerializerConfig)

/-- `LoggedEntry::Hash`. -/
def hash (sha256 : SerialHasher) (e : LoggedEntryPB) : Except String ByteString :=
  sha256.digest <$> Serializer.leafData config e.entry

/-- `LoggedEntry::SerializeForLeaf`: the leaf input, `none` where it returns
`false`. -/
def serializeForLeaf (e : LoggedEntryPB) : Except String (Option ByteString) :=
  Except.toOption <$> Serializer.serializeSCTMerkleTreeLeaf config e.sct e.entry

/-- `LoggedEntry::SerializeExtraData`: the chain, `none` where it returns
`false`. -/
def serializeExtraData (e : LoggedEntryPB) : Except String (Option ByteString) :=
  match e.entry.type with
  | .x509Entry => Except.toOption <$> serializeX509Chain e.entry.x509Entry
  | .precertEntry =>
      Except.toOption <$> serializePrecertChainEntry e.entry.precertEntry.preCertificate
        e.entry.precertEntry.precertificateChain
  | .precertEntryV2 => .error "CT V2 not yet implemented"
  | .xJsonEntry => .ok (some [])
  | .unknownEntryType => .error ("Unknown entry type " ++ toString e.entry.type.toNat)

/-- `LoggedEntry::CopyFromClientLogEntry` into a cleared entry: `none` where
it returns `false`.  The SCT gets only the fields the leaf carries. -/
def copyFromClientLogEntry (entry : AsyncLogClient.Entry) : Except String (Option LoggedEntryPB) :=
  let t := entry.leaf.timestampedEntry
  if t.entryType ≠ .x509Entry ∧ t.entryType ≠ .precertEntry ∧ t.entryType ≠ .xJsonEntry then
    .ok none
  else
    let sct : SignedCertificateTimestamp :=
      { version := .v1, timestamp := t.timestamp, extensions := t.extensions }
    let logEntry : LogEntry := { entry.entry with type := t.entryType }
    match t.entryType with
    | .x509Entry =>
        .ok (some { sct, entry := { logEntry with
          x509Entry := { logEntry.x509Entry with leafCertificate := t.signedEntry.x509 } } })
    | .precertEntry =>
        .ok (some { sct, entry := { logEntry with
          precertEntry := { logEntry.precertEntry with preCert := t.signedEntry.precert } } })
    | .xJsonEntry => .ok (some { sct, entry := logEntry })
    | .precertEntryV2 => .error "CT V2 not yet implemented"
    | .unknownEntryType => .error "unknown entry type"

end LoggedEntryPB

inductive LogVerifyResult
  | verifyOk
  | invalidFormat
  | invalidTimestamp
  | inconsistentTimestamps
  | invalidSignature
  | invalidMerklePath
deriving DecidableEq, Repr

def LogVerifyResult.verifyResultString : LogVerifyResult → String
  | .verifyOk => "Verify OK."
  | .invalidFormat => "Invalid format."
  | .invalidTimestamp => "Invalid timestamp."
  | .inconsistentTimestamps => "Inconsistent timestamps."
  | .invalidSignature => "Invalid signature."
  | .invalidMerklePath => "Invalid Merkle path."

structure LogVerifier where
  keyId : ByteString
  hashAlgorithm : DigitallySigned.HashAlgorithm
  sigAlgorithm : DigitallySigned.SignatureAlgorithm
  rawVerify : ByteString → ByteString → Bool

namespace LogVerifier

variable (verifier : LogVerifier) (config : SerializerConfig)

/-- `Verifier::Verify` is `OK`. -/
def verify (input : ByteString) (signature : DigitallySigned) : Bool :=
  signature.hashAlgorithm == verifier.hashAlgorithm &&
    signature.sigAlgorithm == verifier.sigAlgorithm &&
    verifier.rawVerify input signature.signature

/-- `LogSigVerifier::VerifySCTSignature` is `OK`. -/
def verifySCTSignature (entry : LogEntry) (sct : SignedCertificateTimestamp) : Bool :=
  -- a key id of another key is refused before the signature is looked at
  if sct.keyId ≠ [] ∧ sct.keyId ≠ verifier.keyId then false
  else
    match Serializer.serializeSCTSignatureInput config sct entry with
    | .ok input => verifier.verify input sct.signature
    | .error _ => false

def isBetween (timestamp earliest latest : UInt64) : Bool :=
  timestamp ≥ earliest && timestamp ≤ latest

/-- `VerifySignedCertificateTimestamp(entry, sct)` at the time `now`, which
allows a second of slack into the future. -/
def verifySignedCertificateTimestamp (now : UInt64) (entry : LogEntry)
    (sct : SignedCertificateTimestamp) : LogVerifyResult :=
  if !isBetween sct.timestamp 0 (now + 1000) then .invalidTimestamp
  else if !verifier.verifySCTSignature config entry sct then .invalidSignature
  else .verifyOk

end LogVerifier

end CertTrans
