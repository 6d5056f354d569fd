import CertTrans.Proto.Serializer

/-!
The `MerkleTreeLeaf` encoders and decoders of `cert_serializer.cc`, and the
configuration that `ConfigureSerializerForV1CT` and
`ConfigureSerializerForV2CT` install behind
`Serializer::SerializeSCTMerkleTreeLeaf` and
`Deserializer::DeserializeMerkleTreeLeaf`.

A leaf decoder can end the process: `CHECK(LogEntryType_IsValid(...))` and
the `LOG(FATAL)` after its `switch` read the entry type off the input.  The
process ending is the outer `Except String` of a leaf read, with the failed
condition as text; the inner `Except` is the `DeserializeResult` returned.
-/

namespace CertTrans

open Serializer TLSSerializer TLSDeserializer

def kMaxCertificateLength : Nat := 2 ^ 24 - 1

def checkCertificateFormat (cert : ByteString) : SerializeResult :=
  if cert.isEmpty then .emptyCertificate
  else if cert.length > kMaxCertificateLength then .certificateTooLong
  else .ok

def checkKeyHashFormat (keyHash : ByteString) : SerializeResult :=
  if keyHash.length ≠ kKeyHashLengthInBytes then .invalidHashLength else .ok

def serializeV1CertSCTMerkleTreeLeaf (timestamp : UInt64) (certificate extensions : ByteString) :
    Except SerializeResult ByteString := do
  (checkCertificateFormat certificate).check
  (checkExtensionsFormat extensions).check
  return writeUint Version.v1.toNat kVersionLengthInBytes ++
    writeUint MerkleLeafType.timestampedEntry.toNat kMerkleLeafTypeLengthInBytes ++
    writeUint timestamp.toNat kTimestampLengthInBytes ++
    writeUint LogEntryType.x509Entry.toNat kLogEntryTypeLengthInBytes ++
    writeVarBytes certificate kMaxCertificateLength ++
    writeVarBytes extensions kMaxExtensionsLength

def serializeV1PrecertSCTMerkleTreeLeaf (timestamp : UInt64)
    (issuerKeyHash tbsCertificate extensions : ByteString) : Except SerializeResult ByteString := do
  (checkCertificateFormat tbsCertificate).check
  (checkKeyHashFormat issuerKeyHash).check
  (checkExtensionsFormat extensions).check
  return writeUint Version.v1.toNat kVersionLengthInBytes ++
    writeUint MerkleLeafType.timestampedEntry.toNat kMerkleLeafTypeLengthInBytes ++
    writeUint timestamp.toNat kTimestampLengthInBytes ++
    writeUint LogEntryType.precertEntry.toNat kLogEntryTypeLengthInBytes ++
    writeFixedBytes issuerKeyHash ++
    writeVarBytes tbsCertificate kMaxCertificateLength ++
    writeVarBytes extensions kMaxExtensionsLength

def serializeV1SCTMerkleTreeLeaf (sct : SignedCertificateTimestamp) (entry : LogEntry) :
    Except SerializeResult ByteString :=
  if sct.version ≠ .v1 then throw .unsupportedVersion
  else
    match entry.type with
    | .x509Entry =>
        serializeV1CertSCTMerkleTreeLeaf sct.timestamp entry.x509Entry.leafCertificate sct.extensions
    | .precertEntry =>
        serializeV1PrecertSCTMerkleTreeLeaf sct.timestamp entry.precertEntry.preCert.issuerKeyHash
          entry.precertEntry.preCert.tbsCertificate sct.extensions
    | _ => throw .invalidEntryType

/-- `SerializeV2CertSCTMerkleTreeLeaf`: unlike the precertificate case, the
issuer key hash is written with no check of its length. -/
def serializeV2CertSCTMerkleTreeLeaf (timestamp : UInt64) (issuerKeyHash tbsCertificate : ByteString)
    (sctExtension : List SctExtension) : Except SerializeResult ByteString := do
  (checkCertificateFormat tbsCertificate).check
  (checkSctExtensionsFormat sctExtension).check
  return writeUint Version.v2.toNat kVersionLengthInBytes ++
    writeUint MerkleLeafType.timestampedEntry.toNat kMerkleLeafTypeLengthInBytes ++
    writeUint timestamp.toNat kTimestampLengthInBytes ++
    writeUint LogEntryType.x509Entry.toNat kLogEntryTypeLengthInBytes ++
    writeFixedBytes issuerKeyHash ++
    writeVarBytes tbsCertificate kMaxCertificateLength ++
    writeSctExtension sctExtension

def serializeV2PrecertSCTMerkleTreeLeaf (timestamp : UInt64)
    (issuerKeyHash tbsCertificate : ByteString) (sctExtension : List SctExtension) :
    Except SerializeResult ByteString := do
  (checkCertificateFormat tbsCertificate).check
  (checkKeyHashFormat issuerKeyHash).check
  (checkSctExtensionsFormat sctExtension).check
  return writeUint Version.v2.toNat kVersionLengthInBytes ++
    writeUint MerkleLeafType.timestampedEntry.toNat kMerkleLeafTypeLengthInBytes ++
    writeUint timestamp.toNat kTimestampLengthInBytes ++
    writeUint LogEntryType.precertEntryV2.toNat kLogEntryTypeLengthInBytes ++
    writeFixedBytes issuerKeyHash ++
    writeVarBytes tbsCertificate kMaxCertificateLength ++
    writeSctExtension sctExtension

/-- `SerializeV2SCTMerkleTreeLeaf`, which begins with `CHECK_EQ(ct::V2,
sct.version())`. -/
def serializeV2SCTMerkleTreeLeaf (sct : SignedCertificateTimestamp) (entry : LogEntry) :
    Except String (Except SerializeResult ByteString) :=
  if sct.version ≠ .v2 then .error "Check failed: ct::V2 == sct.version()"
  else
    .ok <| match entry.type with
    | .x509Entry =>
        serializeV2CertSCTMerkleTreeLeaf sct.timestamp entry.x509Entry.certInfo.issuerKeyHash
          entry.x509Entry.certInfo.tbsCertificate sct.sctExtension
    | .precertEntryV2 =>
        serializeV2PrecertSCTMerkleTreeLeaf sct.timestamp entry.precertEntry.certInfo.issuerKeyHash
          entry.precertEntry.certInfo.tbsCertificate sct.sctExtension
    | _ => throw .invalidEntryType

namespace TLSDeserializer

abbrev LeafReadM := StateT ByteString (ExceptT DeserializeResult (Except String))

/-- `ReadExtensions`: the V1 extensions, one opaque byte string. -/
def readExtensions : LeafReadM ByteString :=
  (readVarBytes kMaxExtensionsLength).orThrow .inputTooShort

end TLSDeserializer

def deserializeV1SCTMerkleTreeLeaf : LeafReadM MerkleTreeLeaf := do
  let version ← (readUint kVersionLengthInBytes).orThrow .inputTooShort
  if version ≠ Version.v1.toNat then throw .unsupportedVersion
  else
    let type ← (readUint kMerkleLeafTypeLengthInBytes).orThrow .inputTooShort
    if type ≠ MerkleLeafType.timestampedEntry.toNat then throw .unknownLeafType
    else
      let timestamp ← (readUint kTimestampLengthInBytes).orThrow .inputTooShort
      let entryType ← (readUint kLogEntryTypeLengthInBytes).orThrow .inputTooShort
      match LogEntryType.ofNat? entryType with
      | none => throwThe String "Check failed: LogEntryType_IsValid(entry_type)"
      | some logEntryType =>
          match logEntryType with
          | .x509Entry =>
              let x509 ← (readVarBytes kMaxCertificateLength).orThrow .inputTooShort
              let extensions ← readExtensions
              return { version := .v1, type := .timestampedEntry,
                       timestampedEntry := { timestamp := timestamp.toUInt64, entryType := logEntryType,
                                             signedEntry := { x509 }, extensions } }
          | .precertEntry =>
              let issuerKeyHash ← (readFixedBytes 32).orThrow .inputTooShort
              let tbsCertificate ← (readVarBytes kMaxCertificateLength).orThrow .inputTooShort
              let extensions ← readExtensions
              return { version := .v1, type := .timestampedEntry,
                       timestampedEntry := { timestamp := timestamp.toUInt64, entryType := logEntryType,
                                             signedEntry := { precert := { issuerKeyHash, tbsCertificate } },
                                             extensions } }
          | _ => throwThe String ("entry_type: " ++ toString entryType)

/-- `DeserializeV2SCTMerkleTreeLeaf`: the extensions are read by
`ReadExtensions`, as one opaque byte string. -/
def deserializeV2SCTMerkleTreeLeaf : LeafReadM MerkleTreeLeaf := do
  let version ← (readUint kVersionLengthInBytes).orThrow .inputTooShort
  if version ≠ Version.v2.toNat then throw .unsupportedVersion
  else
    let type ← (readUint kMerkleLeafTypeLengthInBytes).orThrow .inputTooShort
    if type ≠ MerkleLeafType.timestampedEntry.toNat then throw .unknownLeafType
    else
      let timestamp ← (readUint kTimestampLengthInBytes).orThrow .inputTooShort
      let entryType ← (readUint kLogEntryTypeLengthInBytes).orThrow .inputTooShort
      match LogEntryType.ofNat? entryType with
      | none => throwThe String "Check failed: LogEntryType_IsValid(entry_type)"
      | some logEntryType =>
          match logEntryType with
          -- in V2 both X509 and precertificate entries carry a `CertInfo`
          | .x509Entry | .precertEntryV2 =>
              let issuerKeyHash ← (readFixedBytes 32).orThrow .inputTooShort
              let tbsCertificate ← (readVarBytes kMaxCertificateLength).orThrow .inputTooShort
              let extensions ← readExtensions
              return { version := .v2, type := .timestampedEntry,
                       timestampedEntry := { timestamp := timestamp.toUInt64, entryType := logEntryType,
                                             signedEntry := { certInfo := { issuerKeyHash, tbsCertificate } },
                                             extensions } }
          | _ => throwThe String ("entry_type: " ++ toString entryType)

inductive SerializerConfig
  | v1CT
  | v2CT
deriving DecidableEq, Repr

/-- `Serializer::SerializeSCTMerkleTreeLeaf` under a configuration. -/
def Serializer.serializeSCTMerkleTreeLeaf (config : SerializerConfig)
    (sct : SignedCertificateTimestamp) (entry : LogEntry) :
    Except String (Except SerializeResult ByteString) :=
  match config with
  | .v1CT => .ok (serializeV1SCTMerkleTreeLeaf sct entry)
  | .v2CT => serializeV2SCTMerkleTreeLeaf sct entry

/-- `read_merkle_tree_leaf` under a configuration. -/
def readMerkleTreeLeaf : SerializerConfig → LeafReadM MerkleTreeLeaf
  | .v1CT => deserializeV1SCTMerkleTreeLeaf
  | .v2CT => deserializeV2SCTMerkleTreeLeaf

/-- `Deserializer::DeserializeMerkleTreeLeaf` under a configuration. -/
def Deserializer.deserializeMerkleTreeLeaf (config : SerializerConfig) (input : ByteString) :
    Except String (Except DeserializeResult MerkleTreeLeaf) := do
  match ← ((readMerkleTreeLeaf config).run input).run with
  | .error res => return .error res
  | .ok (leaf, rest) => return if rest ≠ [] then .error .inputTooLong else .ok leaf

end CertTrans
