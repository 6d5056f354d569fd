import CertTrans.Proto.CertSerializer

/-!
The signature inputs of `cert_serializer.cc` and `serializer.cc`: the bytes a
log signs for an SCT (`SerializeV1SCTSignatureInput`,
`SerializeV2SCTSignatureInput`) and for a tree head
(`SerializeV1STHSignatureInput`, `SerializeV2STHSignatureInput`), behind
`Serializer::SerializeSCTSignatureInput` and
`Serializer::SerializeSTHSignatureInput` under the two configurations.

`ConfigureV1` installs the V1 tree-head serializer only and `ConfigureV2` the
V2 one only, so a tree head of the other version fails the `CHECK` on the
function that is not installed.  A tree-head serializer also `CHECK`s that the
tree size is not negative.  The process ending is the outer `Except String`.
-/

namespace CertTrans

open Serializer TLSSerializer

def serializeV1CertSCTSignatureInput (timestamp : UInt64) (certificate extensions : ByteString) :
    Except SerializeResult ByteString := do
  (checkCertificateFormat certificate).check
  (checkExtensionsFormat extensions).check
  return writeUint Version.v1.toNat kVersionLengthInBytes ++
    writeUint SignatureType.certificateTimestamp.toNat kSignatureTypeLengthInBytes ++
    writeUint timestamp.toNat kTimestampLengthInBytes ++
    writeUint LogEntryType.x509Entry.toNat kLogEntryTypeLengthInBytes ++
    writeVarBytes certificate kMaxCertificateLength ++
    writeVarBytes extensions kMaxExtensionsLength

def serializeV1PrecertSCTSignatureInput (timestamp : UInt64)
    (issuerKeyHash tbsCertificate extensions : ByteString) : Except SerializeResult ByteString := do
  (checkCertificateFormat tbsCertificate).check
  (checkKeyHashFormat issuerKeyHash).check
  (checkExtensionsFormat extensions).check
  return writeUint Version.v1.toNat kVersionLengthInBytes ++
    writeUint SignatureType.certificateTimestamp.toNat kSignatureTypeLengthInBytes ++
    writeUint timestamp.toNat kTimestampLengthInBytes ++
    writeUint LogEntryType.precertEntry.toNat kLogEntryTypeLengthInBytes ++
    writeFixedBytes issuerKeyHash ++
    writeVarBytes tbsCertificate kMaxCertificateLength ++
    writeVarBytes extensions kMaxExtensionsLength

def serializeV1SCTSignatureInput (sct : SignedCertificateTimestamp) (entry : LogEntry) :
    Except SerializeResult ByteString :=
  if sct.version ≠ .v1 then throw .unsupportedVersion
  else
    match entry.type with
    | .x509Entry =>
        serializeV1CertSCTSignatureInput sct.timestamp entry.x509Entry.leafCertificate
          sct.extensions
    | .precertEntry =>
        serializeV1PrecertSCTSignatureInput sct.timestamp
          entry.precertEntry.preCert.issuerKeyHash entry.precertEntry.preCert.tbsCertificate
          sct.extensions
    | _ => throw .invalidEntryType

/-- `SerializeV2CertSCTSignatureInput`: the issuer key hash is written with no
check of its length. -/
def serializeV2CertSCTSignatureInput (timestamp : UInt64)
    (issuerKeyHash tbsCertificate : ByteString) (sctExtension : List SctExtension) :
    Except SerializeResult ByteString := do
  (checkCertificateFormat tbsCertificate).check
  (checkSctExtensionsFormat sctExtension).check
  return writeUint Version.v2.toNat kVersionLengthInBytes ++
    writeUint SignatureType.certificateTimestamp.toNat kSignatureTypeLengthInBytes ++
    writeUint timestamp.toNat kTimestampLengthInBytes ++
    writeUint LogEntryType.x509Entry.toNat kLogEntryTypeLengthInBytes ++
    writeFixedBytes issuerKeyHash ++
    writeVarBytes tbsCertificate kMaxCertificateLength ++
    writeSctExtension sctExtension

/-- `SerializeV2PrecertSCTSignatureInput`: unlike the precertificate leaf, the
issuer key hash is written with no check of its length either. -/
def serializeV2PrecertSCTSignatureInput (timestamp : UInt64)
    (issuerKeyHash tbsCertificate : ByteString) (sctExtension : List SctExtension) :
    Except SerializeResult ByteString := do
  (checkCertificateFormat tbsCertificate).check
  (checkSctExtensionsFormat sctExtension).check
  return writeUint Version.v2.toNat kVersionLengthInBytes ++
    writeUint SignatureType.certificateTimestamp.toNat kSignatureTypeLengthInBytes ++
    writeUint timestamp.toNat kTimestampLengthInBytes ++
    writeUint LogEntryType.precertEntryV2.toNat kLogEntryTypeLengthInBytes ++
    writeFixedBytes issuerKeyHash ++
    writeVarBytes tbsCertificate kMaxCertificateLength ++
    writeSctExtension sctExtension

def serializeV2SCTSignatureInput (sct : SignedCertificateTimestamp) (entry : LogEntry) :
    Except SerializeResult ByteString :=
  if sct.version ≠ .v2 then throw .unsupportedVersion
  else
    match entry.type with
    | .x509Entry =>
        serializeV2CertSCTSignatureInput sct.timestamp entry.x509Entry.certInfo.issuerKeyHash
          entry.x509Entry.certInfo.tbsCertificate sct.sctExtension
    | .precertEntryV2 =>
        serializeV2PrecertSCTSignatureInput sct.timestamp
          entry.precertEntry.certInfo.issuerKeyHash entry.precertEntry.certInfo.tbsCertificate
          sct.sctExtension
    | _ => throw .invalidEntryType

/-- `Serializer::SerializeSCTSignatureInput` under a configuration. -/
def Serializer.serializeSCTSignatureInput (config : SerializerConfig)
    (sct : SignedCertificateTimestamp) (entry : LogEntry) : Except SerializeResult ByteString :=
  match config with
  | .v1CT => serializeV1SCTSignatureInput sct entry
  | .v2CT => serializeV2SCTSignatureInput sct entry

structure SthExtension where
  sthExtensionType : UInt32 := 0
  sthExtensionData : ByteString := []
deriving DecidableEq, Repr

namespace Proto

/-- `ct::SignedTreeHead` with every field `SerializeSTHSignatureInput` reads;
`keyId` is `id.key_id`.  (`CertTrans.SignedTreeHead` is the log's view of a
tree head: its timestamp, size and root hash.) -/
@[ext]
structure SignedTreeHead where
  version : Version := .unknownVersion
  keyId : ByteString := []
  timestamp : UInt64 := 0
  treeSize : Int64 := 0
  sha256RootHash : ByteString := []
  sthExtension : List SthExtension := []
deriving DecidableEq, Repr

end Proto

def checkSthExtensionsFrom (lastTypeSeen : Nat) : List SthExtension → SerializeResult
  | [] => .ok
  | e :: rest =>
      if e.sthExtensionType.toNat > kMaxV2ExtensionType then .invalidEntryType
      else if e.sthExtensionData.length > kMaxExtensionsLength then .extensionsTooLong
      else if e.sthExtensionType.toNat < lastTypeSeen then .extensionsNotOrdered
      else checkSthExtensionsFrom e.sthExtensionType.toNat rest

/-- `CheckSthExtensionsFormat`: at most `kMaxV2ExtensionsCount` extensions,
each of bounded type and data, in ascending order of type. -/
def checkSthExtensionsFormat (extension : List SthExtension) : SerializeResult :=
  if extension.length > kMaxV2ExtensionsCount then .extensionsTooLong
  else checkSthExtensionsFrom 0 extension

def serializeV1STHSignatureInput (timestamp : UInt64) (treeSize : Int64) (rootHash : ByteString) :
    Except String (Except SerializeResult ByteString) :=
  if treeSize.toInt < 0 then .error "Check failed: tree_size >= 0"
  else .ok do
    if rootHash.length ≠ 32 then throw .invalidHashLength
    return writeUint Version.v1.toNat kVersionLengthInBytes ++
      writeUint SignatureType.treeHead.toNat kSignatureTypeLengthInBytes ++
      writeUint timestamp.toNat kTimestampLengthInBytes ++
      writeUint treeSize.toInt.toNat 8 ++
      writeFixedBytes rootHash

def serializeV2STHSignatureInput (timestamp : UInt64) (treeSize : Int64) (rootHash : ByteString)
    (sthExtension : List SthExtension) (logId : ByteString) :
    Except String (Except SerializeResult ByteString) :=
  if treeSize.toInt < 0 then .error "Check failed: tree_size >= 0"
  else .ok do
    if rootHash.length ≠ 32 then throw .invalidHashLength
    (checkSthExtensionsFormat sthExtension).check
    if logId.length ≠ kKeyIDLengthInBytes then throw .invalidKeyidLength
    return writeUint Version.v2.toNat kVersionLengthInBytes ++
      writeUint SignatureType.treeHead.toNat kSignatureTypeLengthInBytes ++
      writeFixedBytes logId ++
      writeUint timestamp.toNat kTimestampLengthInBytes ++
      writeUint treeSize.toInt.toNat 8 ++
      writeFixedBytes rootHash ++
      writeUint sthExtension.length 2 ++
      sthExtension.flatMap fun e =>
        writeUint e.sthExtensionType.toNat 2 ++ writeVarBytes e.sthExtensionData kMaxExtensionsLength

/-- `Serializer::SerializeSTHSignatureInput` under a configuration. -/
def Serializer.serializeSTHSignatureInput (config : SerializerConfig) (sth : Proto.SignedTreeHead) :
    Except String (Except SerializeResult ByteString) :=
  match sth.version, config with
  | .v1, .v1CT => serializeV1STHSignatureInput sth.timestamp sth.treeSize sth.sha256RootHash
  | .v1, .v2CT => .error "Check failed: serialize_sth_sig_input_v1"
  | .v2, .v2CT =>
      serializeV2STHSignatureInput sth.timestamp sth.treeSize sth.sha256RootHash sth.sthExtension
        sth.keyId
  | .v2, .v1CT => .error "Check failed: serialize_sth_sig_input_v2"
  | .unknownVersion, _ => .ok (throw .unsupportedVersion)

end CertTrans
