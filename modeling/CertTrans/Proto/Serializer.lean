import CertTrans.Codec.Bytes
import CertTrans.Proto.Ct

/-!
`TLSSerializer`, `TLSDeserializer`, `Serializer` and `Deserializer` of
`serializer.cc`, for the parts that encode and decode a
`SignedCertificateTimestamp`: fixed-width big-endian integers, byte strings
with a length prefix of `PrefixLength(max_length)` bytes, the
`DigitallySigned` structure, the counted list of V2 SCT extensions, and the
V1 and V2 SCT layouts.

A `TLSSerializer` appends to its output; each `write` here returns the bytes
it appends.  A `TLSDeserializer` is a cursor over its input: a reader here
consumes a prefix of the input and returns the rest, and `ReachedEnd` is
an empty rest.  The `bool` readers fail with `none` (`Codec.Reader`); the
readers that return a `DeserializeResult` fail with it (`ReadM`).  A message
that a reader fills starts from the defaults.

`WriteUint` and `WriteVarBytes` `CHECK` that their value fits; every caller
modelled here has checked the value's bound before, so the checks are left
out, and `PrefixLength`'s `CHECK_GT(max_length, 0U)` holds of the constants.
-/

namespace CertTrans

inductive SerializeResult
  | ok
  | invalidEntryType
  | emptyCertificate
  | certificateTooLong
  | certificateChainTooLong
  | invalidHashAlgorithm
  | invalidSignatureAlgorithm
  | signatureTooLong
  | invalidHashLength
  | emptyPrecertificateChain
  | unsupportedVersion
  | extensionsTooLong
  | invalidKeyidLength
  | emptyList
  | emptyElemInList
  | listElemTooLong
  | listTooLong
  | extensionsNotOrdered
deriving DecidableEq, Repr

/-- `if (res != SerializeResult::OK) return res;` -/
def SerializeResult.check (res : SerializeResult) : Except SerializeResult Unit :=
  if res = .ok then pure () else throw res

@[simp] theorem SerializeResult.check_eq_ok_iff (res : SerializeResult) (u : Unit) :
    res.check = .ok u ↔ res = .ok := by
  unfold SerializeResult.check
  split
  · rename_i hok
    exact ⟨fun _ => hok, fun _ => rfl⟩
  · rename_i hne
    exact ⟨fun h => (by cases h), fun h => absurd h hne⟩

theorem SerializeResult.check_bind_eq_ok {α : Type} (res : SerializeResult)
    (f : Unit → Except SerializeResult α) (b : α) :
    res.check >>= f = .ok b ↔ res = .ok ∧ f () = .ok b := by
  rw [Codec.except_bind_eq_ok]
  simp only [SerializeResult.check_eq_ok_iff]
  exact ⟨fun ⟨(), hres, hf⟩ => ⟨hres, hf⟩, fun ⟨hres, hf⟩ => ⟨(), hres, hf⟩⟩

inductive DeserializeResult
  | ok
  | inputTooShort
  | invalidHashAlgorithm
  | invalidSignatureAlgorithm
  | inputTooLong
  | unsupportedVersion
  | invalidListEncoding
  | emptyList
  | emptyElemInList
  | unknownLeafType
  | unknownLogentryType
  | extensionsTooLong
  | extensionsNotOrdered
deriving DecidableEq, Repr

namespace Serializer

def kMaxSignatureLength : Nat := 2 ^ 16 - 1
def kMaxV2ExtensionType : Nat := 2 ^ 16 - 1
def kMaxV2ExtensionsCount : Nat := 2 ^ 16 - 2
def kMaxExtensionsLength : Nat := 2 ^ 16 - 1

def kLogEntryTypeLengthInBytes : Nat := 2
def kSignatureTypeLengthInBytes : Nat := 1
def kHashAlgorithmLengthInBytes : Nat := 1
def kSigAlgorithmLengthInBytes : Nat := 1
def kVersionLengthInBytes : Nat := 1
def kKeyIDLengthInBytes : Nat := 32
def kMerkleLeafTypeLengthInBytes : Nat := 1
def kKeyHashLengthInBytes : Nat := 32
def kTimestampLengthInBytes : Nat := 8

end Serializer

open Serializer

def prefixLengthFrom (maxLength : Nat) : (fuel k : Nat) → Nat
  | 0, k => k
  | fuel + 1, k => if maxLength ≤ 256 ^ k then k else prefixLengthFrom maxLength fuel (k + 1)

/-- `PrefixLength(max_length)`, `⌈log₂(max_length) / 8⌉`: the fewest bytes `k`
with `max_length ≤ 2 ^ (8 * k)`, of which there are at most `max_length`. -/
def prefixLength (maxLength : Nat) : Nat := prefixLengthFrom maxLength maxLength 0

def checkSignatureFormat (sig : DigitallySigned) : SerializeResult :=
  if !hashAlgorithmIsValid sig.hashAlgorithm.toNat then .invalidHashAlgorithm
  else if !signatureAlgorithmIsValid sig.sigAlgorithm.toNat then .invalidSignatureAlgorithm
  else if sig.signature.length > kMaxSignatureLength then .signatureTooLong
  else .ok

def checkExtensionsFormat (extensions : ByteString) : SerializeResult :=
  if extensions.length > kMaxExtensionsLength then .extensionsTooLong else .ok

def checkSctExtensionsFrom (lastTypeSeen : Nat) : List SctExtension → SerializeResult
  | [] => .ok
  | e :: rest =>
      if e.sctExtensionData.length > kMaxExtensionsLength then .extensionsTooLong
      else if e.sctExtensionType.toNat > kMaxV2ExtensionType then .invalidEntryType
      else if e.sctExtensionType.toNat < lastTypeSeen then .extensionsNotOrdered
      else checkSctExtensionsFrom e.sctExtensionType.toNat rest

/-- `CheckSctExtensionsFormat`: at most `kMaxV2ExtensionsCount` extensions,
each of bounded type and data, in ascending order of type. -/
def checkSctExtensionsFormat (extension : List SctExtension) : SerializeResult :=
  if extension.length > kMaxV2ExtensionsCount then .extensionsTooLong
  else checkSctExtensionsFrom 0 extension

namespace TLSSerializer

/-- `WriteUint(in, bytes)`: its loop pushes `(in & (0xff << 8 (bytes - 1))) >>
8 (bytes - 1)`, the byte `bytes - 1` of `in`, first. -/
def writeUint (value bytes : Nat) : ByteString := Codec.encodeBE value bytes

def writeFixedBytes (value : ByteString) : ByteString := value

def writeVarBytes (value : ByteString) (maxLength : Nat) : ByteString :=
  writeUint value.length (prefixLength maxLength) ++ writeFixedBytes value

/-- `WriteSctExtension`: the count, then each extension's type and data. -/
def writeSctExtension (extension : List SctExtension) : ByteString :=
  writeUint extension.length 2 ++
    extension.flatMap fun e =>
      writeUint e.sctExtensionType.toNat 2 ++ writeVarBytes e.sctExtensionData kMaxExtensionsLength

def writeDigitallySigned (sig : DigitallySigned) : Except SerializeResult ByteString := do
  (checkSignatureFormat sig).check
  return writeUint sig.hashAlgorithm.toNat kHashAlgorithmLengthInBytes ++
    writeUint sig.sigAlgorithm.toNat kSigAlgorithmLengthInBytes ++
    writeVarBytes sig.signature kMaxSignatureLength

/-- `WriteSCTV1`, called on a V1 SCT: the V1 extensions are one opaque byte
string. -/
def writeSCTV1 (sct : SignedCertificateTimestamp) : Except SerializeResult ByteString := do
  (checkExtensionsFormat sct.extensions).check
  if sct.keyId.length ≠ kKeyIDLengthInBytes then throw .invalidKeyidLength
  else
    let signature ← writeDigitallySigned sct.signature
    return writeUint sct.version.toNat kVersionLengthInBytes ++ writeFixedBytes sct.keyId ++
      writeUint sct.timestamp.toNat kTimestampLengthInBytes ++
      writeVarBytes sct.extensions kMaxExtensionsLength ++ signature

/-- `WriteSCTV2`, called on a V2 SCT: the V2 extensions are a counted list. -/
def writeSCTV2 (sct : SignedCertificateTimestamp) : Except SerializeResult ByteString := do
  (checkSctExtensionsFormat sct.sctExtension).check
  if sct.keyId.length ≠ kKeyIDLengthInBytes then throw .invalidKeyidLength
  else
    let signature ← writeDigitallySigned sct.signature
    return writeUint sct.version.toNat kVersionLengthInBytes ++ writeFixedBytes sct.keyId ++
      writeUint sct.timestamp.toNat kTimestampLengthInBytes ++
      writeSctExtension sct.sctExtension ++ signature

end TLSSerializer

def Serializer.serializeSCT (sct : SignedCertificateTimestamp) : Except SerializeResult ByteString :=
  match sct.version with
  | .v1 => TLSSerializer.writeSCTV1 sct
  | .v2 => TLSSerializer.writeSCTV2 sct
  | .unknownVersion => throw .unsupportedVersion

namespace TLSDeserializer

def kV2ExtensionCountLengthInBytes : Nat := 2
def kV2ExtensionTypeLengthInBytes : Nat := 2

/-- `ReadUint(bytes, &result)`: `res = (res << 8) | byte` over the next `bytes`
bytes. -/
def readUint (bytes : Nat) : Codec.Reader Nat := do
  let bs ← Codec.readBytes bytes
  return bs.foldl (fun res b => res <<< 8 ||| b.toNat) 0

def readFixedBytes (bytes : Nat) : Codec.Reader ByteString := Codec.readBytes bytes

def readLengthPrefix (maxLength : Nat) : Codec.Reader Nat := do
  let length ← readUint (prefixLength maxLength)
  if length > maxLength then failure else return length

def readVarBytes (maxLength : Nat) : Codec.Reader ByteString := do
  let length ← readLengthPrefix maxLength
  readFixedBytes length

abbrev ReadM := StateT ByteString (Except DeserializeResult)

def readDigitallySigned : ReadM DigitallySigned := do
  let hashAlgo ← (readUint kHashAlgorithmLengthInBytes).orThrow .inputTooShort
  let some hashAlgorithm := DigitallySigned.HashAlgorithm.ofNat? hashAlgo
    | throw .invalidHashAlgorithm
  let sigAlgo ← (readUint kSigAlgorithmLengthInBytes).orThrow .inputTooShort
  let some sigAlgorithm := DigitallySigned.SignatureAlgorithm.ofNat? sigAlgo
    | throw .invalidSignatureAlgorithm
  let signature ← (readVarBytes kMaxSignatureLength).orThrow .inputTooShort
  return { hashAlgorithm, sigAlgorithm, signature }

def readSctExtensionEntries : (count : Nat) → ReadM (List SctExtension)
  | 0 => return []
  | count + 1 => do
      let extType ← (readUint kV2ExtensionTypeLengthInBytes).orThrow .inputTooShort
      let extData ← (readVarBytes kMaxExtensionsLength).orThrow .inputTooShort
      let rest ← readSctExtensionEntries count
      return { sctExtensionType := extType.toUInt32, sctExtensionData := extData } :: rest

def readSctExtension : ReadM (List SctExtension) := do
  let extCount ← (readUint kV2ExtensionCountLengthInBytes).orThrow .inputTooShort
  if extCount > kMaxV2ExtensionsCount then throw .extensionsTooLong
  else
    let extension ← readSctExtensionEntries extCount
    -- the order of the types is checked once all are read
    if checkSctExtensionsFormat extension = .ok then return extension
    else throw .extensionsNotOrdered

/-- `ReadSCTV1`: the V1 extensions are read into a local and not stored. -/
def readSCTV1 : ReadM SignedCertificateTimestamp := do
  let keyId ← (readFixedBytes kKeyIDLengthInBytes).orThrow .inputTooShort
  let timestamp ← (readUint kTimestampLengthInBytes).orThrow .inputTooShort
  let _extensions ← (readVarBytes kMaxExtensionsLength).orThrow .inputTooShort
  let signature ← readDigitallySigned
  return { version := .v1, keyId, timestamp := timestamp.toUInt64, signature }

def readSCTV2 : ReadM SignedCertificateTimestamp := do
  let keyId ← (readFixedBytes kKeyIDLengthInBytes).orThrow .inputTooShort
  let timestamp ← (readUint kTimestampLengthInBytes).orThrow .inputTooShort
  let sctExtension ← readSctExtension
  let signature ← readDigitallySigned
  return { version := .v2, keyId, timestamp := timestamp.toUInt64, signature, sctExtension }

def readSCT : ReadM SignedCertificateTimestamp := do
  let version ← (readUint kVersionLengthInBytes).orThrow .inputTooShort
  if !versionIsValid version || (version ≠ Version.v1.toNat && version ≠ Version.v2.toNat) then
    throw .unsupportedVersion
  else if version = Version.v1.toNat then readSCTV1
  else if version = Version.v2.toNat then readSCTV2
  else throw .unsupportedVersion

end TLSDeserializer

def Deserializer.deserializeSCT (input : ByteString) :
    Except DeserializeResult SignedCertificateTimestamp := do
  let (sct, rest) ← TLSDeserializer.readSCT.run input
  if rest ≠ [] then throw .inputTooLong else return sct

end CertTrans
