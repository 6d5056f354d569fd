import CertTrans.Merkletree.Basic

/-!
The messages and enumerations of `ct.proto` that the serializers read and
write, with the proto2 defaults as field defaults.  An enumeration has its
wire number (`toNat`) and the partial inverse (`ofNat?`) that the generated
`_IsValid` tests: a value read off the wire is valid exactly when `ofNat?`
finds it.

A message field holds a declared value of its enumeration.  Optional
sub-messages are their fields, whose getters return the defaults when the
sub-message is absent.
-/

namespace CertTrans

inductive Version
  | v1
  | v2
  | unknownVersion
deriving DecidableEq, Repr

namespace Version

def toNat : Version → Nat
  | v1 => 0
  | v2 => 1
  | unknownVersion => 256

def ofNat? : Nat → Option Version
  | 0 => some v1
  | 1 => some v2
  | 256 => some unknownVersion
  | _ => none

end Version

def versionIsValid (n : Nat) : Bool := (Version.ofNat? n).isSome

inductive LogEntryType
  | x509Entry
  | precertEntry
  | precertEntryV2
  | xJsonEntry
  | unknownEntryType
deriving DecidableEq, Repr

namespace LogEntryType

def toNat : LogEntryType → Nat
  | x509Entry => 0
  | precertEntry => 1
  | precertEntryV2 => 2
  | xJsonEntry => 32768
  | unknownEntryType => 65536

def ofNat? : Nat → Option LogEntryType
  | 0 => some x509Entry
  | 1 => some precertEntry
  | 2 => some precertEntryV2
  | 32768 => some xJsonEntry
  | 65536 => some unknownEntryType
  | _ => none

@[simp] theorem ofNat?_toNat (a : LogEntryType) : ofNat? a.toNat = some a := by
  cases a <;> rfl

theorem toNat_of_ofNat? {n : Nat} {a : LogEntryType} (h : ofNat? n = some a) : a.toNat = n := by
  unfold ofNat? at h
  split at h <;> cases h <;> rfl

end LogEntryType

def logEntryTypeIsValid (n : Nat) : Bool := (LogEntryType.ofNat? n).isSome

inductive MerkleLeafType
  | timestampedEntry
  | unknownLeafType
deriving DecidableEq, Repr

def MerkleLeafType.toNat : MerkleLeafType → Nat
  | timestampedEntry => 0
  | unknownLeafType => 256

inductive SignatureType
  | certificateTimestamp
  | treeHead
deriving DecidableEq, Repr

def SignatureType.toNat : SignatureType → Nat
  | certificateTimestamp => 0
  | treeHead => 1

namespace DigitallySigned

inductive HashAlgorithm
  | none
  | md5
  | sha1
  | sha224
  | sha256
  | sha384
  | sha512
deriving DecidableEq, Repr

namespace HashAlgorithm

def toNat : HashAlgorithm → Nat
  | none => 0
  | md5 => 1
  | sha1 => 2
  | sha224 => 3
  | sha256 => 4
  | sha384 => 5
  | sha512 => 6

def ofNat? : Nat → Option HashAlgorithm
  | 0 => some none
  | 1 => some md5
  | 2 => some sha1
  | 3 => some sha224
  | 4 => some sha256
  | 5 => some sha384
  | 6 => some sha512
  | _ => Option.none

@[simp] theorem ofNat?_toNat (a : HashAlgorithm) : ofNat? a.toNat = some a := by
  cases a <;> rfl

theorem toNat_of_ofNat? {n : Nat} {a : HashAlgorithm} (h : ofNat? n = some a) : a.toNat = n := by
  unfold ofNat? at h
  split at h <;> cases h <;> rfl

end HashAlgorithm

inductive SignatureAlgorithm
  | anonymous
  | rsa
  | dsa
  | ecdsa
deriving DecidableEq, Repr

namespace SignatureAlgorithm

def toNat : SignatureAlgorithm → Nat
  | anonymous => 0
  | rsa => 1
  | dsa => 2
  | ecdsa => 3

def ofNat? : Nat → Option SignatureAlgorithm
  | 0 => some anonymous
  | 1 => some rsa
  | 2 => some dsa
  | 3 => some ecdsa
  | _ => none

@[simp] theorem ofNat?_toNat (a : SignatureAlgorithm) : ofNat? a.toNat = some a := by
  cases a <;> rfl

theorem toNat_of_ofNat? {n : Nat} {a : SignatureAlgorithm} (h : ofNat? n = some a) :
    a.toNat = n := by
  unfold ofNat? at h
  split at h <;> cases h <;> rfl

end SignatureAlgorithm

end DigitallySigned

def hashAlgorithmIsValid (n : Nat) : Bool := (DigitallySigned.HashAlgorithm.ofNat? n).isSome

def signatureAlgorithmIsValid (n : Nat) : Bool :=
  (DigitallySigned.SignatureAlgorithm.ofNat? n).isSome

structure DigitallySigned where
  hashAlgorithm : DigitallySigned.HashAlgorithm := .none
  sigAlgorithm : DigitallySigned.SignatureAlgorithm := .anonymous
  signature : ByteString := []
deriving DecidableEq, Repr

structure SctExtension where
  sctExtensionType : UInt32 := 0
  sctExtensionData : ByteString := []
deriving DecidableEq, Repr

/-- `ct::SignedCertificateTimestamp`; `keyId` is `id.key_id`. -/
structure SignedCertificateTimestamp where
  version : Version := .unknownVersion
  keyId : ByteString := []
  timestamp : UInt64 := 0
  signature : DigitallySigned := {}
  extensions : ByteString := []
  sctExtension : List SctExtension := []
deriving DecidableEq, Repr

/-- `ct::PreCert`, and `ct::CertInfo`, which has its fields. -/
structure PreCert where
  issuerKeyHash : ByteString := []
  tbsCertificate : ByteString := []
deriving DecidableEq, Repr

abbrev CertInfo := PreCert

structure X509ChainEntry where
  leafCertificate : ByteString := []
  certificateChain : List ByteString := []
  certInfo : CertInfo := {}
deriving DecidableEq, Repr

structure PrecertChainEntry where
  preCertificate : ByteString := []
  precertificateChain : List ByteString := []
  preCert : PreCert := {}
  certInfo : CertInfo := {}
deriving DecidableEq, Repr

structure LogEntry where
  type : LogEntryType := .unknownEntryType
  x509Entry : X509ChainEntry := {}
  precertEntry : PrecertChainEntry := {}
deriving DecidableEq, Repr

structure SignedEntry where
  x509 : ByteString := []
  precert : PreCert := {}
  certInfo : CertInfo := {}
deriving DecidableEq, Repr

structure TimestampedEntry where
  timestamp : UInt64 := 0
  entryType : LogEntryType := .x509Entry
  signedEntry : SignedEntry := {}
  extensions : ByteString := []
  sctExtension : List SctExtension := []
deriving DecidableEq, Repr

structure MerkleTreeLeaf where
  version : Version := .unknownVersion
  type : MerkleLeafType := .unknownLeafType
  timestampedEntry : TimestampedEntry := {}
deriving DecidableEq, Repr

end CertTrans
