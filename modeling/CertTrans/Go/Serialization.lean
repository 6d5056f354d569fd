import CertTrans.Codec.GoBytes

/-!
The binary codecs of the Go package `ct` (`serialization.go`, with the types
of `types.go`): the readers of length-prefixed fields and of certificate
lists, the reader of a `MerkleTreeLeaf`, and the writer and the reader of a
V1 SCT.

The readers run over a `bytes.Reader` (`Codec.GoReader`).  `readVarBytes`
reads its length, then its data with one `Read`, so a field of length zero at
the very end of the input fails with `io.EOF`; the loop of `readASN1CertList`
takes `io.EOF` for the end of the list.  The SCT writer fills a buffer of
`SerializedLength` bytes at offsets it computes itself, each slice write a
`Codec.copySlice`.

A function that returns a value beside a non-nil error is modelled by the
error alone; a struct filled through a pointer is an argument and a result.
-/

namespace CertTrans.Go

open Codec GoReader

/-- `V1`, the version of RFC 6962. -/
def v1 : UInt8 := 0

def x509LogEntryType : UInt16 := 0

def precertLogEntryType : UInt16 := 1

def timestampedEntryLeafType : UInt8 := 0

def certificateLengthBytes : ℕ := 3

def preCertificateLengthBytes : ℕ := 3

def extensionsLengthBytes : ℕ := 2

def certificateChainLengthBytes : ℕ := 3

def signatureLengthBytes : ℕ := 2

def maxExtensionsLength : ℕ := 2 ^ 16 - 1

/-- `ErrInvalidVersion`, an `sctError` with its `Error()` text. -/
def errInvalidVersion : GoError := .new "invalid SCT version detected"

/-- `ErrNotEnoughBuffer`. -/
def errNotEnoughBuffer : GoError := .new "provided buffer was too small"

def zeroHash : List.Vector UInt8 32 := .replicate 32 0

structure DigitallySigned where
  hashAlgorithm : UInt8 := 0
  signatureAlgorithm : UInt8 := 0
  signature : List UInt8 := []
deriving DecidableEq

structure SignedCertificateTimestamp where
  sctVersion : UInt8 := 0
  logID : List.Vector UInt8 32 := zeroHash
  timestamp : UInt64 := 0
  extensions : List UInt8 := []
  signature : DigitallySigned := {}
deriving DecidableEq

structure PreCert where
  issuerKeyHash : List.Vector UInt8 32 := zeroHash
  tbsCertificate : List UInt8 := []
deriving DecidableEq

structure TimestampedEntry where
  timestamp : UInt64 := 0
  entryType : UInt16 := 0
  x509Entry : List UInt8 := []
  precertEntry : PreCert := {}
  extensions : List UInt8 := []
deriving DecidableEq

structure MerkleTreeLeaf where
  version : UInt8 := 0
  leafType : UInt8 := 0
  timestampedEntry : TimestampedEntry := {}
deriving DecidableEq

def writeUintLoop : ℕ → ℕ → List UInt8 → List UInt8 × ℕ
  | 0, value, buf => (buf, value)
  | k + 1, value, buf => writeUintLoop k (value >>> 8) (UInt8.ofNat (value &&& 0xff) :: buf)

def writeUint (value numBytes : ℕ) : Except GoError (List UInt8) :=
  let (buf, value) := writeUintLoop numBytes value []
  if value ≠ 0 then .error (.new "numBytes was insufficiently large to represent value")
  else .ok buf

def writeVarBytes (value : List UInt8) (numLenBytes : ℕ) : Except GoError (List UInt8) := do
  let len ← writeUint value.length numLenBytes
  pure (len ++ value)

def readUintLoop (l : ℕ) : ℕ → GoReader ℕ
  | 0 => pure l
  | k + 1 => do
    let l := (l <<< 8) % 2 ^ 64
    let t ← binaryRead 1
    readUintLoop (l ||| t) k

def readUint (numBytes : ℕ) : GoReader ℕ := readUintLoop 0 numBytes

def readVarBytes (numLenBytes : ℕ) : GoReader (List UInt8) := do
  if numLenBytes > 8 then
    throw (.new s!"numLenBytes too large ({numLenBytes})")
  if numLenBytes = 0 then
    throw (.new "numLenBytes should be > 0")
  let l ← readUint numLenBytes
  let data ← read l
  let n := data.length
  if n ≠ l then
    throw (.new s!"short read: expected {l} but got {n}")
  pure data

theorem exec_binaryRead_one (b : UInt8) (rest : List UInt8) :
    (binaryRead 1).exec (b :: rest) = (.ok b.toNat, rest) := by
  have hlen : [b].length = 1 := rfl
  rw [← List.singleton_append, exec_binaryRead_append hlen]
  simp [decodeBE]

theorem exec_readUintLoop_append {k : ℕ} :
    ∀ {l j : ℕ}, l < 256 ^ j → j + k ≤ 8 → ∀ {xs : List UInt8}, xs.length = k →
      ∀ rest, (readUintLoop l k).exec (xs ++ rest) = (.ok (l * 256 ^ k + decodeBE xs), rest) := by
  induction k with
  | zero =>
    intro l j _ _ xs hxs rest
    rw [List.eq_nil_of_length_eq_zero hxs]
    simp [readUintLoop, decodeBE]
  | succ k ih =>
    intro l j hl hjk xs hxs rest
    obtain ⟨b, ys, rfl⟩ := List.exists_cons_of_length_eq_add_one hxs
    have hys : ys.length = k := by simpa using hxs
    have hshift : (l <<< 8) % 2 ^ 64 = l * 256 := by
      have : l * 256 < 256 ^ 8 := by
        calc l * 256 < 256 ^ j * 256 := by omega
          _ = 256 ^ (j + 1) := (Nat.pow_succ 256 j).symm
          _ ≤ 256 ^ 8 := Nat.pow_le_pow_right (by decide) (by omega)
      rw [Nat.shiftLeft_eq, Nat.mod_eq_of_lt (by simpa using this)]
    have hor : l * 256 ||| b.toNat = l * 256 + b.toNat := by
      have hbits := Nat.shiftLeft_add_eq_or_of_lt b.toNat_lt l
      rw [Nat.shiftLeft_eq] at hbits
      exact hbits.symm
    have hnext : l * 256 + b.toNat < 256 ^ (j + 1) := by
      have hb : b.toNat < 256 := b.toNat_lt
      have hmul : (l + 1) * 256 ≤ 256 ^ j * 256 := Nat.mul_le_mul_right 256 hl
      rw [Nat.pow_succ]
      omega
    rw [readUintLoop, List.cons_append, exec_bind_of_ok (exec_binaryRead_one b _), hshift, hor,
      ih hnext (by omega) hys, decodeBE_cons, hys, Nat.pow_succ]
    congr 2
    ring

theorem exec_readUint_append {k : ℕ} (hk : k ≤ 8) {xs : List UInt8} (hxs : xs.length = k)
    (rest : List UInt8) : (readUint k).exec (xs ++ rest) = (.ok (decodeBE xs), rest) := by
  rw [readUint, exec_readUintLoop_append (j := 0) (by decide) (by omega) hxs, Nat.zero_mul,
    Nat.zero_add]

theorem exec_readUintLoop_eq_ok {k : ℕ} :
    ∀ {l : ℕ} {input rest : List UInt8} {v : ℕ},
      (readUintLoop l k).exec input = (.ok v, rest) →
        ∃ xs, xs.length = k ∧ input = xs ++ rest := by
  induction k with
  | zero =>
    intro l input rest v h
    cases h
    exact ⟨[], rfl, rfl⟩
  | succ k ih =>
    intro l input rest v h
    obtain ⟨t, mid, ht, hloop⟩ := exec_bind_eq_ok h
    obtain ⟨xs, hxs, rfl, -⟩ := exec_binaryRead_eq_ok ht
    obtain ⟨ys, hys, rfl⟩ := ih hloop
    exact ⟨xs ++ ys, by simp [hxs, hys, Nat.add_comm], (List.append_assoc _ _ _).symm⟩

theorem exec_readVarBytes_of_mem {numLenBytes : ℕ} (hn : 0 < numLenBytes ∧ numLenBytes ≤ 8)
    (input : List UInt8) :
    (readVarBytes numLenBytes).exec input =
      (readUint numLenBytes >>= fun l => read l >>= fun data =>
        if data.length ≠ l then throw (.new s!"short read: expected {l} but got {data.length}")
        else pure data).exec input := by
  have hle : ¬ numLenBytes > 8 := by omega
  have hpos : numLenBytes ≠ 0 := by omega
  simp only [readVarBytes, if_neg hle, if_neg hpos]
  rfl

theorem exec_readVarBytes_append {numLenBytes : ℕ} (hn : 0 < numLenBytes ∧ numLenBytes ≤ 8)
    {data : List UInt8} (hdata : data.length < 256 ^ numLenBytes) {rest : List UInt8}
    (hne : data ++ rest ≠ []) :
    (readVarBytes numLenBytes).exec (encodeBE data.length numLenBytes ++ data ++ rest) =
      (.ok data, rest) := by
  rw [exec_readVarBytes_of_mem hn, List.append_assoc,
    exec_bind_of_ok (exec_readUint_append hn.2 (length_encodeBE _ _) _),
    decodeBE_encodeBE hdata, exec_bind_of_ok (exec_read_append rfl hne), if_neg (by simp)]
  rfl

theorem exec_readVarBytes_empty_at_end {numLenBytes : ℕ} (hn : 0 < numLenBytes ∧ numLenBytes ≤ 8) :
    (readVarBytes numLenBytes).exec (encodeBE 0 numLenBytes) = (.error .eof, []) := by
  rw [exec_readVarBytes_of_mem hn, ← List.append_nil (encodeBE 0 numLenBytes),
    exec_bind_of_ok (exec_readUint_append hn.2 (length_encodeBE _ _) _),
    decodeBE_encodeBE (Nat.pow_pos (by decide)), exec_bind_of_error (exec_read_nil 0)]

theorem exec_readVarBytes_nil {numLenBytes : ℕ} (hn : 0 < numLenBytes ∧ numLenBytes ≤ 8) :
    (readVarBytes numLenBytes).exec [] = (.error .eof, []) := by
  obtain ⟨k, rfl⟩ : ∃ k, numLenBytes = k + 1 := ⟨numLenBytes - 1, by omega⟩
  have huint : (readUint (k + 1)).exec [] = (.error .eof, []) := by
    rw [readUint, readUintLoop, exec_bind_of_error (exec_binaryRead_of_lt (by simp))]
    rfl
  rw [exec_readVarBytes_of_mem hn, exec_bind_of_error huint]

theorem exec_readVarBytes_eq_ok {numLenBytes : ℕ} {input data rest : List UInt8}
    (h : (readVarBytes numLenBytes).exec input = (.ok data, rest)) :
    (0 < numLenBytes ∧ numLenBytes ≤ 8) ∧
      input = encodeBE data.length numLenBytes ++ data ++ rest ∧ data ++ rest ≠ [] := by
  have hn : 0 < numLenBytes ∧ numLenBytes ≤ 8 := by
    unfold readVarBytes at h
    by_cases hgt : numLenBytes > 8
    · rw [if_pos hgt] at h
      cases h
    by_cases hzero : numLenBytes = 0
    · rw [if_neg hgt, if_pos hzero] at h
      cases h
    omega
  rw [exec_readVarBytes_of_mem hn] at h
  obtain ⟨l, mid, hl, h⟩ := exec_bind_eq_ok h
  obtain ⟨data', rest', hdata, h⟩ := exec_bind_eq_ok h
  obtain ⟨xs, hxs, rfl⟩ := exec_readUintLoop_eq_ok hl
  rw [readUint, exec_readUintLoop_append (j := 0) (by decide) (by omega) hxs, Nat.zero_mul,
    Nat.zero_add] at hl
  cases hl
  obtain ⟨hne, rfl, rfl⟩ := exec_read_eq_ok hdata
  split_ifs at h with hlen
  · cases h
  · cases h
    have hlen' : (mid.take (decodeBE xs)).length = decodeBE xs := not_not.mp hlen
    refine ⟨hn, ?_, by rwa [List.take_append_drop]⟩
    rw [hlen', ← hxs, encodeBE_decodeBE, List.append_assoc, List.take_append_drop]

theorem length_lt_of_readVarBytes {numLenBytes : ℕ} {input data rest : List UInt8}
    (h : (readVarBytes numLenBytes).exec input = (.ok data, rest)) :
    rest.length < input.length := by
  obtain ⟨hn, rfl, -⟩ := exec_readVarBytes_eq_ok h
  simp only [List.length_append, length_encodeBE]
  omega

def readASN1CertEntries (elementLenBytes : ℕ) (listReader : List UInt8) :
    Except GoError (List (List UInt8)) :=
  match _h : (readVarBytes elementLenBytes).exec listReader with
  | (.ok entry, rest) => (entry :: ·) <$> readASN1CertEntries elementLenBytes rest
  | (.error .eof, _) => .ok []
  | (.error e, _) => .error e
termination_by listReader.length
decreasing_by exact length_lt_of_readVarBytes _h

def readASN1CertList (totalLenBytes elementLenBytes : ℕ) : GoReader (List (List UInt8)) := do
  let listBytes ← readVarBytes totalLenBytes
  match readASN1CertEntries elementLenBytes listBytes with
  | .ok certs => pure certs
  | .error e => throw e

def readTimestampedEntryInto (t : TimestampedEntry) : GoReader TimestampedEntry := do
  let timestamp ← binaryRead 8
  let t := { t with timestamp := UInt64.ofNat timestamp }
  let entryType ← binaryRead 2
  let t := { t with entryType := UInt16.ofNat entryType }
  let t ← if t.entryType = x509LogEntryType then do
      let x509Entry ← readVarBytes certificateLengthBytes
      pure { t with x509Entry }
    else if t.entryType = precertLogEntryType then do
      let issuerKeyHash ← readFull 32
      let tbsCertificate ← readVarBytes preCertificateLengthBytes
      pure { t with precertEntry := { issuerKeyHash, tbsCertificate } }
    else
      let entryType := t.entryType
      throw (.new s!"unknown EntryType: {entryType}")
  -- the error of this read goes to `err`, which is never returned
  let extensions ← tryCatch (readVarBytes extensionsLengthBytes) fun _ => pure []
  pure { t with extensions }

def readMerkleTreeLeaf : GoReader MerkleTreeLeaf := do
  let version := UInt8.ofNat (← binaryRead 1)
  if version ≠ v1 then
    throw (.new s!"unknown Version {version}")
  let leafType := UInt8.ofNat (← binaryRead 1)
  if leafType ≠ timestampedEntryLeafType then
    throw (.new s!"unknown LeafType {leafType}")
  let timestampedEntry ← readTimestampedEntryInto {}
  pure { version, leafType, timestampedEntry }

def unmarshalX509ChainArray (b : List UInt8) : Except GoError (List (List UInt8)) :=
  ((readASN1CertList certificateChainLengthBytes certificateLengthBytes).exec b).1

def unmarshalPrecertChainArray (b : List UInt8) : Except GoError (List (List UInt8)) :=
  (GoReader.exec (do
    let precert ← readVarBytes certificateLengthBytes
    let remainingChain ← readASN1CertList certificateChainLengthBytes certificateLengthBytes
    pure (precert :: remainingChain)) b).1

def unmarshalDigitallySigned : GoReader DigitallySigned := do
  let h ← withContext "failed to read HashAlgorithm: " (binaryRead 1)
  let s ← withContext "failed to read SignatureAlgorithm: " (binaryRead 1)
  let sig ← withContext "failed to read Signature bytes: " (readVarBytes signatureLengthBytes)
  pure { hashAlgorithm := UInt8.ofNat h, signatureAlgorithm := UInt8.ofNat s, signature := sig }

def marshalDigitallySignedHere (ds : DigitallySigned) (here : Option (List UInt8)) :
    Except GoError (List UInt8) := do
  let sigLen := ds.signature.length
  let dsOutLen := 2 + signatureLengthBytes + sigLen
  let here := here.getD (List.replicate dsOutLen 0)
  if here.length < dsOutLen then
    throw errNotEnoughBuffer
  let here := here.take dsOutLen
  let here := here.set 0 ds.hashAlgorithm
  let here := here.set 1 ds.signatureAlgorithm
  let here := copySlice here 2 4 (encodeBE (sigLen % 2 ^ 16) 2)
  let here := copySlice here 4 here.length ds.signature
  pure here

def marshalDigitallySigned (ds : DigitallySigned) : Except GoError (List UInt8) :=
  marshalDigitallySignedHere ds none

def checkExtensionsFormat (ext : List UInt8) : Except GoError Unit :=
  if ext.length > maxExtensionsLength then .error (.new "extensions too large") else .ok ()

def SignedCertificateTimestamp.serializedLength (sct : SignedCertificateTimestamp) :
    Except GoError ℕ :=
  if sct.sctVersion = v1 then
    .ok (1 + 32 + 8 + 2 + sct.extensions.length + 2 + 2 + sct.signature.signature.length)
  else .error errInvalidVersion

def serializeV1SCTHere (sct : SignedCertificateTimestamp) (here : Option (List UInt8)) :
    Except GoError (List UInt8) := do
  if sct.sctVersion ≠ v1 then
    throw errInvalidVersion
  let sctLen ← sct.serializedLength
  let here := here.getD (List.replicate sctLen 0)
  if here.length < sctLen then
    throw errNotEnoughBuffer
  checkExtensionsFormat sct.extensions
  let here := here.take sctLen
  let here := here.set 0 sct.sctVersion
  let here := copySlice here 1 33 sct.logID.toList
  let here := copySlice here 33 41 (encodeBE sct.timestamp.toNat 8)
  let extLen := sct.extensions.length
  let here := copySlice here 41 43 (encodeBE (extLen % 2 ^ 16) 2)
  let n := 43 + extLen
  let here := copySlice here 43 n sct.extensions
  -- `here[n:]` shares `here`'s array: the signature is written into `here` from `n` on
  let ds ← marshalDigitallySignedHere sct.signature (some (here.drop n))
  pure (copySlice here n here.length ds)

def serializeSCTHere (sct : SignedCertificateTimestamp) (here : Option (List UInt8)) :
    Except GoError (List UInt8) :=
  if sct.sctVersion = v1 then serializeV1SCTHere sct here
  else
    let version := sct.sctVersion
    .error (.new s!"unknown SCT version {version}")

def serializeSCT (sct : SignedCertificateTimestamp) : Except GoError (List UInt8) :=
  serializeSCTHere sct none

def deserializeSCTV1 (sct : SignedCertificateTimestamp) : GoReader SignedCertificateTimestamp := do
  let logID ← readFull 32
  let timestamp ← binaryRead 8
  let ext ← readVarBytes extensionsLengthBytes
  let ds ← unmarshalDigitallySigned
  pure { sct with logID, timestamp := UInt64.ofNat timestamp, extensions := ext, signature := ds }

def deserializeSCT : GoReader SignedCertificateTimestamp := do
  let sctVersion := UInt8.ofNat (← binaryRead 1)
  if sctVersion = v1 then
    deserializeSCTV1 { sctVersion }
  else
    throw (.new s!"unknown SCT version {sctVersion}")

end CertTrans.Go
