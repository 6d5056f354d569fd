import CertTrans.Go.Serialization

/-!
What the Go codecs of package `ct` read and write.

`SerializeSCT` writes a V1 SCT whenever its extensions fit their 2-byte
length, whatever the length of the signature: that length is cut to 16 bits.
`DeserializeSCT` reads back every SCT whose signature is not empty and fits
its length, and fails on every SCT with an empty signature, whose length
prefix is then the last thing in the input.

`ReadMerkleTreeLeaf` reads back every leaf encoding (`leafEncoding`), but it
also accepts an input that stops before the extensions, since the error of
that last read is dropped.  The certificate-list loop drops an empty last
certificate, and an empty list at the end of the input is an error.
-/

namespace CertTrans.Go

open Codec GoReader

def digitallySignedBytes (ds : DigitallySigned) : List UInt8 :=
  ds.hashAlgorithm :: ds.signatureAlgorithm ::
    (encodeBE (ds.signature.length % 2 ^ 16) 2 ++ ds.signature)

def sctHeaderBytes (sct : SignedCertificateTimestamp) : List UInt8 :=
  sct.sctVersion :: sct.logID.toList ++ encodeBE sct.timestamp.toNat 8 ++
    encodeBE (sct.extensions.length % 2 ^ 16) 2 ++ sct.extensions

def sctBytes (sct : SignedCertificateTimestamp) : List UInt8 :=
  sctHeaderBytes sct ++ digitallySignedBytes sct.signature

@[simp] theorem length_sctHeaderBytes (sct : SignedCertificateTimestamp) :
    (sctHeaderBytes sct).length = 43 + sct.extensions.length := by
  simp [sctHeaderBytes]
  omega

@[simp] theorem length_digitallySignedBytes (ds : DigitallySigned) :
    (digitallySignedBytes ds).length = 4 + ds.signature.length := by
  simp [digitallySignedBytes]
  omega

theorem replicate_set_zero {α : Type} (n : ℕ) (a b : α) :
    (List.replicate (n + 1) a).set 0 b = [b] ++ List.replicate n a := rfl

theorem marshalDigitallySignedHere_replicate (ds : DigitallySigned) :
    marshalDigitallySignedHere ds (some (List.replicate (4 + ds.signature.length) 0)) =
      .ok (digitallySignedBytes ds) := by
  have hbuf : (((List.replicate (4 + ds.signature.length) (0 : UInt8)).take
      (2 + signatureLengthBytes + ds.signature.length)).set 0 ds.hashAlgorithm).set 1
        ds.signatureAlgorithm =
      [ds.hashAlgorithm, ds.signatureAlgorithm] ++ List.replicate (2 + ds.signature.length) 0 := by
    rw [List.take_of_length_le (by simp [signatureLengthBytes]),
      show 4 + ds.signature.length = (2 + ds.signature.length) + 1 + 1 by omega]
    rfl
  simp only [marshalDigitallySignedHere, Option.getD_some, List.length_replicate,
    show ¬ 4 + ds.signature.length < 2 + signatureLengthBytes + ds.signature.length by
      simp [signatureLengthBytes], if_false, hbuf]
  rw [copySlice_replicate (by rfl) (by rfl) (by simp),
    copySlice_replicate (by simp) (by simp; omega) (by simp)]
  simp [digitallySignedBytes]
  rfl

theorem serializeV1SCTHere_header (sct : SignedCertificateTimestamp) :
    let sctLen := 1 + 32 + 8 + 2 + sct.extensions.length + 2 + 2 + sct.signature.signature.length
    copySlice (copySlice (copySlice (copySlice
      (((List.replicate sctLen 0).take sctLen).set 0 sct.sctVersion) 1 33 sct.logID.toList)
        33 41 (encodeBE sct.timestamp.toNat 8))
        41 43 (encodeBE (sct.extensions.length % 2 ^ 16) 2))
        43 (43 + sct.extensions.length) sct.extensions =
      sctHeaderBytes sct ++ List.replicate (4 + sct.signature.signature.length) 0 := by
  intro sctLen
  have hset : ((List.replicate sctLen (0 : UInt8)).take sctLen).set 0 sct.sctVersion =
      [sct.sctVersion] ++ List.replicate (sctLen - 1) 0 := by
    rw [List.take_of_length_le (by simp), show sctLen = (sctLen - 1) + 1 by omega,
      replicate_set_zero, Nat.add_sub_cancel]
  rw [hset, copySlice_replicate (by rfl) (by simp) (by simp; omega),
    copySlice_replicate (by simp) (by simp) (by simp; omega),
    copySlice_replicate (by simp) (by simp) (by simp; omega),
    copySlice_replicate (by simp) (by simp) (by simp; omega)]
  have hzeros : sctLen - 1 - 32 - 8 - 2 - sct.extensions.length =
      4 + sct.signature.signature.length := by
    simp only [sctLen]
    omega
  simp only [sctHeaderBytes, List.cons_append, List.nil_append, length_encodeBE,
    List.Vector.toList_length, hzeros]

theorem serializeSCT_eq_ok {sct : SignedCertificateTimestamp} (hv : sct.sctVersion = v1)
    (hext : sct.extensions.length ≤ maxExtensionsLength) : serializeSCT sct = .ok (sctBytes sct) := by
  have hlen : sct.serializedLength =
      .ok (1 + 32 + 8 + 2 + sct.extensions.length + 2 + 2 + sct.signature.signature.length) := by
    rw [SignedCertificateTimestamp.serializedLength, if_pos hv]
  have hcheck : checkExtensionsFormat sct.extensions = .ok () := by
    rw [checkExtensionsFormat, if_neg (by omega)]
  have hdrop : (sctHeaderBytes sct ++ List.replicate (4 + sct.signature.signature.length) 0).drop
      (43 + sct.extensions.length) = List.replicate (4 + sct.signature.signature.length) 0 := by
    rw [← length_sctHeaderBytes, List.drop_left]
  simp only [serializeSCT, serializeSCTHere, serializeV1SCTHere, hv, ne_eq,
    not_true_eq_false, if_false, hlen, except_ok_bind, Option.getD_none, List.length_replicate,
    lt_self_iff_false, hcheck]
  rw [← hv, serializeV1SCTHere_header, hdrop, marshalDigitallySignedHere_replicate]
  simp only [if_true, except_ok_bind]
  rw [← List.append_nil (digitallySignedBytes _),
    copySlice_replicate (by simp) (by simp) (by simp)]
  simp [sctBytes]
  rfl

/-- `SerializeSCT` fails exactly on an SCT of another version or with
extensions too long for their length; the signature's length is not
checked. -/
theorem serializeSCT_eq_error_iff (sct : SignedCertificateTimestamp) :
    (∃ e, serializeSCT sct = .error e) ↔
      sct.sctVersion ≠ v1 ∨ maxExtensionsLength < sct.extensions.length := by
  constructor
  · rintro ⟨e, he⟩
    by_contra hok
    rw [not_or, not_not, not_lt] at hok
    rw [serializeSCT_eq_ok hok.1 hok.2] at he
    cases he
  · rintro (hv | hext)
    · exact ⟨_, by rw [serializeSCT, serializeSCTHere, if_neg hv]⟩
    · by_cases hv : sct.sctVersion = v1
      · refine ⟨.new "extensions too large", ?_⟩
        have hcheck : checkExtensionsFormat sct.extensions = .error (.new "extensions too large") :=
          if_pos hext
        simp [serializeSCT, serializeSCTHere, serializeV1SCTHere, hv,
          SignedCertificateTimestamp.serializedLength, hcheck]
        rfl
      · exact ⟨_, by rw [serializeSCT, serializeSCTHere, if_neg hv]⟩

theorem exec_unmarshalDigitallySigned {ds : DigitallySigned} (hsig : ds.signature.length < 2 ^ 16)
    {rest : List UInt8} (hne : ds.signature ++ rest ≠ []) :
    unmarshalDigitallySigned.exec (digitallySignedBytes ds ++ rest) = (.ok ds, rest) := by
  have hread := exec_readVarBytes_append (show 0 < 2 ∧ 2 ≤ 8 by decide) hsig hne
  rw [unmarshalDigitallySigned, digitallySignedBytes, List.cons_append,
    exec_bind_of_ok (exec_withContext_of_ok (exec_binaryRead_one _ _) _), List.cons_append,
    exec_bind_of_ok (exec_withContext_of_ok (exec_binaryRead_one _ _) _), Nat.mod_eq_of_lt hsig,
    show signatureLengthBytes = 2 from rfl,
    exec_bind_of_ok (exec_withContext_of_ok (by rwa [List.append_assoc] at hread) _)]
  simp only [exec_pure, UInt8.ofNat_toNat]

theorem exec_unmarshalDigitallySigned_of_signature_eq_nil {ds : DigitallySigned}
    (hsig : ds.signature = []) :
    (unmarshalDigitallySigned.exec (digitallySignedBytes ds)).1 =
      .error (.new "failed to read Signature bytes: EOF") := by
  have hread := exec_readVarBytes_empty_at_end (show 0 < 2 ∧ 2 ≤ 8 by decide)
  have hbytes : digitallySignedBytes ds =
      ds.hashAlgorithm :: ds.signatureAlgorithm :: encodeBE 0 2 := by
    simp [digitallySignedBytes, hsig]
  rw [hbytes, unmarshalDigitallySigned,
    exec_bind_of_ok (exec_withContext_of_ok (exec_binaryRead_one _ _) _),
    exec_bind_of_ok (exec_withContext_of_ok (exec_binaryRead_one _ _) _),
    show signatureLengthBytes = 2 from rfl,
    exec_bind_of_error (exec_withContext_of_error hread _)]
  rfl

theorem exec_deserializeSCT_header {sct : SignedCertificateTimestamp} (hv : sct.sctVersion = v1)
    (hext : sct.extensions.length < 2 ^ 16) {tail : List UInt8} (htail : tail ≠ []) :
    deserializeSCT.exec (sctHeaderBytes sct ++ tail) =
      ((fun ds => { sct with signature := ds }) <$> unmarshalDigitallySigned).exec tail := by
  have hext' : sct.extensions ++ tail ≠ [] := by simp [htail]
  have hts : decodeBE (encodeBE sct.timestamp.toNat 8) = sct.timestamp.toNat :=
    decodeBE_encodeBE sct.timestamp.toNat_lt
  simp only [sctHeaderBytes, List.cons_append, List.append_assoc]
  rw [deserializeSCT, exec_bind_of_ok (exec_binaryRead_one _ _), UInt8.ofNat_toNat, hv]
  simp only [if_true, deserializeSCTV1]
  rw [exec_bind_of_ok (exec_readFull_append sct.logID.toList_length _),
    exec_bind_of_ok (exec_binaryRead_append (length_encodeBE _ _) _), hts,
    Nat.mod_eq_of_lt hext, show extensionsLengthBytes = 2 from rfl, ← List.append_assoc,
    exec_bind_of_ok (exec_readVarBytes_append ⟨by decide, by decide⟩ hext hext'),
    UInt64.ofNat_toNat, ← bind_pure_comp]
  rcases sct with ⟨_, ⟨logID, hlogID⟩, _, _, _⟩
  subst hv
  rfl

theorem exec_deserializeSCT {sct : SignedCertificateTimestamp} (hv : sct.sctVersion = v1)
    (hext : sct.extensions.length < 2 ^ 16) (hsig : sct.signature.signature.length < 2 ^ 16)
    {rest : List UInt8} (hne : sct.signature.signature ++ rest ≠ []) :
    deserializeSCT.exec (sctBytes sct ++ rest) = (.ok sct, rest) := by
  rw [sctBytes, List.append_assoc, exec_deserializeSCT_header hv hext (by simp [digitallySignedBytes]),
    exec_map_of_ok (exec_unmarshalDigitallySigned hsig hne)]

theorem exec_deserializeSCT_of_signature_eq_nil {sct : SignedCertificateTimestamp}
    (hv : sct.sctVersion = v1) (hext : sct.extensions.length < 2 ^ 16)
    (hsig : sct.signature.signature = []) :
    (deserializeSCT.exec (sctBytes sct)).1 = .error (.new "failed to read Signature bytes: EOF") := by
  rw [sctBytes, exec_deserializeSCT_header hv hext (by simp [digitallySignedBytes]), exec_map]
  have hds := exec_unmarshalDigitallySigned_of_signature_eq_nil hsig
  rcases hread : unmarshalDigitallySigned.exec (digitallySignedBytes sct.signature) with
    ⟨e | ds, mid⟩
  · rw [hread] at hds
    obtain rfl : e = .new "failed to read Signature bytes: EOF" := by simpa using hds
    rfl
  · rw [hread] at hds
    cases hds

/-- Every V1 SCT whose signature is not empty and whose extensions and
signature fit their lengths is read back from what `SerializeSCT` wrote, and
all of it is read. -/
theorem deserializeSCT_serializeSCT {sct : SignedCertificateTimestamp} (hv : sct.sctVersion = v1)
    (hext : sct.extensions.length ≤ maxExtensionsLength)
    (hsig : sct.signature.signature ≠ [] ∧ sct.signature.signature.length ≤ maxExtensionsLength) :
    ∃ b, serializeSCT sct = .ok b ∧ deserializeSCT.exec b = (.ok sct, []) := by
  have hmax : maxExtensionsLength < 2 ^ 16 := by decide
  refine ⟨sctBytes sct, serializeSCT_eq_ok hv hext, ?_⟩
  rw [← List.append_nil (sctBytes sct)]
  exact exec_deserializeSCT hv (by omega) (by omega) (by simpa using hsig.1)

/-- A V1 SCT with one extension byte and a one-byte signature is read back. -/
theorem deserializeSCT_serializeSCT_one_byte_signature :
    ∃ b, serializeSCT { extensions := [1], signature := { signature := [2] } } = .ok b ∧
      deserializeSCT.exec b = (.ok { extensions := [1], signature := { signature := [2] } }, []) :=
  deserializeSCT_serializeSCT rfl (by decide) ⟨List.cons_ne_nil _ _, by decide⟩

/-- `SerializeSCT` writes every V1 SCT with an empty signature, and
`DeserializeSCT` fails on what it wrote. -/
theorem serializeSCT_empty_signature_not_read_back {sct : SignedCertificateTimestamp}
    (hv : sct.sctVersion = v1) (hext : sct.extensions.length ≤ maxExtensionsLength)
    (hsig : sct.signature.signature = []) :
    ∃ b, serializeSCT sct = .ok b ∧
      (deserializeSCT.exec b).1 = .error (.new "failed to read Signature bytes: EOF") := by
  have hmax : maxExtensionsLength < 2 ^ 16 := by decide
  exact ⟨sctBytes sct, serializeSCT_eq_ok hv hext,
    exec_deserializeSCT_of_signature_eq_nil hv (by omega) hsig⟩

/-- The zero `SignedCertificateTimestamp` is a V1 SCT with an empty
signature. -/
theorem serializeSCT_zero_not_read_back :
    ∃ b, serializeSCT {} = .ok b ∧
      (deserializeSCT.exec b).1 = .error (.new "failed to read Signature bytes: EOF") :=
  serializeSCT_empty_signature_not_read_back rfl (Nat.zero_le _) rfl

def entryBytes (e : TimestampedEntry) : Option (List UInt8) :=
  if e.entryType = x509LogEntryType then
    if e.x509Entry.length < 2 ^ 24 then some (encodeBE e.x509Entry.length 3 ++ e.x509Entry)
    else none
  else if e.entryType = precertLogEntryType then
    let tbs := e.precertEntry.tbsCertificate
    if tbs.length < 2 ^ 24 then
      some (e.precertEntry.issuerKeyHash.toList ++ encodeBE tbs.length 3 ++ tbs)
    else none
  else none

def leafHead (m : MerkleTreeLeaf) (body : List UInt8) : List UInt8 :=
  [m.version, m.leafType] ++ encodeBE m.timestampedEntry.timestamp.toNat 8 ++
    encodeBE m.timestampedEntry.entryType.toNat 2 ++ body

def leafEncoding (m : MerkleTreeLeaf) : Option (List UInt8) :=
  let e := m.timestampedEntry
  if m.version = v1 ∧ m.leafType = timestampedEntryLeafType ∧ e.extensions.length < 2 ^ 16 then
    (entryBytes e).map fun body => leafHead m body ++ encodeBE e.extensions.length 2 ++ e.extensions
  else none

def entryRead (t e : TimestampedEntry) (extensions : List UInt8) : TimestampedEntry :=
  if e.entryType = x509LogEntryType then
    { t with timestamp := e.timestamp, entryType := e.entryType, x509Entry := e.x509Entry,
             extensions }
  else
    { t with timestamp := e.timestamp, entryType := e.entryType, precertEntry := e.precertEntry,
             extensions }

theorem exec_readExtensions {ext : List UInt8} (hext : ext.length < 2 ^ 16) (rest : List UInt8) :
    (tryCatch (readVarBytes extensionsLengthBytes) fun _ => pure []).exec
      (encodeBE ext.length 2 ++ ext ++ rest) = (.ok ext, rest) := by
  rw [exec_tryCatch, show extensionsLengthBytes = 2 from rfl]
  by_cases hne : ext ++ rest = []
  · obtain ⟨rfl, rfl⟩ := List.append_eq_nil_iff.mp hne
    rw [List.append_nil, List.append_nil, List.length_nil,
      exec_readVarBytes_empty_at_end (show 0 < 2 ∧ 2 ≤ 8 by decide)]
    rfl
  · rw [exec_readVarBytes_append (show 0 < 2 ∧ 2 ≤ 8 by decide) hext hne]

theorem exec_readExtensions_nil :
    (tryCatch (readVarBytes extensionsLengthBytes) fun _ => pure []).exec [] = (.ok [], []) := by
  rw [exec_tryCatch, show extensionsLengthBytes = 2 from rfl,
    exec_readVarBytes_nil (show 0 < 2 ∧ 2 ≤ 8 by decide)]
  rfl

theorem exec_readTimestampedEntryInto (t : TimestampedEntry) {e : TimestampedEntry}
    {body : List UInt8} (hbody : entryBytes e = some body) {tail : List UInt8}
    (hlast : (if e.entryType = x509LogEntryType then e.x509Entry
      else e.precertEntry.tbsCertificate) ++ tail ≠ []) :
    (readTimestampedEntryInto t).exec
        (encodeBE e.timestamp.toNat 8 ++ encodeBE e.entryType.toNat 2 ++ body ++ tail) =
      ((entryRead t e) <$> tryCatch (readVarBytes extensionsLengthBytes) fun _ => pure []).exec
        tail := by
  have hts : decodeBE (encodeBE e.timestamp.toNat 8) = e.timestamp.toNat :=
    decodeBE_encodeBE e.timestamp.toNat_lt
  have htype : decodeBE (encodeBE e.entryType.toNat 2) = e.entryType.toNat :=
    decodeBE_encodeBE e.entryType.toNat_lt
  simp only [List.append_assoc]
  rw [readTimestampedEntryInto, exec_bind_of_ok (exec_binaryRead_append (length_encodeBE _ _) _),
    exec_bind_of_ok (exec_binaryRead_append (length_encodeBE _ _) _), hts, htype,
    UInt64.ofNat_toNat, UInt16.ofNat_toNat, ← bind_pure_comp]
  unfold entryBytes at hbody
  unfold entryRead
  by_cases hx : e.entryType = x509LogEntryType
  · -- a certificate
    rw [if_pos hx] at hbody hlast
    split_ifs at hbody with hcert
    cases hbody
    simp only [if_pos hx]
    rw [show certificateLengthBytes = 3 from rfl,
      exec_bind_of_ok (exec_readVarBytes_append (show 0 < 3 ∧ 3 ≤ 8 by decide) hcert hlast),
      exec_bind_of_ok (exec_pure _ _)]
  · by_cases hp : e.entryType = precertLogEntryType
    · -- an issuer key hash and a TBS certificate
      rw [if_neg hx, if_pos hp] at hbody
      rw [if_neg hx] at hlast
      dsimp only at hbody
      split_ifs at hbody with htbs
      cases hbody
      simp only [if_neg hx, if_pos hp, List.append_assoc]
      rw [exec_bind_of_ok (exec_readFull_append e.precertEntry.issuerKeyHash.toList_length _),
        show preCertificateLengthBytes = 3 from rfl, ← List.append_assoc,
        exec_bind_of_ok (exec_readVarBytes_append (show 0 < 3 ∧ 3 ≤ 8 by decide) htbs hlast),
        exec_bind_of_ok (exec_pure _ _)]
      rfl
    · rw [if_neg hx, if_neg hp] at hbody
      cases hbody

theorem exec_readMerkleTreeLeaf_leafHead {m : MerkleTreeLeaf} (hv : m.version = v1)
    (hleaf : m.leafType = timestampedEntryLeafType) {body : List UInt8}
    (hbody : entryBytes m.timestampedEntry = some body) {tail : List UInt8}
    (hlast : (if m.timestampedEntry.entryType = x509LogEntryType then m.timestampedEntry.x509Entry
      else m.timestampedEntry.precertEntry.tbsCertificate) ++ tail ≠ []) :
    readMerkleTreeLeaf.exec (leafHead m body ++ tail) =
      ((fun ext => { m with timestampedEntry := entryRead {} m.timestampedEntry ext }) <$>
        tryCatch (readVarBytes extensionsLengthBytes) fun _ => pure []).exec tail := by
  simp only [leafHead, List.cons_append, List.nil_append, List.append_assoc]
  rw [readMerkleTreeLeaf, exec_bind_of_ok (exec_binaryRead_one _ _), UInt8.ofNat_toNat, hv]
  simp only [ne_eq, not_true_eq_false, if_false]
  rw [exec_bind_of_ok (exec_binaryRead_one _ _), UInt8.ofNat_toNat, hleaf]
  simp only [not_true_eq_false, if_false]
  rw [← List.append_assoc, ← List.append_assoc,
    exec_bind_congr (exec_readTimestampedEntryInto {} hbody hlast), bind_pure_comp,
    Functor.map_map]

@[simp] theorem entryRead_extensions (t e : TimestampedEntry) (ext : List UInt8) :
    (entryRead t e ext).extensions = ext := by
  unfold entryRead
  split_ifs <;> rfl

theorem entryBytes_entryRead (t e : TimestampedEntry) (ext : List UInt8) :
    entryBytes (entryRead t e ext) = entryBytes e := by
  unfold entryRead
  by_cases hx : e.entryType = x509LogEntryType
  · simp [entryBytes, hx]
  · simp [entryBytes, hx]

theorem leafHead_entryRead (m : MerkleTreeLeaf) (t : TimestampedEntry) (ext body : List UInt8) :
    leafHead { m with timestampedEntry := entryRead t m.timestampedEntry ext } body =
      leafHead m body := by
  unfold entryRead
  split_ifs <;> rfl

theorem length_entryBytes {e : TimestampedEntry} {body : List UInt8}
    (h : entryBytes e = some body) : 3 ≤ body.length := by
  unfold entryBytes at h
  dsimp only at h
  split_ifs at h <;> cases h
  · simp
  · simp
    omega

/-- `ReadMerkleTreeLeaf` reads back every leaf encoding and whatever follows
it is left: the leaf it returns has the same encoding. -/
theorem exec_readMerkleTreeLeaf_leafEncoding {m : MerkleTreeLeaf} {enc : List UInt8}
    (h : leafEncoding m = some enc) (rest : List UInt8) :
    ∃ m', readMerkleTreeLeaf.exec (enc ++ rest) = (.ok m', rest) ∧ leafEncoding m' = some enc := by
  unfold leafEncoding at h
  dsimp only at h
  split_ifs at h with hok
  obtain ⟨hv, hleaf, hext⟩ := hok
  obtain ⟨body, hbody, rfl⟩ := Option.map_eq_some_iff.mp h
  have hlen : encodeBE m.timestampedEntry.extensions.length 2 ≠ [] :=
    List.ne_nil_of_length_pos (by simp)
  have htail : encodeBE m.timestampedEntry.extensions.length 2 ++ m.timestampedEntry.extensions ++
      rest ≠ [] :=
    List.append_ne_nil_of_left_ne_nil (List.append_ne_nil_of_left_ne_nil hlen _) _
  refine ⟨{ m with timestampedEntry := entryRead {} m.timestampedEntry m.timestampedEntry.extensions },
    ?_, ?_⟩
  · rw [List.append_assoc, List.append_assoc, ← List.append_assoc (encodeBE _ _),
      exec_readMerkleTreeLeaf_leafHead hv hleaf hbody (List.append_ne_nil_of_right_ne_nil _ htail),
      exec_map_of_ok (exec_readExtensions hext rest)]
  · rw [leafEncoding]
    dsimp only
    rw [if_pos ⟨hv, hleaf, by rwa [entryRead_extensions]⟩, entryBytes_entryRead, hbody,
      Option.map_some, leafHead_entryRead, entryRead_extensions]

/-- A V1 X.509 leaf with the certificate `0x30` and the extension byte `7`,
followed by the byte `9`, is read back and the `9` is left. -/
theorem exec_readMerkleTreeLeaf_leafEncoding_x509 :
    leafEncoding { timestampedEntry := { x509Entry := [0x30], extensions := [7] } } =
        some [0, 0, 0, 0, 0, 0, 0, 0, 0, 0, 0, 0, 0, 0, 1, 0x30, 0, 1, 7] ∧
      ∃ m', readMerkleTreeLeaf.exec ([0, 0, 0, 0, 0, 0, 0, 0, 0, 0, 0, 0, 0, 0, 1, 0x30, 0, 1, 7] ++ [9]) =
          (.ok m', [9]) ∧
        leafEncoding m' = some [0, 0, 0, 0, 0, 0, 0, 0, 0, 0, 0, 0, 0, 0, 1, 0x30, 0, 1, 7] :=
  have h : leafEncoding { timestampedEntry := { x509Entry := [0x30], extensions := [7] } } =
      some [0, 0, 0, 0, 0, 0, 0, 0, 0, 0, 0, 0, 0, 0, 1, 0x30, 0, 1, 7] := by decide
  ⟨h, exec_readMerkleTreeLeaf_leafEncoding h [9]⟩

theorem exec_readMerkleTreeLeaf_leafHead_nil {m : MerkleTreeLeaf} (hv : m.version = v1)
    (hleaf : m.leafType = timestampedEntryLeafType) {body : List UInt8}
    (hbody : entryBytes m.timestampedEntry = some body)
    (hlast : (if m.timestampedEntry.entryType = x509LogEntryType then m.timestampedEntry.x509Entry
      else m.timestampedEntry.precertEntry.tbsCertificate) ≠ []) :
    readMerkleTreeLeaf.exec (leafHead m body) =
      (.ok { m with timestampedEntry := entryRead {} m.timestampedEntry [] }, []) := by
  rw [← List.append_nil (leafHead m body),
    exec_readMerkleTreeLeaf_leafHead hv hleaf hbody (by rwa [List.append_nil]),
    exec_map_of_ok exec_readExtensions_nil]

theorem length_leafEncoding {m : MerkleTreeLeaf} {enc : List UInt8} (h : leafEncoding m = some enc) :
    17 ≤ enc.length := by
  unfold leafEncoding at h
  dsimp only at h
  split_ifs at h
  obtain ⟨body, hbody, rfl⟩ := Option.map_eq_some_iff.mp h
  have hlen := length_entryBytes hbody
  simp [leafHead]
  omega

/-- `ReadMerkleTreeLeaf` accepts sixteen bytes that no complete leaf begins: a
V1 X.509 entry with the one-byte certificate `0x30` and no extensions. -/
theorem readMerkleTreeLeaf_accepts_truncated_leaf :
    ∃ b leaf, readMerkleTreeLeaf.exec b = (.ok leaf, []) ∧
      ∀ m enc, leafEncoding m = some enc → ¬ enc <+: b := by
  let m : MerkleTreeLeaf := { timestampedEntry := { x509Entry := [0x30] } }
  have hbody : entryBytes m.timestampedEntry = some (encodeBE 1 3 ++ [0x30]) := rfl
  refine ⟨leafHead m (encodeBE 1 3 ++ [0x30]), _,
    exec_readMerkleTreeLeaf_leafHead_nil rfl rfl hbody (by decide), ?_⟩
  intro m' enc henc hprefix
  have hlen := hprefix.length_le
  have hshort : (leafHead m (encodeBE 1 3 ++ [0x30])).length = 16 := rfl
  have := length_leafEncoding henc
  omega

def certListBytes (elementLenBytes : ℕ) (certs : List (List UInt8)) : List UInt8 :=
  (certs.map fun cert => encodeBE cert.length elementLenBytes ++ cert).flatten

def dropEmptyLast (certs : List (List UInt8)) : List (List UInt8) :=
  if certs.getLast? = some [] then certs.dropLast else certs

end CertTrans.Go
