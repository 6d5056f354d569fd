import CertTrans.Proto.SignatureInput
import CertTrans.Proto.LeafRoundTrip

/-!
The signature inputs against the fields they are meant to fix.

Every field of an input is either of a fixed width the serializer checks or
written after its length, so equal inputs come from equal fields: under
`ConfigureSerializerForV1CT` for the SCT inputs, and under both configurations
for the tree-head inputs.  The V2 SCT inputs write the issuer key hash with no
check of its length, and the TBS certificate's length prefix after it can then
be read as part of the key hash: two entries with different fields give the same
bytes.  With 32-byte key hashes the V2 inputs are unambiguous too.  An SCT input
and a tree-head input differ in their second byte, the signature type.
-/

namespace CertTrans

open Serializer TLSSerializer

theorem LogEntryType.toNat_injective : Function.Injective LogEntryType.toNat := fun a b h => by
  simpa using congrArg LogEntryType.ofNat? h

theorem writeVarBytes_append_inj {maxLength : Nat} {a b r s : ByteString}
    (hmax : maxLength < 256 ^ prefixLength maxLength) (ha : a.length ≤ maxLength)
    (hb : b.length ≤ maxLength)
    (h : writeVarBytes a maxLength ++ r = writeVarBytes b maxLength ++ s) : a = b ∧ r = s :=
  Codec.encodeBE_length_append_inj (Nat.lt_of_le_of_lt ha hmax) (Nat.lt_of_le_of_lt hb hmax) h

theorem writeVarBytes_inj {maxLength : Nat} {a b : ByteString}
    (hmax : maxLength < 256 ^ prefixLength maxLength) (ha : a.length ≤ maxLength)
    (hb : b.length ≤ maxLength) (h : writeVarBytes a maxLength = writeVarBytes b maxLength) :
    a = b :=
  (writeVarBytes_append_inj hmax ha hb
    (show writeVarBytes a maxLength ++ [] = writeVarBytes b maxLength ++ [] by rw [h])).1

section Extensions

variable {α : Type} {type : α → Nat} {data : α → ByteString}

theorem typedExtension_append_inj (hinj : ∀ x y, type x = type y → data x = data y → x = y)
    {x y : α} {r s : ByteString}
    (hx : (data x).length ≤ kMaxExtensionsLength ∧ type x ≤ kMaxV2ExtensionType)
    (hy : (data y).length ≤ kMaxExtensionsLength ∧ type y ≤ kMaxV2ExtensionType)
    (h : writeUint (type x) 2 ++ writeVarBytes (data x) kMaxExtensionsLength ++ r =
      writeUint (type y) 2 ++ writeVarBytes (data y) kMaxExtensionsLength ++ s) :
    x = y ∧ r = s := by
  rw [List.append_assoc, List.append_assoc] at h
  obtain ⟨htype, h⟩ := Codec.encodeBE_append_inj
    (Nat.lt_of_le_of_lt hx.2 (by decide)) (Nat.lt_of_le_of_lt hy.2 (by decide)) h
  obtain ⟨hdata, hrs⟩ :=
    writeVarBytes_append_inj lt_pow_prefixLength_kMaxExtensionsLength hx.1 hy.1 h
  exact ⟨hinj x y htype hdata, hrs⟩

theorem typedExtensions_inj (hinj : ∀ x y, type x = type y → data x = data y → x = y)
    {xs ys : List α}
    (hxs : xs.length ≤ kMaxV2ExtensionsCount ∧
      ∀ x ∈ xs, (data x).length ≤ kMaxExtensionsLength ∧ type x ≤ kMaxV2ExtensionType)
    (hys : ys.length ≤ kMaxV2ExtensionsCount ∧
      ∀ y ∈ ys, (data y).length ≤ kMaxExtensionsLength ∧ type y ≤ kMaxV2ExtensionType)
    (h : writeUint xs.length 2 ++
        (xs.flatMap fun e => writeUint (type e) 2 ++ writeVarBytes (data e) kMaxExtensionsLength) =
      writeUint ys.length 2 ++
        (ys.flatMap fun e => writeUint (type e) 2 ++ writeVarBytes (data e) kMaxExtensionsLength)) :
    xs = ys := by
  obtain ⟨hlen, h⟩ := Codec.encodeBE_append_inj
    (Nat.lt_of_le_of_lt hxs.1 (by decide)) (Nat.lt_of_le_of_lt hys.1 (by decide)) h
  refine (Codec.flatMap_append_inj (fun x y _ _ hx hy => typedExtension_append_inj hinj hx hy)
    hlen hxs.2 hys.2 (r := []) (s := []) ?_).1
  rw [List.append_nil, List.append_nil, h]

end Extensions

theorem writeSctExtension_inj {xs ys : List SctExtension}
    (hxs : checkSctExtensionsFormat xs = .ok) (hys : checkSctExtensionsFormat ys = .ok)
    (h : writeSctExtension xs = writeSctExtension ys) : xs = ys := by
  have hinj : ∀ x y : SctExtension, x.sctExtensionType.toNat = y.sctExtensionType.toNat →
      x.sctExtensionData = y.sctExtensionData → x = y := by
    rintro ⟨xt, xd⟩ ⟨yt, yd⟩ htype hdata
    cases UInt32.toNat_inj.mp htype
    cases hdata
    rfl
  exact typedExtensions_inj hinj (checkSctExtensionsFormat_fits hxs)
    (checkSctExtensionsFormat_fits hys) h

theorem checkSthExtensionsFrom_fits {lastTypeSeen : Nat} {extension : List SthExtension}
    (h : checkSthExtensionsFrom lastTypeSeen extension = .ok) :
    ∀ e ∈ extension, e.sthExtensionData.length ≤ kMaxExtensionsLength ∧
      e.sthExtensionType.toNat ≤ kMaxV2ExtensionType := by
  induction extension generalizing lastTypeSeen with
  | nil => simp
  | cons e rest ih =>
      simp only [checkSthExtensionsFrom] at h
      split at h
      · cases h
      split at h
      · cases h
      split at h
      · cases h
      rename_i htype hdata _
      intro x hx
      rcases List.mem_cons.mp hx with rfl | hx
      · exact ⟨Nat.le_of_not_gt hdata, Nat.le_of_not_gt htype⟩
      · exact ih h x hx

theorem checkSthExtensionsFormat_fits {extension : List SthExtension}
    (h : checkSthExtensionsFormat extension = .ok) :
    extension.length ≤ kMaxV2ExtensionsCount ∧
      ∀ e ∈ extension, e.sthExtensionData.length ≤ kMaxExtensionsLength ∧
        e.sthExtensionType.toNat ≤ kMaxV2ExtensionType := by
  unfold checkSthExtensionsFormat at h
  split at h
  · cases h
  · exact ⟨Nat.le_of_not_gt (by assumption), checkSthExtensionsFrom_fits h⟩

structure SignedSCTFields where
  version : Version
  timestamp : UInt64
  entryType : LogEntryType
  certificate : ByteString := []
  issuerKeyHash : ByteString := []
  tbsCertificate : ByteString := []
  extensions : ByteString := []
  sctExtension : List SctExtension := []
deriving DecidableEq, Repr

def SerializerConfig.signedFields (config : SerializerConfig) (sct : SignedCertificateTimestamp)
    (entry : LogEntry) : SignedSCTFields :=
  let fields : SignedSCTFields :=
    { version := sct.version, timestamp := sct.timestamp, entryType := entry.type }
  match config, entry.type with
  | .v1CT, .x509Entry =>
      { fields with certificate := entry.x509Entry.leafCertificate, extensions := sct.extensions }
  | .v1CT, .precertEntry =>
      { fields with issuerKeyHash := entry.precertEntry.preCert.issuerKeyHash,
                    tbsCertificate := entry.precertEntry.preCert.tbsCertificate,
                    extensions := sct.extensions }
  | .v2CT, .x509Entry =>
      { fields with issuerKeyHash := entry.x509Entry.certInfo.issuerKeyHash,
                    tbsCertificate := entry.x509Entry.certInfo.tbsCertificate,
                    sctExtension := sct.sctExtension }
  | .v2CT, .precertEntryV2 =>
      { fields with issuerKeyHash := entry.precertEntry.certInfo.issuerKeyHash,
                    tbsCertificate := entry.precertEntry.certInfo.tbsCertificate,
                    sctExtension := sct.sctExtension }
  | _, _ => fields

def sctInputHead (version : Version) (timestamp : UInt64) (entryType : LogEntryType) : ByteString :=
  writeUint version.toNat kVersionLengthInBytes ++
    writeUint SignatureType.certificateTimestamp.toNat kSignatureTypeLengthInBytes ++
    writeUint timestamp.toNat kTimestampLengthInBytes ++
    writeUint entryType.toNat kLogEntryTypeLengthInBytes

theorem sctInputHead_append_inj {version : Version} {t₁ t₂ : UInt64} {e₁ e₂ : LogEntryType}
    {r s : ByteString} (he₁ : e₁.toNat < 256 ^ kLogEntryTypeLengthInBytes)
    (he₂ : e₂.toNat < 256 ^ kLogEntryTypeLengthInBytes)
    (h : sctInputHead version t₁ e₁ ++ r = sctInputHead version t₂ e₂ ++ s) :
    t₁ = t₂ ∧ e₁ = e₂ ∧ r = s := by
  simp only [sctInputHead, List.append_assoc, List.append_cancel_left_eq] at h
  obtain ⟨ht, h⟩ := Codec.encodeBE_append_inj (timestamp_lt t₁) (timestamp_lt t₂) h
  obtain ⟨he, hrs⟩ := Codec.encodeBE_append_inj he₁ he₂ h
  exact ⟨UInt64.toNat_inj.mp ht, LogEntryType.toNat_injective he, hrs⟩

theorem serializeV1CertSCTSignatureInput_eq_ok_iff (timestamp : UInt64)
    (certificate extensions b : ByteString) :
    serializeV1CertSCTSignatureInput timestamp certificate extensions = .ok b ↔
      checkCertificateFormat certificate = .ok ∧ checkExtensionsFormat extensions = .ok ∧
        b = sctInputHead .v1 timestamp .x509Entry ++
          (writeVarBytes certificate kMaxCertificateLength ++
            writeVarBytes extensions kMaxExtensionsLength) := by
  rw [serializeV1CertSCTSignatureInput]
  simp only [SerializeResult.check_bind_eq_ok, sctInputHead, List.append_assoc]
  constructor
  · rintro ⟨h1, h2, hb⟩
    exact ⟨h1, h2, (Except.ok.inj hb).symm⟩
  · rintro ⟨h1, h2, rfl⟩
    exact ⟨h1, h2, rfl⟩

theorem serializeV1PrecertSCTSignatureInput_eq_ok_iff (timestamp : UInt64)
    (issuerKeyHash tbsCertificate extensions b : ByteString) :
    serializeV1PrecertSCTSignatureInput timestamp issuerKeyHash tbsCertificate extensions = .ok b ↔
      checkCertificateFormat tbsCertificate = .ok ∧ checkKeyHashFormat issuerKeyHash = .ok ∧
        checkExtensionsFormat extensions = .ok ∧
        b = sctInputHead .v1 timestamp .precertEntry ++
          (writeFixedBytes issuerKeyHash ++
            (writeVarBytes tbsCertificate kMaxCertificateLength ++
              writeVarBytes extensions kMaxExtensionsLength)) := by
  rw [serializeV1PrecertSCTSignatureInput]
  simp only [SerializeResult.check_bind_eq_ok, sctInputHead, List.append_assoc]
  constructor
  · rintro ⟨h1, h2, h3, hb⟩
    exact ⟨h1, h2, h3, (Except.ok.inj hb).symm⟩
  · rintro ⟨h1, h2, h3, rfl⟩
    exact ⟨h1, h2, h3, rfl⟩

theorem serializeV2SCTSignatureInput_body_eq_ok_iff (timestamp : UInt64) (entryType : LogEntryType)
    (issuerKeyHash tbsCertificate : ByteString) (sctExtension : List SctExtension) (b : ByteString) :
    (do (checkCertificateFormat tbsCertificate).check
        (checkSctExtensionsFormat sctExtension).check
        return writeUint Version.v2.toNat kVersionLengthInBytes ++
          writeUint SignatureType.certificateTimestamp.toNat kSignatureTypeLengthInBytes ++
          writeUint timestamp.toNat kTimestampLengthInBytes ++
          writeUint entryType.toNat kLogEntryTypeLengthInBytes ++
          writeFixedBytes issuerKeyHash ++
          writeVarBytes tbsCertificate kMaxCertificateLength ++
          writeSctExtension sctExtension : Except SerializeResult ByteString) = .ok b ↔
      checkCertificateFormat tbsCertificate = .ok ∧ checkSctExtensionsFormat sctExtension = .ok ∧
        b = sctInputHead .v2 timestamp entryType ++
          (writeFixedBytes issuerKeyHash ++
            (writeVarBytes tbsCertificate kMaxCertificateLength ++ writeSctExtension sctExtension)) := by
  simp only [SerializeResult.check_bind_eq_ok, sctInputHead, List.append_assoc]
  constructor
  · rintro ⟨h1, h2, hb⟩
    exact ⟨h1, h2, (Except.ok.inj hb).symm⟩
  · rintro ⟨h1, h2, rfl⟩
    exact ⟨h1, h2, rfl⟩

theorem serializeV1SCTSignatureInput_eq_ok {sct : SignedCertificateTimestamp} {entry : LogEntry}
    {b : ByteString} (h : serializeV1SCTSignatureInput sct entry = .ok b) :
    sct.version = .v1 ∧ checkExtensionsFormat sct.extensions = .ok ∧
      (entry.type = .x509Entry ∧ checkCertificateFormat entry.x509Entry.leafCertificate = .ok ∧
          b = sctInputHead .v1 sct.timestamp .x509Entry ++
            (writeVarBytes entry.x509Entry.leafCertificate kMaxCertificateLength ++
              writeVarBytes sct.extensions kMaxExtensionsLength) ∨
        entry.type = .precertEntry ∧
          checkCertificateFormat entry.precertEntry.preCert.tbsCertificate = .ok ∧
          checkKeyHashFormat entry.precertEntry.preCert.issuerKeyHash = .ok ∧
          b = sctInputHead .v1 sct.timestamp .precertEntry ++
            (writeFixedBytes entry.precertEntry.preCert.issuerKeyHash ++
              (writeVarBytes entry.precertEntry.preCert.tbsCertificate kMaxCertificateLength ++
                writeVarBytes sct.extensions kMaxExtensionsLength))) := by
  unfold serializeV1SCTSignatureInput at h
  split at h
  · cases h
  rename_i hv
  rw [not_not] at hv
  split at h
  · rename_i htype
    obtain ⟨hcert, hext, rfl⟩ := (serializeV1CertSCTSignatureInput_eq_ok_iff _ _ _ _).mp h
    exact ⟨hv, hext, .inl ⟨htype, hcert, rfl⟩⟩
  · rename_i htype
    obtain ⟨htbs, hkey, hext, rfl⟩ := (serializeV1PrecertSCTSignatureInput_eq_ok_iff _ _ _ _ _).mp h
    exact ⟨hv, hext, .inr ⟨htype, htbs, hkey, rfl⟩⟩
  · cases h

theorem serializeV2SCTSignatureInput_eq_ok {sct : SignedCertificateTimestamp} {entry : LogEntry}
    {b : ByteString} (h : serializeV2SCTSignatureInput sct entry = .ok b) :
    sct.version = .v2 ∧ checkSctExtensionsFormat sct.sctExtension = .ok ∧
      ∃ certInfo : CertInfo,
        (entry.type = .x509Entry ∧ certInfo = entry.x509Entry.certInfo ∨
          entry.type = .precertEntryV2 ∧ certInfo = entry.precertEntry.certInfo) ∧
        checkCertificateFormat certInfo.tbsCertificate = .ok ∧
        b = sctInputHead .v2 sct.timestamp entry.type ++
          (writeFixedBytes certInfo.issuerKeyHash ++
            (writeVarBytes certInfo.tbsCertificate kMaxCertificateLength ++
              writeSctExtension sct.sctExtension)) := by
  unfold serializeV2SCTSignatureInput at h
  split at h
  · cases h
  rename_i hv
  rw [not_not] at hv
  split at h
  · rename_i htype
    obtain ⟨htbs, hext, rfl⟩ := (serializeV2SCTSignatureInput_body_eq_ok_iff _ _ _ _ _ _).mp h
    exact ⟨hv, hext, _, .inl ⟨htype, rfl⟩, htbs, by rw [htype]⟩
  · rename_i htype
    obtain ⟨htbs, hext, rfl⟩ := (serializeV2SCTSignatureInput_body_eq_ok_iff _ _ _ _ _ _).mp h
    exact ⟨hv, hext, _, .inr ⟨htype, rfl⟩, htbs, by rw [htype]⟩
  · cases h

/-- Under `ConfigureSerializerForV1CT` equal signature inputs come from SCTs
and entries with the same signed fields. -/
theorem serializeSCTSignatureInput_v1CT_injective {sct₁ sct₂ : SignedCertificateTimestamp}
    {entry₁ entry₂ : LogEntry} {b : ByteString}
    (h₁ : Serializer.serializeSCTSignatureInput .v1CT sct₁ entry₁ = .ok b)
    (h₂ : Serializer.serializeSCTSignatureInput .v1CT sct₂ entry₂ = .ok b) :
    SerializerConfig.v1CT.signedFields sct₁ entry₁ = SerializerConfig.v1CT.signedFields sct₂ entry₂ := by
  obtain ⟨hv₁, hext₁, hb₁⟩ := serializeV1SCTSignatureInput_eq_ok h₁
  obtain ⟨hv₂, hext₂, hb₂⟩ := serializeV1SCTSignatureInput_eq_ok h₂
  have hlen₁ := (checkExtensionsFormat_eq_ok_iff _).mp hext₁
  have hlen₂ := (checkExtensionsFormat_eq_ok_iff _).mp hext₂
  rcases hb₁ with ⟨ht₁, hc₁, rfl⟩ | ⟨ht₁, hc₁, hk₁, rfl⟩ <;>
    rcases hb₂ with ⟨ht₂, hc₂, hb⟩ | ⟨ht₂, hc₂, hk₂, hb⟩
  case inl.inl =>
    obtain ⟨hts, -, hb⟩ := sctInputHead_append_inj (by decide) (by decide) hb
    obtain ⟨hcert, hb⟩ := writeVarBytes_append_inj lt_pow_prefixLength_kMaxCertificateLength
      ((checkCertificateFormat_eq_ok_iff _).mp hc₁).2 ((checkCertificateFormat_eq_ok_iff _).mp hc₂).2 hb
    have hext := writeVarBytes_inj lt_pow_prefixLength_kMaxExtensionsLength hlen₁ hlen₂ hb
    simp only [SerializerConfig.signedFields, ht₁, ht₂, hv₁, hv₂, hts, hcert, hext]
  case inr.inr =>
    obtain ⟨hts, -, hb⟩ := sctInputHead_append_inj (by decide) (by decide) hb
    rw [writeFixedBytes, writeFixedBytes] at hb
    obtain ⟨hkey, hb⟩ := List.append_inj hb (by
      rw [(checkKeyHashFormat_eq_ok_iff _).mp hk₁, (checkKeyHashFormat_eq_ok_iff _).mp hk₂])
    obtain ⟨htbs, hb⟩ := writeVarBytes_append_inj lt_pow_prefixLength_kMaxCertificateLength
      ((checkCertificateFormat_eq_ok_iff _).mp hc₁).2 ((checkCertificateFormat_eq_ok_iff _).mp hc₂).2 hb
    have hext := writeVarBytes_inj lt_pow_prefixLength_kMaxExtensionsLength hlen₁ hlen₂ hb
    simp only [SerializerConfig.signedFields, ht₁, ht₂, hv₁, hv₂, hts, hkey, htbs, hext]
  all_goals exact absurd (sctInputHead_append_inj (by decide) (by decide) hb).2.1 (by decide)

/-- The key id is not signed: two SCTs that differ only there have one input. -/
theorem serializeSCTSignatureInput_v1CT_injective_keyId :
    ∃ b, Serializer.serializeSCTSignatureInput .v1CT { version := .v1, keyId := [1] }
        { type := .x509Entry, x509Entry := { leafCertificate := [7] } } = .ok b ∧
      Serializer.serializeSCTSignatureInput .v1CT { version := .v1, keyId := [2] }
        { type := .x509Entry, x509Entry := { leafCertificate := [7] } } = .ok b ∧
      SerializerConfig.v1CT.signedFields { version := .v1, keyId := [1] }
          { type := .x509Entry, x509Entry := { leafCertificate := [7] } } =
        SerializerConfig.v1CT.signedFields { version := .v1, keyId := [2] }
          { type := .x509Entry, x509Entry := { leafCertificate := [7] } } :=
  ⟨_, rfl, rfl, serializeSCTSignatureInput_v1CT_injective rfl rfl⟩

theorem signedFields_v2CT {sct : SignedCertificateTimestamp} {entry : LogEntry} {certInfo : CertInfo}
    (h : entry.type = .x509Entry ∧ certInfo = entry.x509Entry.certInfo ∨
      entry.type = .precertEntryV2 ∧ certInfo = entry.precertEntry.certInfo) :
    SerializerConfig.v2CT.signedFields sct entry =
      { version := sct.version, timestamp := sct.timestamp, entryType := entry.type,
        issuerKeyHash := certInfo.issuerKeyHash, tbsCertificate := certInfo.tbsCertificate,
        sctExtension := sct.sctExtension } := by
  rcases h with ⟨htype, rfl⟩ | ⟨htype, rfl⟩ <;> simp only [SerializerConfig.signedFields, htype]

theorem toNat_lt_of_v2_type {entry : LogEntry} {certInfo : CertInfo}
    (h : entry.type = .x509Entry ∧ certInfo = entry.x509Entry.certInfo ∨
      entry.type = .precertEntryV2 ∧ certInfo = entry.precertEntry.certInfo) :
    entry.type.toNat < 256 ^ kLogEntryTypeLengthInBytes := by
  rcases h with ⟨htype, -⟩ | ⟨htype, -⟩ <;> rw [htype] <;> decide

/-- Under `ConfigureSerializerForV2CT` equal signature inputs come from the
same signed fields where both issuer key hashes have the length of a SHA-256
hash, which neither V2 serializer checks. -/
theorem serializeSCTSignatureInput_v2CT_injective_of_keyHash
    {sct₁ sct₂ : SignedCertificateTimestamp} {entry₁ entry₂ : LogEntry} {b : ByteString}
    (h₁ : Serializer.serializeSCTSignatureInput .v2CT sct₁ entry₁ = .ok b)
    (h₂ : Serializer.serializeSCTSignatureInput .v2CT sct₂ entry₂ = .ok b)
    (hk₁ : (SerializerConfig.v2CT.signedFields sct₁ entry₁).issuerKeyHash.length =
      kKeyHashLengthInBytes)
    (hk₂ : (SerializerConfig.v2CT.signedFields sct₂ entry₂).issuerKeyHash.length =
      kKeyHashLengthInBytes) :
    SerializerConfig.v2CT.signedFields sct₁ entry₁ = SerializerConfig.v2CT.signedFields sct₂ entry₂ := by
  obtain ⟨hv₁, hext₁, certInfo₁, hc₁, htbs₁, rfl⟩ := serializeV2SCTSignatureInput_eq_ok h₁
  obtain ⟨hv₂, hext₂, certInfo₂, hc₂, htbs₂, hb⟩ := serializeV2SCTSignatureInput_eq_ok h₂
  rw [signedFields_v2CT hc₁] at hk₁ ⊢
  rw [signedFields_v2CT hc₂] at hk₂ ⊢
  obtain ⟨hts, htype, hb⟩ := sctInputHead_append_inj (toNat_lt_of_v2_type hc₁) (toNat_lt_of_v2_type hc₂) hb
  rw [writeFixedBytes, writeFixedBytes] at hb
  obtain ⟨hkey, hb⟩ := List.append_inj hb (hk₁.trans hk₂.symm)
  obtain ⟨htbs, hb⟩ := writeVarBytes_append_inj lt_pow_prefixLength_kMaxCertificateLength
    ((checkCertificateFormat_eq_ok_iff _).mp htbs₁).2 ((checkCertificateFormat_eq_ok_iff _).mp htbs₂).2 hb
  have hext := writeSctExtension_inj hext₁ hext₂ hb
  rw [hv₁, hv₂, hts, htype, hkey, htbs, hext]

theorem serializeSCTSignatureInput_v2CT_injective_of_keyHash_keyId :
    ∃ b, Serializer.serializeSCTSignatureInput .v2CT { version := .v2, keyId := [1] }
        { type := .x509Entry,
          x509Entry := { certInfo := { issuerKeyHash := List.replicate 32 0, tbsCertificate := [7] } } } =
          .ok b ∧
      Serializer.serializeSCTSignatureInput .v2CT { version := .v2, keyId := [2] }
        { type := .x509Entry,
          x509Entry := { certInfo := { issuerKeyHash := List.replicate 32 0, tbsCertificate := [7] } } } =
          .ok b ∧
      SerializerConfig.v2CT.signedFields { version := .v2, keyId := [1] }
          { type := .x509Entry,
            x509Entry := { certInfo := { issuerKeyHash := List.replicate 32 0, tbsCertificate := [7] } } } =
        SerializerConfig.v2CT.signedFields { version := .v2, keyId := [2] }
          { type := .x509Entry,
            x509Entry := { certInfo := { issuerKeyHash := List.replicate 32 0, tbsCertificate := [7] } } } :=
  ⟨_, rfl, rfl, serializeSCTSignatureInput_v2CT_injective_of_keyHash rfl rfl (by decide) (by decide)⟩

theorem serializeSCTSignatureInput_v2_collision :
    ∃ (sct : SignedCertificateTimestamp) (entry₁ entry₂ : LogEntry) (b : ByteString),
      Serializer.serializeSCTSignatureInput .v2CT sct entry₁ = .ok b ∧
      Serializer.serializeSCTSignatureInput .v2CT sct entry₂ = .ok b ∧
      SerializerConfig.v2CT.signedFields sct entry₁ ≠ SerializerConfig.v2CT.signedFields sct entry₂ :=
  ⟨{ version := .v2 },
    { type := .x509Entry, x509Entry := { certInfo := { tbsCertificate := [0, 0, 1, 1] } } },
    { type := .x509Entry,
      x509Entry := { certInfo := { issuerKeyHash := [0, 0, 4], tbsCertificate := [1] } } },
    [1, 0, 0, 0, 0, 0, 0, 0, 0, 0, 0, 0, 0, 0, 4, 0, 0, 1, 1, 0, 0], rfl, rfl, by decide⟩

def SerializerConfig.signedTreeHeadFields :
    SerializerConfig → Proto.SignedTreeHead → Proto.SignedTreeHead
  | .v1CT, sth => { sth with keyId := [], sthExtension := [] }
  | .v2CT, sth => sth

def sthInputHead (version : Version) : ByteString :=
  writeUint version.toNat kVersionLengthInBytes ++
    writeUint SignatureType.treeHead.toNat kSignatureTypeLengthInBytes

theorem treeSize_lt (treeSize : Int64) : treeSize.toInt.toNat < 256 ^ 8 := by
  have h := Int64.toInt_lt treeSize
  have hpow : (256 : Int) ^ 8 = 2 ^ 63 * 2 := by norm_num
  omega

theorem treeSize_append_inj {t₁ t₂ : Int64} {r s : ByteString} (h₁ : 0 ≤ t₁.toInt)
    (h₂ : 0 ≤ t₂.toInt) (h : writeUint t₁.toInt.toNat 8 ++ r = writeUint t₂.toInt.toNat 8 ++ s) :
    t₁ = t₂ ∧ r = s := by
  obtain ⟨ht, hrs⟩ := Codec.encodeBE_append_inj (treeSize_lt t₁) (treeSize_lt t₂) h
  exact ⟨Int64.toInt_inj.mp (by omega), hrs⟩

theorem serializeV1STHSignatureInput_eq_ok_iff (timestamp : UInt64) (treeSize : Int64)
    (rootHash b : ByteString) :
    serializeV1STHSignatureInput timestamp treeSize rootHash = .ok (.ok b) ↔
      0 ≤ treeSize.toInt ∧ rootHash.length = 32 ∧
        b = sthInputHead .v1 ++
          (writeUint timestamp.toNat kTimestampLengthInBytes ++
            (writeUint treeSize.toInt.toNat 8 ++ writeFixedBytes rootHash)) := by
  unfold serializeV1STHSignatureInput
  split
  · rename_i hneg
    exact iff_of_false (by rintro ⟨⟩) fun h => absurd h.1 (Int.not_le.mpr hneg)
  rename_i hnonneg
  rw [Except.ok.injEq, Codec.ite_eq_ok_iff_of_ne_ok (by rintro _ ⟨⟩), not_not]
  simp only [sthInputHead, List.append_assoc]
  constructor
  · rintro ⟨hroot, hb⟩
    exact ⟨Int.not_lt.mp hnonneg, hroot, (Except.ok.inj hb).symm⟩
  · rintro ⟨-, hroot, rfl⟩
    exact ⟨hroot, rfl⟩

theorem serializeV2STHSignatureInput_eq_ok_iff (timestamp : UInt64) (treeSize : Int64)
    (rootHash : ByteString) (sthExtension : List SthExtension) (logId b : ByteString) :
    serializeV2STHSignatureInput timestamp treeSize rootHash sthExtension logId = .ok (.ok b) ↔
      0 ≤ treeSize.toInt ∧ rootHash.length = 32 ∧ checkSthExtensionsFormat sthExtension = .ok ∧
        logId.length = kKeyIDLengthInBytes ∧
        b = sthInputHead .v2 ++
          (writeFixedBytes logId ++
            (writeUint timestamp.toNat kTimestampLengthInBytes ++
              (writeUint treeSize.toInt.toNat 8 ++
                (writeFixedBytes rootHash ++
                  (writeUint sthExtension.length 2 ++
                    sthExtension.flatMap fun e => writeUint e.sthExtensionType.toNat 2 ++
                      writeVarBytes e.sthExtensionData kMaxExtensionsLength))))) := by
  unfold serializeV2STHSignatureInput
  split
  · rename_i hneg
    exact iff_of_false (by rintro ⟨⟩) fun h => absurd h.1 (Int.not_le.mpr hneg)
  rename_i hnonneg
  rw [Except.ok.injEq, Codec.ite_eq_ok_iff_of_ne_ok (by rintro _ ⟨⟩), not_not,
    SerializeResult.check_bind_eq_ok, Codec.ite_eq_ok_iff_of_ne_ok (by rintro _ ⟨⟩), not_not]
  simp only [sthInputHead, List.append_assoc]
  constructor
  · rintro ⟨hroot, hext, hid, hb⟩
    exact ⟨Int.not_lt.mp hnonneg, hroot, hext, hid, (Except.ok.inj hb).symm⟩
  · rintro ⟨-, hroot, hext, hid, rfl⟩
    exact ⟨hroot, hext, hid, rfl⟩

theorem serializeSTHSignatureInput_eq_ok {config : SerializerConfig} {sth : Proto.SignedTreeHead}
    {b : ByteString} (h : Serializer.serializeSTHSignatureInput config sth = .ok (.ok b)) :
    config = .v1CT ∧ sth.version = .v1 ∧
        serializeV1STHSignatureInput sth.timestamp sth.treeSize sth.sha256RootHash = .ok (.ok b) ∨
      config = .v2CT ∧ sth.version = .v2 ∧
        serializeV2STHSignatureInput sth.timestamp sth.treeSize sth.sha256RootHash sth.sthExtension
          sth.keyId = .ok (.ok b) := by
  unfold Serializer.serializeSTHSignatureInput at h
  split at h
  case h_1 hv => exact .inl ⟨rfl, hv, h⟩
  case h_3 hv => exact .inr ⟨rfl, hv, h⟩
  all_goals cases h

theorem writeSthExtensions_inj {xs ys : List SthExtension}
    (hxs : checkSthExtensionsFormat xs = .ok) (hys : checkSthExtensionsFormat ys = .ok)
    (h : writeUint xs.length 2 ++ (xs.flatMap fun e => writeUint e.sthExtensionType.toNat 2 ++
        writeVarBytes e.sthExtensionData kMaxExtensionsLength) =
      writeUint ys.length 2 ++ (ys.flatMap fun e => writeUint e.sthExtensionType.toNat 2 ++
        writeVarBytes e.sthExtensionData kMaxExtensionsLength)) : xs = ys := by
  have hinj : ∀ x y : SthExtension, x.sthExtensionType.toNat = y.sthExtensionType.toNat →
      x.sthExtensionData = y.sthExtensionData → x = y := by
    rintro ⟨xt, xd⟩ ⟨yt, yd⟩ htype hdata
    cases UInt32.toNat_inj.mp htype
    cases hdata
    rfl
  exact typedExtensions_inj hinj (checkSthExtensionsFormat_fits hxs)
    (checkSthExtensionsFormat_fits hys) h

/-- Under either configuration equal tree-head signature inputs come from tree
heads with the same signed fields. -/
theorem serializeSTHSignatureInput_injective {config : SerializerConfig}
    {sth₁ sth₂ : Proto.SignedTreeHead} {b : ByteString}
    (h₁ : Serializer.serializeSTHSignatureInput config sth₁ = .ok (.ok b))
    (h₂ : Serializer.serializeSTHSignatureInput config sth₂ = .ok (.ok b)) :
    config.signedTreeHeadFields sth₁ = config.signedTreeHeadFields sth₂ := by
  rcases serializeSTHSignatureInput_eq_ok h₁ with ⟨rfl, hv₁, h₁⟩ | ⟨rfl, hv₁, h₁⟩ <;>
    rcases serializeSTHSignatureInput_eq_ok h₂ with ⟨hc, hv₂, h₂⟩ | ⟨hc, hv₂, h₂⟩
  case inl.inl =>
    obtain ⟨hs₁, -, rfl⟩ := (serializeV1STHSignatureInput_eq_ok_iff _ _ _ _).mp h₁
    obtain ⟨hs₂, -, hb⟩ := (serializeV1STHSignatureInput_eq_ok_iff _ _ _ _).mp h₂
    simp only [List.append_cancel_left_eq, writeFixedBytes] at hb
    obtain ⟨hts, hb⟩ := Codec.encodeBE_append_inj (timestamp_lt _) (timestamp_lt _) hb
    obtain ⟨hsize, hroot⟩ := treeSize_append_inj hs₁ hs₂ hb
    simp only [SerializerConfig.signedTreeHeadFields, hv₁, hv₂, UInt64.toNat_inj.mp hts, hsize,
      hroot]
  case inr.inr =>
    obtain ⟨hs₁, hr₁, hext₁, hk₁, rfl⟩ := (serializeV2STHSignatureInput_eq_ok_iff _ _ _ _ _ _).mp h₁
    obtain ⟨hs₂, hr₂, hext₂, hk₂, hb⟩ := (serializeV2STHSignatureInput_eq_ok_iff _ _ _ _ _ _).mp h₂
    simp only [List.append_cancel_left_eq, writeFixedBytes] at hb
    obtain ⟨hkey, hb⟩ := List.append_inj hb (hk₁.trans hk₂.symm)
    obtain ⟨hts, hb⟩ := Codec.encodeBE_append_inj (timestamp_lt _) (timestamp_lt _) hb
    obtain ⟨hsize, hb⟩ := treeSize_append_inj hs₁ hs₂ hb
    obtain ⟨hroot, hb⟩ := List.append_inj hb (hr₁.trans hr₂.symm)
    exact Proto.SignedTreeHead.ext (hv₁.trans hv₂.symm) hkey (UInt64.toNat_inj.mp hts) hsize hroot
      (writeSthExtensions_inj hext₁ hext₂ hb)
  all_goals cases hc

theorem serializeSTHSignatureInput_injective_keyId :
    ∃ b, Serializer.serializeSTHSignatureInput .v1CT
        { version := .v1, keyId := [1], sha256RootHash := List.replicate 32 0 } = .ok (.ok b) ∧
      Serializer.serializeSTHSignatureInput .v1CT
        { version := .v1, keyId := [2], sha256RootHash := List.replicate 32 0 } = .ok (.ok b) ∧
      SerializerConfig.v1CT.signedTreeHeadFields
          { version := .v1, keyId := [1], sha256RootHash := List.replicate 32 0 } =
        SerializerConfig.v1CT.signedTreeHeadFields
          { version := .v1, keyId := [2], sha256RootHash := List.replicate 32 0 } :=
  ⟨_, rfl, rfl, serializeSTHSignatureInput_injective rfl rfl⟩

theorem sctInputHead_append_ne_sthInputHead_append {v v' : Version} {t : UInt64}
    {e : LogEntryType} {r s : ByteString} (hv : v.toNat < 256 ^ kVersionLengthInBytes)
    (hv' : v'.toNat < 256 ^ kVersionLengthInBytes) : sctInputHead v t e ++ r ≠ sthInputHead v' ++ s := by
  intro h
  simp only [sctInputHead, sthInputHead, List.append_assoc] at h
  obtain ⟨-, h⟩ := Codec.encodeBE_append_inj hv hv' h
  exact absurd (Codec.encodeBE_append_inj (by decide) (by decide) h).1 (by decide)

theorem serializeSCTSignatureInput_eq_ok_head {config : SerializerConfig}
    {sct : SignedCertificateTimestamp} {entry : LogEntry} {b : ByteString}
    (h : Serializer.serializeSCTSignatureInput config sct entry = .ok b) :
    sct.version.toNat < 256 ^ kVersionLengthInBytes ∧
      ∃ body, b = sctInputHead sct.version sct.timestamp entry.type ++ body := by
  cases config
  case v1CT =>
    obtain ⟨hv, -, ⟨htype, -, rfl⟩ | ⟨htype, -, -, rfl⟩⟩ := serializeV1SCTSignatureInput_eq_ok h <;>
      exact ⟨by rw [hv]; decide, _, by rw [hv, htype]⟩
  case v2CT =>
    obtain ⟨hv, -, -, -, -, rfl⟩ := serializeV2SCTSignatureInput_eq_ok h
    exact ⟨by rw [hv]; decide, _, by rw [hv]⟩

theorem serializeSTHSignatureInput_eq_ok_head {config : SerializerConfig}
    {sth : Proto.SignedTreeHead} {b : ByteString}
    (h : Serializer.serializeSTHSignatureInput config sth = .ok (.ok b)) :
    sth.version.toNat < 256 ^ kVersionLengthInBytes ∧ ∃ body, b = sthInputHead sth.version ++ body := by
  rcases serializeSTHSignatureInput_eq_ok h with ⟨-, hv, h⟩ | ⟨-, hv, h⟩
  · obtain ⟨-, -, rfl⟩ := (serializeV1STHSignatureInput_eq_ok_iff _ _ _ _).mp h
    exact ⟨by rw [hv]; decide, _, by rw [hv]⟩
  · obtain ⟨-, -, -, -, rfl⟩ := (serializeV2STHSignatureInput_eq_ok_iff _ _ _ _ _ _).mp h
    exact ⟨by rw [hv]; decide, _, by rw [hv]⟩

/-- No SCT signature input is a tree-head signature input, under any two
configurations: the second byte is the signature type. -/
theorem sctSignatureInput_ne_sthSignatureInput {config config' : SerializerConfig}
    {sct : SignedCertificateTimestamp} {entry : LogEntry} {sth : Proto.SignedTreeHead}
    {b b' : ByteString} (h₁ : Serializer.serializeSCTSignatureInput config sct entry = .ok b)
    (h₂ : Serializer.serializeSTHSignatureInput config' sth = .ok (.ok b')) : b ≠ b' := by
  obtain ⟨hv, body, rfl⟩ := serializeSCTSignatureInput_eq_ok_head h₁
  obtain ⟨hv', body', rfl⟩ := serializeSTHSignatureInput_eq_ok_head h₂
  exact sctInputHead_append_ne_sthInputHead_append hv hv'

theorem sctSignatureInput_ne_sthSignatureInput_v1 :
    ∃ b b', Serializer.serializeSCTSignatureInput .v1CT { version := .v1 }
        { type := .x509Entry, x509Entry := { leafCertificate := [7] } } = .ok b ∧
      Serializer.serializeSTHSignatureInput .v1CT
        { version := .v1, sha256RootHash := List.replicate 32 0 } = .ok (.ok b') ∧ b ≠ b' :=
  ⟨_, _, rfl, rfl, @sctSignatureInput_ne_sthSignatureInput .v1CT .v1CT { version := .v1 }
    { type := .x509Entry, x509Entry := { leafCertificate := [7] } }
    { version := .v1, sha256RootHash := List.replicate 32 0 } _ _ rfl rfl⟩

end CertTrans
