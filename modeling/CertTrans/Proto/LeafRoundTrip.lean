import CertTrans.Proto.CertSerializer
import CertTrans.Proto.SerializerRoundTrip

/-!
The leaf encodings of `cert_serializer.cc` against their decoders, under the
two configurations.

Under `ConfigureSerializerForV1CT` every leaf that serializes decodes to the
leaf its SCT and entry stand for (`leafOf`).  Under
`ConfigureSerializerForV2CT` that holds only for an SCT without extensions and
an issuer key hash of 32 bytes: the V2 encoders write the extensions as a
counted list and the X509 encoder writes the key hash unchecked, while the
decoder reads one opaque byte string and exactly 32 bytes, so no input decodes
to any other V2 leaf.  Both decoders end the process on a well-formed header
whose entry type they do not handle.
-/

namespace CertTrans

open Serializer TLSSerializer TLSDeserializer Deserializer

def SerializerConfig.leafOf : SerializerConfig → SignedCertificateTimestamp → LogEntry → MerkleTreeLeaf
  | .v1CT, sct, entry =>
      { version := .v1, type := .timestampedEntry,
        timestampedEntry :=
          { timestamp := sct.timestamp, entryType := entry.type,
            signedEntry := match entry.type with
              | .precertEntry => { precert := entry.precertEntry.preCert }
              | _ => { x509 := entry.x509Entry.leafCertificate },
            extensions := sct.extensions } }
  | .v2CT, sct, entry =>
      { version := .v2, type := .timestampedEntry,
        timestampedEntry :=
          { timestamp := sct.timestamp, entryType := entry.type,
            signedEntry := { certInfo := match entry.type with
              | .precertEntryV2 => entry.precertEntry.certInfo
              | _ => entry.x509Entry.certInfo },
            sctExtension := sct.sctExtension } }

theorem checkCertificateFormat_eq_ok_iff (cert : ByteString) :
    checkCertificateFormat cert = .ok ↔ cert ≠ [] ∧ cert.length ≤ kMaxCertificateLength := by
  unfold checkCertificateFormat
  split_ifs with hnil hlen
  · simp [List.isEmpty_iff.mp hnil]
  · simp only [List.isEmpty_iff] at hnil
    simp only [false_iff, not_and, Nat.not_le]
    exact fun _ => hlen
  · simp only [List.isEmpty_iff] at hnil
    exact iff_of_true rfl ⟨hnil, Nat.le_of_not_gt hlen⟩

theorem lt_pow_prefixLength_kMaxCertificateLength :
    kMaxCertificateLength < 256 ^ prefixLength kMaxCertificateLength := by decide

theorem serializeV1CertSCTMerkleTreeLeaf_eq_ok_iff (timestamp : UInt64)
    (certificate extensions b : ByteString) :
    serializeV1CertSCTMerkleTreeLeaf timestamp certificate extensions = .ok b ↔
      checkCertificateFormat certificate = .ok ∧ checkExtensionsFormat extensions = .ok ∧
        b = writeUint Version.v1.toNat kVersionLengthInBytes ++
          writeUint MerkleLeafType.timestampedEntry.toNat kMerkleLeafTypeLengthInBytes ++
          writeUint timestamp.toNat kTimestampLengthInBytes ++
          writeUint LogEntryType.x509Entry.toNat kLogEntryTypeLengthInBytes ++
          writeVarBytes certificate kMaxCertificateLength ++
          writeVarBytes extensions kMaxExtensionsLength := by
  rw [serializeV1CertSCTMerkleTreeLeaf]
  simp only [SerializeResult.check_bind_eq_ok]
  constructor
  · rintro ⟨h1, h2, hb⟩
    exact ⟨h1, h2, (Except.ok.inj hb).symm⟩
  · rintro ⟨h1, h2, rfl⟩
    exact ⟨h1, h2, rfl⟩

theorem checkKeyHashFormat_eq_ok_iff (keyHash : ByteString) :
    checkKeyHashFormat keyHash = .ok ↔ keyHash.length = kKeyHashLengthInBytes := by
  simp [checkKeyHashFormat]

theorem serializeV1PrecertSCTMerkleTreeLeaf_eq_ok_iff (timestamp : UInt64)
    (issuerKeyHash tbsCertificate extensions b : ByteString) :
    serializeV1PrecertSCTMerkleTreeLeaf timestamp issuerKeyHash tbsCertificate extensions = .ok b ↔
      checkCertificateFormat tbsCertificate = .ok ∧ checkKeyHashFormat issuerKeyHash = .ok ∧
        checkExtensionsFormat extensions = .ok ∧
        b = writeUint Version.v1.toNat kVersionLengthInBytes ++
          writeUint MerkleLeafType.timestampedEntry.toNat kMerkleLeafTypeLengthInBytes ++
          writeUint timestamp.toNat kTimestampLengthInBytes ++
          writeUint LogEntryType.precertEntry.toNat kLogEntryTypeLengthInBytes ++
          writeFixedBytes issuerKeyHash ++
          writeVarBytes tbsCertificate kMaxCertificateLength ++
          writeVarBytes extensions kMaxExtensionsLength := by
  rw [serializeV1PrecertSCTMerkleTreeLeaf]
  simp only [SerializeResult.check_bind_eq_ok]
  constructor
  · rintro ⟨h1, h2, h3, hb⟩
    exact ⟨h1, h2, h3, (Except.ok.inj hb).symm⟩
  · rintro ⟨h1, h2, h3, rfl⟩
    exact ⟨h1, h2, h3, rfl⟩

theorem deserializeMerkleTreeLeaf_of_run {config : SerializerConfig} {input : ByteString}
    {leaf : MerkleTreeLeaf}
    (h : ((readMerkleTreeLeaf config).run input).run = .ok (.ok (leaf, []))) :
    deserializeMerkleTreeLeaf config input = .ok (.ok leaf) := by
  rw [deserializeMerkleTreeLeaf, h]
  rfl

theorem deserializeMerkleTreeLeaf_of_serializeSCTMerkleTreeLeaf_v1 {sct : SignedCertificateTimestamp}
    {entry : LogEntry} {b : ByteString}
    (h : serializeSCTMerkleTreeLeaf .v1CT sct entry = .ok (.ok b)) :
    deserializeMerkleTreeLeaf .v1CT b = .ok (.ok (SerializerConfig.v1CT.leafOf sct entry)) := by
  have hv1 := Except.ok.inj h
  unfold serializeV1SCTMerkleTreeLeaf at hv1
  split at hv1
  · cases hv1
  apply deserializeMerkleTreeLeaf_of_run
  have hversion := readUint_run_append (show 0 < 256 ^ kVersionLengthInBytes by decide)
  have htype := readUint_run_append (show 0 < 256 ^ kMerkleLeafTypeLengthInBytes by decide)
  have htime := readUint_run_append (timestamp_lt sct.timestamp)
  split at hv1
  · rename_i htype_eq
    obtain ⟨hcert, hext, rfl⟩ := (serializeV1CertSCTMerkleTreeLeaf_eq_ok_iff _ _ _ _).mp hv1
    have hentry := readUint_run_append (show 0 < 256 ^ kLogEntryTypeLengthInBytes by decide)
    have hcertBytes := readVarBytes_run_append lt_pow_prefixLength_kMaxCertificateLength
      ((checkCertificateFormat_eq_ok_iff _).mp hcert).2
    have hextBytes := readVarBytes_run_append lt_pow_prefixLength_kMaxExtensionsLength
      ((checkExtensionsFormat_eq_ok_iff _).mp hext) []
    rw [List.append_nil] at hextBytes
    simp only [Version.toNat, MerkleLeafType.toNat, LogEntryType.toNat, List.append_assoc]
    simp only [readMerkleTreeLeaf, deserializeV1SCTMerkleTreeLeaf, readExtensions, StateT.run_bind,
      Version.toNat, MerkleLeafType.toNat, ne_eq, not_true_eq_false, if_false, LogEntryType.ofNat?,
      Codec.Reader.orThrow_run_of_some (hversion _), Codec.Reader.orThrow_run_of_some (htype _),
      Codec.Reader.orThrow_run_of_some (htime _), Codec.Reader.orThrow_run_of_some (hentry _),
      Codec.Reader.orThrow_run_of_some (hcertBytes _), Codec.Reader.orThrow_run_of_some hextBytes,
      pure_bind]
    simp [SerializerConfig.leafOf, htype_eq, UInt64.ofNat_toNat]
    rfl
  · rename_i htype_eq
    obtain ⟨hcert, hkey, hext, rfl⟩ := (serializeV1PrecertSCTMerkleTreeLeaf_eq_ok_iff _ _ _ _ _).mp hv1
    have hentry := readUint_run_append (show 1 < 256 ^ kLogEntryTypeLengthInBytes by decide)
    have hkeyHash := Codec.readBytes_run_append
      (show entry.precertEntry.preCert.issuerKeyHash.length = 32 from
        (checkKeyHashFormat_eq_ok_iff _).mp hkey)
    have hcertBytes := readVarBytes_run_append lt_pow_prefixLength_kMaxCertificateLength
      ((checkCertificateFormat_eq_ok_iff _).mp hcert).2
    have hextBytes := readVarBytes_run_append lt_pow_prefixLength_kMaxExtensionsLength
      ((checkExtensionsFormat_eq_ok_iff _).mp hext) []
    rw [List.append_nil] at hextBytes
    simp only [Version.toNat, MerkleLeafType.toNat, LogEntryType.toNat, writeFixedBytes,
      List.append_assoc]
    simp only [readMerkleTreeLeaf, deserializeV1SCTMerkleTreeLeaf, readExtensions, readFixedBytes,
      StateT.run_bind, Version.toNat, MerkleLeafType.toNat, ne_eq, not_true_eq_false, if_false,
      LogEntryType.ofNat?, Codec.Reader.orThrow_run_of_some (hversion _),
      Codec.Reader.orThrow_run_of_some (htype _), Codec.Reader.orThrow_run_of_some (htime _),
      Codec.Reader.orThrow_run_of_some (hentry _), Codec.Reader.orThrow_run_of_some (hkeyHash _),
      Codec.Reader.orThrow_run_of_some (hcertBytes _), Codec.Reader.orThrow_run_of_some hextBytes,
      pure_bind]
    simp [SerializerConfig.leafOf, htype_eq, UInt64.ofNat_toNat]
    rfl
  · cases hv1

theorem serializeV2CertSCTMerkleTreeLeaf_eq_ok_iff (timestamp : UInt64)
    (issuerKeyHash tbsCertificate : ByteString) (sctExtension : List SctExtension) (b : ByteString) :
    serializeV2CertSCTMerkleTreeLeaf timestamp issuerKeyHash tbsCertificate sctExtension = .ok b ↔
      checkCertificateFormat tbsCertificate = .ok ∧ checkSctExtensionsFormat sctExtension = .ok ∧
        b = writeUint Version.v2.toNat kVersionLengthInBytes ++
          writeUint MerkleLeafType.timestampedEntry.toNat kMerkleLeafTypeLengthInBytes ++
          writeUint timestamp.toNat kTimestampLengthInBytes ++
          writeUint LogEntryType.x509Entry.toNat kLogEntryTypeLengthInBytes ++
          writeFixedBytes issuerKeyHash ++
          writeVarBytes tbsCertificate kMaxCertificateLength ++
          writeSctExtension sctExtension := by
  rw [serializeV2CertSCTMerkleTreeLeaf]
  simp only [SerializeResult.check_bind_eq_ok]
  constructor
  · rintro ⟨h1, h2, hb⟩
    exact ⟨h1, h2, (Except.ok.inj hb).symm⟩
  · rintro ⟨h1, h2, rfl⟩
    exact ⟨h1, h2, rfl⟩

theorem serializeV2PrecertSCTMerkleTreeLeaf_eq_ok_iff (timestamp : UInt64)
    (issuerKeyHash tbsCertificate : ByteString) (sctExtension : List SctExtension) (b : ByteString) :
    serializeV2PrecertSCTMerkleTreeLeaf timestamp issuerKeyHash tbsCertificate sctExtension = .ok b ↔
      checkCertificateFormat tbsCertificate = .ok ∧ checkKeyHashFormat issuerKeyHash = .ok ∧
        checkSctExtensionsFormat sctExtension = .ok ∧
        b = writeUint Version.v2.toNat kVersionLengthInBytes ++
          writeUint MerkleLeafType.timestampedEntry.toNat kMerkleLeafTypeLengthInBytes ++
          writeUint timestamp.toNat kTimestampLengthInBytes ++
          writeUint LogEntryType.precertEntryV2.toNat kLogEntryTypeLengthInBytes ++
          writeFixedBytes issuerKeyHash ++
          writeVarBytes tbsCertificate kMaxCertificateLength ++
          writeSctExtension sctExtension := by
  rw [serializeV2PrecertSCTMerkleTreeLeaf]
  simp only [SerializeResult.check_bind_eq_ok]
  constructor
  · rintro ⟨h1, h2, h3, hb⟩
    exact ⟨h1, h2, h3, (Except.ok.inj hb).symm⟩
  · rintro ⟨h1, h2, h3, rfl⟩
    exact ⟨h1, h2, h3, rfl⟩

theorem writeSctExtension_nil : writeSctExtension [] = writeVarBytes [] kMaxExtensionsLength := by
  decide

theorem deserializeV2SCTMerkleTreeLeaf_run_certInfo {logEntryType : LogEntryType}
    (htype : logEntryType = .x509Entry ∨ logEntryType = .precertEntryV2) (timestamp : UInt64)
    (certInfo : CertInfo) (hkey : certInfo.issuerKeyHash.length = 32)
    (htbs : certInfo.tbsCertificate.length ≤ kMaxCertificateLength) :
    (deserializeV2SCTMerkleTreeLeaf.run
        (writeUint Version.v2.toNat kVersionLengthInBytes ++
          writeUint MerkleLeafType.timestampedEntry.toNat kMerkleLeafTypeLengthInBytes ++
          writeUint timestamp.toNat kTimestampLengthInBytes ++
          writeUint logEntryType.toNat kLogEntryTypeLengthInBytes ++
          certInfo.issuerKeyHash ++
          writeVarBytes certInfo.tbsCertificate kMaxCertificateLength ++
          writeVarBytes [] kMaxExtensionsLength)).run =
      .ok (.ok ({ version := .v2, type := .timestampedEntry,
                  timestampedEntry := { timestamp, entryType := logEntryType,
                                        signedEntry := { certInfo } } }, [])) := by
  have hversion := readUint_run_append (show 1 < 256 ^ kVersionLengthInBytes by decide)
  have hleafType := readUint_run_append (show 0 < 256 ^ kMerkleLeafTypeLengthInBytes by decide)
  have htime := readUint_run_append (timestamp_lt timestamp)
  have hentry := readUint_run_append
    (show logEntryType.toNat < 256 ^ kLogEntryTypeLengthInBytes by rcases htype with rfl | rfl <;> decide)
  have hkeyHash := Codec.readBytes_run_append hkey
  have htbsBytes := readVarBytes_run_append lt_pow_prefixLength_kMaxCertificateLength htbs
  have hextBytes := readVarBytes_run_append lt_pow_prefixLength_kMaxExtensionsLength
    (show ([] : ByteString).length ≤ kMaxExtensionsLength by decide) []
  rw [List.append_nil] at hextBytes
  simp only [Version.toNat, MerkleLeafType.toNat, List.append_assoc]
  simp only [deserializeV2SCTMerkleTreeLeaf, readExtensions, readFixedBytes, StateT.run_bind,
    Version.toNat, MerkleLeafType.toNat, ne_eq, not_true_eq_false, if_false,
    Codec.Reader.orThrow_run_of_some (hversion _), Codec.Reader.orThrow_run_of_some (hleafType _),
    Codec.Reader.orThrow_run_of_some (htime _), Codec.Reader.orThrow_run_of_some (hentry _),
    LogEntryType.ofNat?_toNat, pure_bind]
  rcases htype with rfl | rfl
  all_goals
    simp only [StateT.run_bind, Codec.Reader.orThrow_run_of_some (hkeyHash _),
      Codec.Reader.orThrow_run_of_some (htbsBytes _), Codec.Reader.orThrow_run_of_some hextBytes,
      pure_bind, UInt64.ofNat_toNat]
    rfl

/-- Under V2, an SCT with no extensions and an entry with a 32-byte issuer key
hash round-trip through the leaf encoding. -/
theorem deserializeMerkleTreeLeaf_of_serializeSCTMerkleTreeLeaf_v2 {sct : SignedCertificateTimestamp}
    {entry : LogEntry} {b : ByteString} (hext : sct.sctExtension = [])
    (hkey : (SerializerConfig.v2CT.leafOf sct entry).timestampedEntry.signedEntry.certInfo.issuerKeyHash.length = 32)
    (h : serializeSCTMerkleTreeLeaf .v2CT sct entry = .ok (.ok b)) :
    deserializeMerkleTreeLeaf .v2CT b = .ok (.ok (SerializerConfig.v2CT.leafOf sct entry)) := by
  simp only [serializeSCTMerkleTreeLeaf] at h
  unfold serializeV2SCTMerkleTreeLeaf at h
  split at h
  · cases h
  have hv2 := Except.ok.inj h
  apply deserializeMerkleTreeLeaf_of_run
  split at hv2
  · rename_i htype
    obtain ⟨hcert, -, rfl⟩ := (serializeV2CertSCTMerkleTreeLeaf_eq_ok_iff _ _ _ _ _).mp hv2
    simp only [SerializerConfig.leafOf, htype] at hkey ⊢
    rw [hext, writeSctExtension_nil, writeFixedBytes, readMerkleTreeLeaf,
      deserializeV2SCTMerkleTreeLeaf_run_certInfo (.inl rfl) _ _ hkey
        ((checkCertificateFormat_eq_ok_iff _).mp hcert).2]
  · rename_i htype
    obtain ⟨hcert, -, -, rfl⟩ := (serializeV2PrecertSCTMerkleTreeLeaf_eq_ok_iff _ _ _ _ _).mp hv2
    simp only [SerializerConfig.leafOf, htype] at hkey ⊢
    rw [hext, writeSctExtension_nil, writeFixedBytes, readMerkleTreeLeaf,
      deserializeV2SCTMerkleTreeLeaf_run_certInfo (.inr rfl) _ _ hkey
        ((checkCertificateFormat_eq_ok_iff _).mp hcert).2]
  · cases hv2

/-- A V2 leaf of an X509 entry with a 32-byte issuer key hash, and no SCT
extensions, reads back as the leaf it was written from. -/
theorem deserializeMerkleTreeLeaf_of_serializeSCTMerkleTreeLeaf_v2_x509 :
    let sct : SignedCertificateTimestamp := { version := .v2, timestamp := 7 }
    let entry : LogEntry :=
      { type := .x509Entry,
        x509Entry := { certInfo := { issuerKeyHash := List.replicate 32 0, tbsCertificate := [1] } } }
    ∃ b, serializeSCTMerkleTreeLeaf .v2CT sct entry = .ok (.ok b) ∧
      deserializeMerkleTreeLeaf .v2CT b = .ok (.ok (SerializerConfig.v2CT.leafOf sct entry)) := by
  intro sct entry
  have hw : serializeSCTMerkleTreeLeaf .v2CT sct entry = .ok (.ok _) := rfl
  exact ⟨_, hw, deserializeMerkleTreeLeaf_of_serializeSCTMerkleTreeLeaf_v2 rfl rfl hw⟩

theorem deserializeMerkleTreeLeaf_v2_sctExtension_too_long :
    let sct : SignedCertificateTimestamp := { version := .v2, sctExtension := [{}] }
    let entry : LogEntry :=
      { type := .x509Entry,
        x509Entry := { certInfo := { issuerKeyHash := List.replicate 32 0, tbsCertificate := [1] } } }
    ∃ b, serializeSCTMerkleTreeLeaf .v2CT sct entry = .ok (.ok b) ∧
      deserializeMerkleTreeLeaf .v2CT b = .ok (.error .inputTooLong) := by
  intro sct entry
  exact ⟨_, rfl, by decide +kernel⟩

def SerializerConfig.version : SerializerConfig → Version
  | .v1CT => .v1
  | .v2CT => .v2

theorem deserializeMerkleTreeLeaf_invalid_entryType (config : SerializerConfig) (timestamp : UInt64)
    {entryType : Nat} (hlt : entryType < 256 ^ kLogEntryTypeLengthInBytes)
    (hinvalid : logEntryTypeIsValid entryType = false) (rest : ByteString) :
    deserializeMerkleTreeLeaf config
        (writeUint config.version.toNat kVersionLengthInBytes ++
          writeUint MerkleLeafType.timestampedEntry.toNat kMerkleLeafTypeLengthInBytes ++
          writeUint timestamp.toNat kTimestampLengthInBytes ++
          writeUint entryType kLogEntryTypeLengthInBytes ++ rest) =
      .error "Check failed: LogEntryType_IsValid(entry_type)" := by
  have hnone : LogEntryType.ofNat? entryType = none := by
    simpa [logEntryTypeIsValid] using hinvalid
  have hversion := readUint_run_append
    (show config.version.toNat < 256 ^ kVersionLengthInBytes by cases config <;> decide)
  have hleafType := readUint_run_append (show 0 < 256 ^ kMerkleLeafTypeLengthInBytes by decide)
  have htime := readUint_run_append (timestamp_lt timestamp)
  have hentry := readUint_run_append hlt
  simp only [MerkleLeafType.toNat, List.append_assoc]
  cases config
  all_goals
    simp only [SerializerConfig.version, Version.toNat] at hversion ⊢
    simp only [deserializeMerkleTreeLeaf, readMerkleTreeLeaf, deserializeV1SCTMerkleTreeLeaf,
      deserializeV2SCTMerkleTreeLeaf, StateT.run_bind, Version.toNat, MerkleLeafType.toNat, ne_eq,
      not_true_eq_false, if_false, Codec.Reader.orThrow_run_of_some (hversion _),
      Codec.Reader.orThrow_run_of_some (hleafType _), Codec.Reader.orThrow_run_of_some (htime _),
      Codec.Reader.orThrow_run_of_some (hentry _), pure_bind, hnone]
    rfl

def SerializerConfig.handles : SerializerConfig → LogEntryType → Bool
  | .v1CT, .x509Entry | .v1CT, .precertEntry => true
  | .v2CT, .x509Entry | .v2CT, .precertEntryV2 => true
  | _, _ => false

theorem deserializeMerkleTreeLeaf_unhandled_entryType (config : SerializerConfig)
    (timestamp : UInt64) (logEntryType : LogEntryType)
    (hlt : logEntryType.toNat < 256 ^ kLogEntryTypeLengthInBytes)
    (hunhandled : config.handles logEntryType = false) (rest : ByteString) :
    deserializeMerkleTreeLeaf config
        (writeUint config.version.toNat kVersionLengthInBytes ++
          writeUint MerkleLeafType.timestampedEntry.toNat kMerkleLeafTypeLengthInBytes ++
          writeUint timestamp.toNat kTimestampLengthInBytes ++
          writeUint logEntryType.toNat kLogEntryTypeLengthInBytes ++ rest) =
      .error ("entry_type: " ++ toString logEntryType.toNat) := by
  have hversion := readUint_run_append
    (show config.version.toNat < 256 ^ kVersionLengthInBytes by cases config <;> decide)
  have hleafType := readUint_run_append (show 0 < 256 ^ kMerkleLeafTypeLengthInBytes by decide)
  have htime := readUint_run_append (timestamp_lt timestamp)
  have hentry := readUint_run_append hlt
  simp only [MerkleLeafType.toNat, List.append_assoc]
  cases config
  all_goals
    simp only [SerializerConfig.version, Version.toNat] at hversion ⊢
    simp only [deserializeMerkleTreeLeaf, readMerkleTreeLeaf, deserializeV1SCTMerkleTreeLeaf,
      deserializeV2SCTMerkleTreeLeaf, StateT.run_bind, Version.toNat, MerkleLeafType.toNat, ne_eq,
      not_true_eq_false, if_false, Codec.Reader.orThrow_run_of_some (hversion _),
      Codec.Reader.orThrow_run_of_some (hleafType _), Codec.Reader.orThrow_run_of_some (htime _),
      Codec.Reader.orThrow_run_of_some (hentry _), pure_bind, LogEntryType.ofNat?_toNat]
    cases logEntryType <;> first | rfl | exact absurd hunhandled (by decide)

/-- For either configuration, a leaf header of its version whose entry type
number is not a `LogEntryType`, or is one the configuration reads no body for,
ends the process whatever follows it. -/
theorem deserializeMerkleTreeLeaf_aborts_on_header (config : SerializerConfig) (timestamp : UInt64)
    {entryType : Nat} (hlt : entryType < 256 ^ kLogEntryTypeLengthInBytes)
    (hbad : ∀ t, LogEntryType.ofNat? entryType = some t → config.handles t = false)
    (rest : ByteString) :
    ∃ msg, deserializeMerkleTreeLeaf config
        (writeUint config.version.toNat kVersionLengthInBytes ++
          writeUint MerkleLeafType.timestampedEntry.toNat kMerkleLeafTypeLengthInBytes ++
          writeUint timestamp.toNat kTimestampLengthInBytes ++
          writeUint entryType kLogEntryTypeLengthInBytes ++ rest) = .error msg := by
  cases ht : LogEntryType.ofNat? entryType with
  | none =>
    exact ⟨_, deserializeMerkleTreeLeaf_invalid_entryType config timestamp hlt
      (by simp [logEntryTypeIsValid, ht]) rest⟩
  | some t =>
    obtain rfl := LogEntryType.toNat_of_ofNat? ht
    exact ⟨_, deserializeMerkleTreeLeaf_unhandled_entryType config timestamp t hlt (hbad t ht) rest⟩

/-- Under V1, a header of entry type `2`, the V2 precertificate, ends the
process. -/
theorem deserializeMerkleTreeLeaf_aborts_on_header_precertV2 :
    ∃ msg, deserializeMerkleTreeLeaf .v1CT
        (writeUint SerializerConfig.v1CT.version.toNat kVersionLengthInBytes ++
          writeUint MerkleLeafType.timestampedEntry.toNat kMerkleLeafTypeLengthInBytes ++
          writeUint (0 : UInt64).toNat kTimestampLengthInBytes ++
          writeUint 2 kLogEntryTypeLengthInBytes ++ []) = .error msg :=
  deserializeMerkleTreeLeaf_aborts_on_header .v1CT 0 (by decide)
    (fun t ht => by cases ht; rfl) []

theorem deserializeMerkleTreeLeaf_aborts_on_entry_type :
    deserializeMerkleTreeLeaf .v1CT ([0, 0] ++ List.replicate 8 0 ++ [0, 3]) =
        .error "Check failed: LogEntryType_IsValid(entry_type)" ∧
      deserializeMerkleTreeLeaf .v2CT ([1, 0] ++ List.replicate 8 0 ++ [0, 3]) =
        .error "Check failed: LogEntryType_IsValid(entry_type)" ∧
      deserializeMerkleTreeLeaf .v1CT ([0, 0] ++ List.replicate 8 0 ++ [0, 2]) =
        .error "entry_type: 2" := by
  decide +kernel

end CertTrans
