import CertTrans.Fetcher.Replication
import CertTrans.Proto.ListRoundTrip
import CertTrans.Proto.LeafRoundTrip

/-!
A V1 entry through get-entries and `WriteToDatabase`.

Fetched without its SCT, an entry that serializes comes back as `rebuilt`: the
SCT fields its leaf carries, and the entry fields its leaf and extra data carry.
That is enough for the same leaf input, the same `Hash()` and the same extra
data.  Fetched with its SCT, the SCT that `DeserializeSCT` reads takes the place
of the rebuilt one, and `ReadSCTV1` does not keep the V1 extensions: an entry
whose SCT has extensions never comes back with its own leaf input, whether the
follower's check of the SCT accepts it or not.
-/

namespace CertTrans

open Serializer TLSSerializer TLSDeserializer Deserializer

theorem kMaxCertificateLength_fits :
    prefixLength kMaxCertificateLength ≤ 8 ∧
      kMaxCertificateLength < 256 ^ prefixLength kMaxCertificateLength := by decide

theorem deserializeX509Chain_of_serializeX509Chain {entry : X509ChainEntry} {b : ByteString}
    (h : serializeX509Chain entry = .ok (.ok b)) :
    deserializeX509Chain b = .ok entry.certificateChain :=
  deserializeList_of_serializeList (by decide) (by decide) h

theorem readList_run_of_deserializeList {input : ByteString} {maxTotalLength maxElemLength : Nat}
    {out : List ByteString} (h : deserializeList input maxTotalLength maxElemLength = .ok out) :
    (readList maxTotalLength maxElemLength).run input = .ok (out, []) := by
  obtain ⟨⟨out', rest⟩, hrun, h⟩ := Codec.except_bind_eq_ok.mp h
  obtain ⟨rfl, -⟩ := readList_run_eq_ok hrun
  cases h
  exact hrun

theorem serializePrecertChainEntry_eq_ok {preCertificate : ByteString}
    {precertificateChain : List ByteString} {b : ByteString}
    (h : serializePrecertChainEntry preCertificate precertificateChain = .ok (.ok b)) :
    preCertificate.length ≤ kMaxCertificateLength ∧ ∃ list,
      writeList precertificateChain kMaxCertificateLength kMaxCertificateChainLength = .ok (.ok list) ∧
      b = writeVarBytes preCertificate kMaxCertificateLength ++ list := by
  unfold serializePrecertChainEntry at h
  split at h
  · cases h
  rename_i hlen
  split at h
  · cases h
  rw [writeVarBytesChecked_of_lt kMaxCertificateLength_fits.1 (Nat.le_of_not_gt hlen)
    (Nat.lt_of_le_of_lt (Nat.le_of_not_gt hlen) kMaxCertificateLength_fits.2)] at h
  obtain ⟨header, hheader, h⟩ := Codec.except_bind_eq_ok.mp h
  cases hheader
  obtain ⟨res, hres, h⟩ := Codec.except_bind_eq_ok.mp h
  rcases res with res | list
  · cases h
  · cases h
    exact ⟨Nat.le_of_not_gt hlen, list, hres, rfl⟩

theorem deserializePrecertChainEntry_of_serializePrecertChainEntry {preCertificate : ByteString}
    {precertificateChain : List ByteString} {b : ByteString}
    (h : serializePrecertChainEntry preCertificate precertificateChain = .ok (.ok b)) :
    deserializePrecertChainEntry b = .ok (preCertificate, precertificateChain) := by
  obtain ⟨hlen, list, hlist, rfl⟩ := serializePrecertChainEntry_eq_ok h
  have hchain := readList_run_of_deserializeList
    (deserializeList_of_serializeList (by decide) (by decide) hlist)
  have hpre := readVarBytes_run_append lt_pow_prefixLength_kMaxCertificateLength hlen list
  simp only [deserializePrecertChainEntry, readPrecertChainEntry, StateT.run_bind,
    Codec.Reader.orThrow_run_of_some hpre, pure_bind, hchain]
  rfl

def LogEntry.v1Fields (entry : LogEntry) : LogEntry :=
  match entry.type with
  | .x509Entry =>
      { type := .x509Entry,
        x509Entry := { leafCertificate := entry.x509Entry.leafCertificate,
                       certificateChain := entry.x509Entry.certificateChain } }
  | .precertEntry =>
      { type := .precertEntry,
        precertEntry := { preCertificate := entry.precertEntry.preCertificate,
                          precertificateChain := entry.precertEntry.precertificateChain,
                          preCert := entry.precertEntry.preCert } }
  | type => { type }

def LogEntry.extraDataFields (entry : LogEntry) : LogEntry :=
  match entry.type with
  | .x509Entry => { x509Entry := { certificateChain := entry.x509Entry.certificateChain } }
  | .precertEntry =>
      { precertEntry := { preCertificate := entry.precertEntry.preCertificate,
                          precertificateChain := entry.precertEntry.precertificateChain } }
  | _ => {}

def SignedCertificateTimestamp.v1Fields (sct : SignedCertificateTimestamp) :
    SignedCertificateTimestamp :=
  { version := .v1, timestamp := sct.timestamp, extensions := sct.extensions }

def LoggedEntryPB.rebuilt (index : Int) (e : LoggedEntryPB) : LoggedEntryPB :=
  { sequenceNumber := some index, sct := e.sct.v1Fields, entry := e.entry.v1Fields }

theorem serializeV1SCTMerkleTreeLeaf_entry_v1Fields (sct : SignedCertificateTimestamp)
    (entry : LogEntry) :
    serializeV1SCTMerkleTreeLeaf sct entry.v1Fields = serializeV1SCTMerkleTreeLeaf sct entry := by
  unfold serializeV1SCTMerkleTreeLeaf LogEntry.v1Fields
  cases htype : entry.type <;> simp

theorem serializeV1SCTMerkleTreeLeaf_sct_v1Fields {sct : SignedCertificateTimestamp}
    (hv : sct.version = .v1) (entry : LogEntry) :
    serializeV1SCTMerkleTreeLeaf sct.v1Fields entry = serializeV1SCTMerkleTreeLeaf sct entry := by
  simp [serializeV1SCTMerkleTreeLeaf, hv, SignedCertificateTimestamp.v1Fields]

theorem leafData_v1Fields (entry : LogEntry) :
    Serializer.leafData .v1CT entry.v1Fields = Serializer.leafData .v1CT entry := by
  unfold Serializer.leafData LogEntry.v1Fields
  cases htype : entry.type <;> simp

namespace LoggedEntryPB

variable {e : LoggedEntryPB} (index : Int)

theorem serializeForLeaf_rebuilt (hv : e.sct.version = .v1) :
    (e.rebuilt index).serializeForLeaf .v1CT = e.serializeForLeaf .v1CT := by
  simp only [serializeForLeaf, rebuilt, serializeSCTMerkleTreeLeaf,
    serializeV1SCTMerkleTreeLeaf_entry_v1Fields, serializeV1SCTMerkleTreeLeaf_sct_v1Fields hv]

theorem hash_rebuilt (sha256 : SerialHasher) :
    (e.rebuilt index).hash .v1CT sha256 = e.hash .v1CT sha256 := by
  simp only [hash, rebuilt, leafData_v1Fields]

theorem serializeExtraData_rebuilt :
    (e.rebuilt index).serializeExtraData = e.serializeExtraData := by
  unfold serializeExtraData rebuilt LogEntry.v1Fields
  cases htype : e.entry.type <;> simp [serializeX509Chain]

end LoggedEntryPB

section Steps

variable {config : SerializerConfig} {e : LoggedEntryPB} {leafInput extraData : ByteString}

theorem blockingGetEntriesEntry_without_scts
    (hleaf : e.serializeForLeaf config = .ok (some leafInput))
    (hextra : e.serializeExtraData = .ok (some extraData)) :
    HttpHandler.blockingGetEntriesEntry config false e = .ok (some ⟨leafInput, extraData, none⟩) := by
  simp only [HttpHandler.blockingGetEntriesEntry, hleaf, hextra]
  rfl

theorem blockingGetEntriesEntry_with_scts {sctData : ByteString}
    (hleaf : e.serializeForLeaf config = .ok (some leafInput))
    (hextra : e.serializeExtraData = .ok (some extraData))
    (hsct : Serializer.serializeSCT e.sct = .ok sctData) :
    HttpHandler.blockingGetEntriesEntry config true e =
      .ok (some ⟨leafInput, extraData, some sctData⟩) := by
  simp only [HttpHandler.blockingGetEntriesEntry, hleaf, hextra, hsct]
  rfl

@[simp] theorem SerializerConfig.leafOf_entryType (config : SerializerConfig)
    (sct : SignedCertificateTimestamp) (entry : LogEntry) :
    (config.leafOf sct entry).timestampedEntry.entryType = entry.type := by
  cases config <;> rfl

theorem serializeX509Chain_of_serializeExtraData (htype : e.entry.type = .x509Entry)
    (hextra : e.serializeExtraData = .ok (some extraData)) :
    serializeX509Chain e.entry.x509Entry = .ok (.ok extraData) := by
  rw [LoggedEntryPB.serializeExtraData, htype] at hextra
  exact Codec.except_map_toOption_eq_ok_some.mp hextra

theorem serializePrecertChainEntry_of_serializeExtraData (htype : e.entry.type = .precertEntry)
    (hextra : e.serializeExtraData = .ok (some extraData)) :
    serializePrecertChainEntry e.entry.precertEntry.preCertificate
      e.entry.precertEntry.precertificateChain = .ok (.ok extraData) := by
  rw [LoggedEntryPB.serializeExtraData, htype] at hextra
  exact Codec.except_map_toOption_eq_ok_some.mp hextra

theorem doneGetEntriesEntry_v1 {json : HttpHandler.EntryJson}
    {sct : Option SignedCertificateTimestamp}
    (htype : e.entry.type = .x509Entry ∨ e.entry.type = .precertEntry)
    (hleaf : e.serializeForLeaf .v1CT = .ok (some json.leafInput))
    (hextra : e.serializeExtraData = .ok (some json.extraData))
    (hsct : AsyncLogClient.readSCT json.sct = some sct) :
    AsyncLogClient.doneGetEntriesEntry .v1CT json =
      .ok (some { leaf := SerializerConfig.v1CT.leafOf e.sct e.entry, sct,
                  entry := e.entry.extraDataFields }) := by
  have hdes := deserializeMerkleTreeLeaf_of_serializeSCTMerkleTreeLeaf_v1
    (Codec.except_map_toOption_eq_ok_some.mp hleaf)
  rcases htype with htype | htype
  · have hchain := deserializeX509Chain_of_serializeX509Chain
      (serializeX509Chain_of_serializeExtraData htype hextra)
    simp only [AsyncLogClient.doneGetEntriesEntry, hdes, Codec.except_ok_bind, hsct, SerializerConfig.leafOf_entryType,
      htype, hchain, LogEntry.extraDataFields]
    rfl
  · have hchain := deserializePrecertChainEntry_of_serializePrecertChainEntry
      (serializePrecertChainEntry_of_serializeExtraData htype hextra)
    simp only [AsyncLogClient.doneGetEntriesEntry, hdes, Codec.except_ok_bind, hsct, SerializerConfig.leafOf_entryType,
      htype, hchain, LogEntry.extraDataFields]
    rfl

theorem copyFromClientLogEntry_v1 {sct : Option SignedCertificateTimestamp}
    (htype : e.entry.type = .x509Entry ∨ e.entry.type = .precertEntry) :
    LoggedEntryPB.copyFromClientLogEntry
        { leaf := SerializerConfig.v1CT.leafOf e.sct e.entry, sct, entry := e.entry.extraDataFields } =
      .ok (some { sct := e.sct.v1Fields, entry := e.entry.v1Fields }) := by
  rcases htype with htype | htype <;>
    simp [LoggedEntryPB.copyFromClientLogEntry, SerializerConfig.leafOf, htype,
      LogEntry.extraDataFields, LogEntry.v1Fields, SignedCertificateTimestamp.v1Fields]

variable {verifier : LogVerifier} {now : UInt64} {index : Int} {entry : AsyncLogClient.Entry}
  {cert : LoggedEntryPB}

theorem writeToDatabaseEntry_without_sct
    (hcopy : LoggedEntryPB.copyFromClientLogEntry entry = .ok (some cert)) (hsct : entry.sct = none) :
    FetchState.writeToDatabaseEntry config verifier now index entry =
      .ok (.ok { cert with sequenceNumber := some index }) := by
  simp only [FetchState.writeToDatabaseEntry, hcopy, Codec.except_ok_bind, hsct]
  rfl

theorem writeToDatabaseEntry_with_sct {sct : SignedCertificateTimestamp}
    (hcopy : LoggedEntryPB.copyFromClientLogEntry entry = .ok (some cert))
    (hsct : entry.sct = some sct) :
    Except.toOption <$> FetchState.writeToDatabaseEntry config verifier now index entry =
      .ok (if verifier.verifySignedCertificateTimestamp config now cert.entry sct = .verifyOk then
        some { cert with sct, sequenceNumber := some index } else none) := by
  simp only [FetchState.writeToDatabaseEntry, hcopy, Codec.except_ok_bind, hsct]
  split
  · rfl
  · rename_i hok
    rw [if_pos (not_not.mp hok)]
    rfl

theorem replicateEntry_eq {includeScts : Bool} {json : HttpHandler.EntryJson}
    (hserve : HttpHandler.blockingGetEntriesEntry config includeScts e = .ok (some json))
    (hparse : AsyncLogClient.doneGetEntriesEntry config json = .ok (some entry)) :
    replicateEntry config verifier now includeScts index e =
      Except.toOption <$> FetchState.writeToDatabaseEntry config verifier now index entry := by
  simp only [replicateEntry, hserve, hparse, Codec.except_ok_bind]
  rcases FetchState.writeToDatabaseEntry config verifier now index entry with msg | err | cert <;> rfl

end Steps

section Fetch

variable {e : LoggedEntryPB} {leafInput extraData : ByteString} (verifier : LogVerifier)
  (now : UInt64) (index : Int)

theorem version_eq_v1_of_serializeForLeaf (h : e.serializeForLeaf .v1CT = .ok (some leafInput)) :
    e.sct.version = .v1 := by
  have hleaf := Except.ok.inj (Codec.except_map_toOption_eq_ok_some.mp h)
  unfold serializeV1SCTMerkleTreeLeaf at hleaf
  split at hleaf
  · cases hleaf
  · exact not_not.mp ‹_›

theorem serializeV1SCTSignatureInput_v1Fields (sct : SignedCertificateTimestamp) (entry : LogEntry) :
    serializeV1SCTSignatureInput sct entry.v1Fields = serializeV1SCTSignatureInput sct entry := by
  unfold serializeV1SCTSignatureInput LogEntry.v1Fields
  cases htype : entry.type <;> simp

theorem verifySignedCertificateTimestamp_v1Fields (sct : SignedCertificateTimestamp)
    (entry : LogEntry) :
    verifier.verifySignedCertificateTimestamp .v1CT now entry.v1Fields sct =
      verifier.verifySignedCertificateTimestamp .v1CT now entry sct := by
  simp only [LogVerifier.verifySignedCertificateTimestamp, LogVerifier.verifySCTSignature,
    Serializer.serializeSCTSignatureInput, serializeV1SCTSignatureInput_v1Fields]
  rfl

theorem replicateEntry_without_scts
    (htype : e.entry.type = .x509Entry ∨ e.entry.type = .precertEntry)
    (hleaf : e.serializeForLeaf .v1CT = .ok (some leafInput))
    (hextra : e.serializeExtraData = .ok (some extraData)) :
    replicateEntry .v1CT verifier now false index e = .ok (some (e.rebuilt index)) := by
  rw [replicateEntry_eq (blockingGetEntriesEntry_without_scts hleaf hextra)
      (doneGetEntriesEntry_v1 htype hleaf hextra rfl),
    writeToDatabaseEntry_without_sct (copyFromClientLogEntry_v1 htype) rfl]
  rfl

theorem replicateEntry_with_scts {sctData : ByteString}
    (htype : e.entry.type = .x509Entry ∨ e.entry.type = .precertEntry)
    (hleaf : e.serializeForLeaf .v1CT = .ok (some leafInput))
    (hextra : e.serializeExtraData = .ok (some extraData))
    (hsct : Serializer.serializeSCT e.sct = .ok sctData) :
    replicateEntry .v1CT verifier now true index e =
      .ok (if verifier.verifySignedCertificateTimestamp .v1CT now e.entry
            { e.sct with extensions := [], sctExtension := [] } = .verifyOk then
          some { e.rebuilt index with sct := { e.sct with extensions := [], sctExtension := [] } }
        else none) := by
  have hread : AsyncLogClient.readSCT (some sctData) =
      some (some { e.sct with extensions := [], sctExtension := [] }) := by
    rw [AsyncLogClient.readSCT,
      deserializeSCT_of_serializeSCT_v1 (version_eq_v1_of_serializeForLeaf hleaf) hsct]
    rfl
  rw [replicateEntry_eq (blockingGetEntriesEntry_with_scts hleaf hextra hsct)
      (doneGetEntriesEntry_v1 htype hleaf hextra hread),
    writeToDatabaseEntry_with_sct (copyFromClientLogEntry_v1 htype) rfl]
  simp only [verifySignedCertificateTimestamp_v1Fields]
  rfl

/-- Fetched without its SCT, a V1 entry that serializes is written under its
index with its own leaf input, `Hash()` and extra data. -/
theorem replicateEntry_preserves_leaf_without_scts
    (htype : e.entry.type = .x509Entry ∨ e.entry.type = .precertEntry)
    (hleaf : e.serializeForLeaf .v1CT = .ok (some leafInput))
    (hextra : e.serializeExtraData = .ok (some extraData)) :
    ∃ e', replicateEntry .v1CT verifier now false index e = .ok (some e') ∧
      e'.sequenceNumber = some index ∧
      e'.serializeForLeaf .v1CT = e.serializeForLeaf .v1CT ∧
      (∀ sha256, e'.hash .v1CT sha256 = e.hash .v1CT sha256) ∧
      e'.serializeExtraData = e.serializeExtraData :=
  ⟨e.rebuilt index, replicateEntry_without_scts verifier now index htype hleaf hextra, rfl,
    LoggedEntryPB.serializeForLeaf_rebuilt index (version_eq_v1_of_serializeForLeaf hleaf),
    LoggedEntryPB.hash_rebuilt index, LoggedEntryPB.serializeExtraData_rebuilt index⟩

theorem replicateEntry_preserves_leaf_without_scts_precert :
    ∃ e', replicateEntry .v1CT ⟨[], .none, .anonymous, fun _ _ => false⟩ 0 false 7
        { sct := { version := .v1 },
          entry :=
            { type := .precertEntry,
              precertEntry :=
                { preCertificate := [1],
                  preCert := { issuerKeyHash := List.replicate 32 0, tbsCertificate := [1] } } } } =
        .ok (some e') ∧ e'.sequenceNumber = some 7 :=
  (@replicateEntry_preserves_leaf_without_scts
    { sct := { version := .v1 },
      entry :=
        { type := .precertEntry,
          precertEntry :=
            { preCertificate := [1],
              preCert := { issuerKeyHash := List.replicate 32 0, tbsCertificate := [1] } } } }
    _ [0, 0, 1, 1, 0, 0, 0] ⟨[], .none, .anonymous, fun _ _ => false⟩ 0 7 (.inr rfl) rfl
    (by decide)).imp fun _ h => ⟨h.1, h.2.1⟩

/-- Fetched with its SCT, a V1 entry whose SCT has no extensions and checks
against the entry is written under its index with that SCT and its own leaf
input, `Hash()` and extra data. -/
theorem replicateEntry_preserves_leaf_with_scts {sctData : ByteString}
    (htype : e.entry.type = .x509Entry ∨ e.entry.type = .precertEntry)
    (hleaf : e.serializeForLeaf .v1CT = .ok (some leafInput))
    (hextra : e.serializeExtraData = .ok (some extraData))
    (hsct : Serializer.serializeSCT e.sct = .ok sctData) (hext : e.sct.extensions = [])
    (hverify : verifier.verifySignedCertificateTimestamp .v1CT now e.entry e.sct = .verifyOk) :
    ∃ e', replicateEntry .v1CT verifier now true index e = .ok (some e') ∧
      e'.sequenceNumber = some index ∧ e'.sct = { e.sct with sctExtension := [] } ∧
      e'.serializeForLeaf .v1CT = e.serializeForLeaf .v1CT ∧
      (∀ sha256, e'.hash .v1CT sha256 = e.hash .v1CT sha256) ∧
      e'.serializeExtraData = e.serializeExtraData := by
  have hv := version_eq_v1_of_serializeForLeaf hleaf
  have hsct' : { e.sct with extensions := [], sctExtension := [] } =
      { e.sct with sctExtension := [] } := by
    rw [← hext]
  have hverify' : verifier.verifySignedCertificateTimestamp .v1CT now e.entry
      { e.sct with extensions := [], sctExtension := [] } = .verifyOk := by
    rw [hsct']
    exact hverify
  rw [replicateEntry_with_scts verifier now index htype hleaf hextra hsct, if_pos hverify', hsct']
  refine ⟨_, rfl, rfl, rfl, ?_, LoggedEntryPB.hash_rebuilt index,
    LoggedEntryPB.serializeExtraData_rebuilt index⟩
  have hfields : ({ e.sct with sctExtension := [] } : SignedCertificateTimestamp).v1Fields =
      e.sct.v1Fields := rfl
  simp only [LoggedEntryPB.serializeForLeaf, LoggedEntryPB.rebuilt, serializeSCTMerkleTreeLeaf,
    serializeV1SCTMerkleTreeLeaf_entry_v1Fields,
    ← serializeV1SCTMerkleTreeLeaf_sct_v1Fields (show ({ e.sct with sctExtension := [] } :
      SignedCertificateTimestamp).version = .v1 from hv), hfields,
    serializeV1SCTMerkleTreeLeaf_sct_v1Fields hv]

theorem replicateEntry_preserves_leaf_with_scts_x509 :
    ∃ e', replicateEntry .v1CT
        ⟨List.replicate 32 0, .none, .anonymous, fun _ _ => true⟩ 0 true 7
        { sct := { version := .v1, keyId := List.replicate 32 0 },
          entry := { type := .x509Entry, x509Entry := { leafCertificate := [1] } } } =
        .ok (some e') ∧ e'.sequenceNumber = some 7 :=
  (@replicateEntry_preserves_leaf_with_scts
    { sct := { version := .v1, keyId := List.replicate 32 0 },
      entry := { type := .x509Entry, x509Entry := { leafCertificate := [1] } } }
    _ [0, 0, 0] ⟨List.replicate 32 0, .none, .anonymous, fun _ _ => true⟩ 0 7 _ (.inl rfl) rfl
    (by decide) rfl rfl (by decide)).imp fun _ h => ⟨h.1, h.2.1⟩

end Fetch

end CertTrans
