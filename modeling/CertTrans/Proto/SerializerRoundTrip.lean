import CertTrans.Proto.Serializer

/-!
Both round trips of the SCT encoding of `serializer.cc`, one layer at a time.
For each reader, what the matching writer produced is read back with any
suffix after it (`run_append`, `run_of_write`), and a successful read is the
output of a successful write of what was read (`run_eq_ok`, `of_run`).

The V2 SCT makes both round trips.  The V1 SCT makes them only up to its
extensions: `ReadSCTV1` reads the opaque extensions and drops them, so the
decoded SCT has none, and it re-encodes to its input only after they are put
back.
-/

namespace CertTrans

open Serializer TLSSerializer TLSDeserializer Deserializer

theorem readUint_fold (bs : List UInt8) :
    bs.foldl (fun res b => res <<< 8 ||| b.toNat) 0 = Codec.decodeBE bs := by
  have hstep : (fun res (b : UInt8) => res <<< 8 ||| b.toNat) =
      fun acc b => acc * 256 + b.toNat := by
    funext res b
    rw [← Nat.shiftLeft_add_eq_or_of_lt b.toNat_lt, Nat.shiftLeft_eq]
  rw [hstep]
  rfl

theorem readUint_run_append {n bytes : Nat} (h : n < 256 ^ bytes) (rest : ByteString) :
    (readUint bytes).run (writeUint n bytes ++ rest) = some (n, rest) := by
  simp only [readUint, writeUint, StateT.run_bind,
    Codec.readBytes_run_append (Codec.length_encodeBE n bytes), StateT.run_pure]
  simp [readUint_fold, Codec.decodeBE_encodeBE h]

theorem readUint_run_eq_some {bytes n : Nat} {input rest : ByteString}
    (h : (readUint bytes).run input = some (n, rest)) :
    n < 256 ^ bytes ∧ input = writeUint n bytes ++ rest := by
  simp only [readUint, StateT.run_bind] at h
  rcases hr : (Codec.readBytes bytes).run input with _ | ⟨xs, mid⟩
  · simp [hr] at h
  · simp [hr, readUint_fold] at h
    obtain ⟨hlen, rfl⟩ := Codec.readBytes_run_eq_some hr
    obtain ⟨rfl, rfl⟩ := h
    refine ⟨hlen ▸ Codec.decodeBE_lt xs, ?_⟩
    rw [writeUint, ← hlen, Codec.encodeBE_decodeBE]

theorem lt_pow_prefixLength_kMaxExtensionsLength :
    kMaxExtensionsLength < 256 ^ prefixLength kMaxExtensionsLength := by decide

theorem lt_pow_prefixLength_kMaxSignatureLength :
    kMaxSignatureLength < 256 ^ prefixLength kMaxSignatureLength := by decide

theorem readVarBytes_run_append_of_lt {value : ByteString} {maxLength : Nat}
    (hlen : value.length ≤ maxLength) (hfit : value.length < 256 ^ prefixLength maxLength)
    (rest : ByteString) :
    (readVarBytes maxLength).run (writeVarBytes value maxLength ++ rest) = some (value, rest) := by
  have hprefix := readUint_run_append hfit (value ++ rest)
  simp only [readVarBytes, readLengthPrefix, writeVarBytes, writeFixedBytes, readFixedBytes,
    List.append_assoc, StateT.run_bind, hprefix]
  simp [Nat.not_lt.mpr hlen, Codec.readBytes_run_append]

theorem readVarBytes_run_append {value : ByteString} {maxLength : Nat}
    (hmax : maxLength < 256 ^ prefixLength maxLength) (hlen : value.length ≤ maxLength)
    (rest : ByteString) :
    (readVarBytes maxLength).run (writeVarBytes value maxLength ++ rest) = some (value, rest) :=
  readVarBytes_run_append_of_lt hlen (Nat.lt_of_le_of_lt hlen hmax) rest

theorem length_lt_of_readVarBytes_run {maxLength : Nat} {input value rest : ByteString}
    (h : (readVarBytes maxLength).run input = some (value, rest)) :
    value.length < 256 ^ prefixLength maxLength := by
  simp only [readVarBytes, readLengthPrefix, StateT.run_bind] at h
  rcases hr : (readUint (prefixLength maxLength)).run input with _ | ⟨length, mid⟩
  · simp [hr] at h
  · have hlt := (readUint_run_eq_some hr).1
    by_cases hgt : length > maxLength
    · simp [hr, hgt] at h
    · simp [hr, hgt, readFixedBytes] at h
      rw [(Codec.readBytes_run_eq_some h).1]
      exact hlt

theorem readVarBytes_run_eq_some {maxLength : Nat} {input value rest : ByteString}
    (h : (readVarBytes maxLength).run input = some (value, rest)) :
    value.length ≤ maxLength ∧ input = writeVarBytes value maxLength ++ rest := by
  simp only [readVarBytes, readLengthPrefix, StateT.run_bind] at h
  rcases hr : (readUint (prefixLength maxLength)).run input with _ | ⟨length, mid⟩
  · simp [hr] at h
  · obtain ⟨-, rfl⟩ := readUint_run_eq_some hr
    by_cases hgt : length > maxLength
    · simp [hr, hgt] at h
    · simp [hr, hgt, readFixedBytes] at h
      obtain ⟨hlen, rfl⟩ := Codec.readBytes_run_eq_some h
      refine ⟨by omega, ?_⟩
      rw [writeVarBytes, hlen, writeFixedBytes, List.append_assoc]

theorem checkSignatureFormat_eq_ok_iff (sig : DigitallySigned) :
    checkSignatureFormat sig = .ok ↔ sig.signature.length ≤ kMaxSignatureLength := by
  simp [checkSignatureFormat, hashAlgorithmIsValid, signatureAlgorithmIsValid]

theorem writeDigitallySigned_eq_ok_iff (sig : DigitallySigned) (b : ByteString) :
    writeDigitallySigned sig = .ok b ↔
      sig.signature.length ≤ kMaxSignatureLength ∧
        b = writeUint sig.hashAlgorithm.toNat kHashAlgorithmLengthInBytes ++
          writeUint sig.sigAlgorithm.toNat kSigAlgorithmLengthInBytes ++
          writeVarBytes sig.signature kMaxSignatureLength := by
  rw [writeDigitallySigned, Codec.except_bind_eq_ok]
  simp only [SerializeResult.check_eq_ok_iff, checkSignatureFormat_eq_ok_iff]
  constructor
  · rintro ⟨-, hsig, hb⟩
    cases hb
    exact ⟨hsig, rfl⟩
  · rintro ⟨hsig, rfl⟩
    exact ⟨(), hsig, rfl⟩

theorem readDigitallySigned_run_append {sig : DigitallySigned} {b : ByteString}
    (hw : writeDigitallySigned sig = .ok b) (rest : ByteString) :
    readDigitallySigned.run (b ++ rest) = .ok (sig, rest) := by
  obtain ⟨hsig, rfl⟩ := (writeDigitallySigned_eq_ok_iff sig b).mp hw
  have hhash := readUint_run_append
    (show sig.hashAlgorithm.toNat < 256 ^ kHashAlgorithmLengthInBytes by
      cases sig.hashAlgorithm <;> decide)
  have halg := readUint_run_append
    (show sig.sigAlgorithm.toNat < 256 ^ kSigAlgorithmLengthInBytes by
      cases sig.sigAlgorithm <;> decide)
  have hsigBytes := readVarBytes_run_append lt_pow_prefixLength_kMaxSignatureLength hsig rest
  simp only [readDigitallySigned, List.append_assoc, StateT.run_bind,
    Codec.Reader.orThrow_run_of_some (hhash _), Codec.Reader.orThrow_run_of_some (halg _),
    Codec.Reader.orThrow_run_of_some hsigBytes, pure_bind,
    DigitallySigned.HashAlgorithm.ofNat?_toNat, DigitallySigned.SignatureAlgorithm.ofNat?_toNat]
  rfl

theorem readUint_orThrow_run_eq_ok {bytes n : Nat} {e : DeserializeResult} {input rest : ByteString}
    (h : ((readUint bytes).orThrow e : ReadM Nat).run input = .ok (n, rest)) :
    n < 256 ^ bytes ∧ input = writeUint n bytes ++ rest :=
  readUint_run_eq_some (Codec.Reader.orThrow_run_eq_ok h)

theorem readVarBytes_orThrow_run_eq_ok {maxLength : Nat} {e : DeserializeResult}
    {input value rest : ByteString}
    (h : ((readVarBytes maxLength).orThrow e : ReadM ByteString).run input = .ok (value, rest)) :
    value.length ≤ maxLength ∧ input = writeVarBytes value maxLength ++ rest :=
  readVarBytes_run_eq_some (Codec.Reader.orThrow_run_eq_ok h)

theorem writeDigitallySigned_of_run {input rest : ByteString} {sig : DigitallySigned}
    (h : readDigitallySigned.run input = .ok (sig, rest)) :
    ∃ b, writeDigitallySigned sig = .ok b ∧ input = b ++ rest := by
  unfold readDigitallySigned at h
  obtain ⟨hashAlgo, mid, hhash, h1⟩ := Codec.bind_run_eq_ok h
  obtain ⟨-, rfl⟩ := readUint_orThrow_run_eq_ok hhash
  cases hh : DigitallySigned.HashAlgorithm.ofNat? hashAlgo with
  | none =>
      rw [hh] at h1
      cases h1
  | some hashAlgorithm =>
      rw [hh] at h1
      obtain ⟨sigAlgo, mid, halg, h2⟩ := Codec.bind_run_eq_ok h1
      obtain ⟨-, rfl⟩ := readUint_orThrow_run_eq_ok halg
      cases ha : DigitallySigned.SignatureAlgorithm.ofNat? sigAlgo with
      | none =>
          rw [ha] at h2
          cases h2
      | some sigAlgorithm =>
          rw [ha] at h2
          obtain ⟨signature, mid, hsig, h3⟩ := Codec.bind_run_eq_ok h2
          obtain ⟨hlen, rfl⟩ := readVarBytes_orThrow_run_eq_ok hsig
          cases h3
          refine ⟨_, (writeDigitallySigned_eq_ok_iff _ _).mpr ⟨hlen, rfl⟩, ?_⟩
          simp only [DigitallySigned.HashAlgorithm.toNat_of_ofNat? hh,
            DigitallySigned.SignatureAlgorithm.toNat_of_ofNat? ha, List.append_assoc]

def SctExtension.Fits (e : SctExtension) : Prop :=
  e.sctExtensionData.length ≤ kMaxExtensionsLength ∧ e.sctExtensionType.toNat ≤ kMaxV2ExtensionType

theorem checkSctExtensionsFrom_fits {lastTypeSeen : Nat} {extension : List SctExtension}
    (h : checkSctExtensionsFrom lastTypeSeen extension = .ok) : ∀ e ∈ extension, e.Fits := by
  induction extension generalizing lastTypeSeen with
  | nil => simp
  | cons e rest ih =>
      simp only [checkSctExtensionsFrom] at h
      split at h
      · cases h
      split at h
      · cases h
      split at h
      · cases h
      rename_i hdata htype _
      intro x hx
      rcases List.mem_cons.mp hx with rfl | hx
      · exact ⟨Nat.le_of_not_gt hdata, Nat.le_of_not_gt htype⟩
      · exact ih h x hx

theorem checkSctExtensionsFormat_fits {extension : List SctExtension}
    (h : checkSctExtensionsFormat extension = .ok) :
    extension.length ≤ kMaxV2ExtensionsCount ∧ ∀ e ∈ extension, e.Fits := by
  unfold checkSctExtensionsFormat at h
  split at h
  · cases h
  · exact ⟨Nat.le_of_not_gt (by assumption), checkSctExtensionsFrom_fits h⟩

theorem readSctExtensionEntries_run_append {extension : List SctExtension}
    (hfits : ∀ e ∈ extension, e.Fits) (rest : ByteString) :
    (readSctExtensionEntries extension.length).run
        ((extension.flatMap fun e => writeUint e.sctExtensionType.toNat 2 ++
          writeVarBytes e.sctExtensionData kMaxExtensionsLength) ++ rest) =
      .ok (extension, rest) := by
  induction extension with
  | nil => rfl
  | cons e extension ih =>
      obtain ⟨hdata, htype⟩ := hfits e (by simp)
      have htype' := readUint_run_append
        (show e.sctExtensionType.toNat < 256 ^ 2 from Nat.lt_of_le_of_lt htype (by decide))
      have hdata' := readVarBytes_run_append lt_pow_prefixLength_kMaxExtensionsLength hdata
      have hrest := ih (fun x hx => hfits x (List.mem_cons_of_mem e hx))
      simp only [List.length_cons, readSctExtensionEntries, kV2ExtensionTypeLengthInBytes,
        List.flatMap_cons, List.append_assoc, StateT.run_bind, Codec.Reader.orThrow_run_of_some (htype' _),
        Codec.Reader.orThrow_run_of_some (hdata' _), pure_bind, hrest]
      simp [Nat.toUInt32, UInt32.ofNat_toNat]

theorem readSctExtensionEntries_run_eq_ok {count : Nat} {input rest : ByteString}
    {extension : List SctExtension}
    (h : (readSctExtensionEntries count).run input = .ok (extension, rest)) :
    extension.length = count ∧
      input = (extension.flatMap fun e => writeUint e.sctExtensionType.toNat 2 ++
        writeVarBytes e.sctExtensionData kMaxExtensionsLength) ++ rest := by
  induction count generalizing input extension rest with
  | zero =>
      cases h
      exact ⟨rfl, rfl⟩
  | succ count ih =>
      simp only [readSctExtensionEntries] at h
      obtain ⟨extType, mid, htype, h1⟩ := Codec.bind_run_eq_ok h
      obtain ⟨hlt, rfl⟩ := readUint_orThrow_run_eq_ok htype
      obtain ⟨extData, mid, hdata, h2⟩ := Codec.bind_run_eq_ok h1
      obtain ⟨-, rfl⟩ := readVarBytes_orThrow_run_eq_ok hdata
      obtain ⟨tail, mid, htail, h3⟩ := Codec.bind_run_eq_ok h2
      obtain ⟨hlen, rfl⟩ := ih htail
      cases h3
      have htoNat : extType.toUInt32.toNat = extType :=
        UInt32.toNat_ofNat_of_lt' (Nat.lt_trans hlt (by decide))
      refine ⟨by simp [hlen], ?_⟩
      simp [htoNat, kV2ExtensionTypeLengthInBytes]

theorem readSctExtension_run_append {extension : List SctExtension}
    (h : checkSctExtensionsFormat extension = .ok) (rest : ByteString) :
    readSctExtension.run (writeSctExtension extension ++ rest) = .ok (extension, rest) := by
  obtain ⟨hcount, hfits⟩ := checkSctExtensionsFormat_fits h
  have hcount' := readUint_run_append
    (show extension.length < 256 ^ 2 from Nat.lt_of_le_of_lt hcount (by decide))
  simp only [readSctExtension, writeSctExtension, kV2ExtensionCountLengthInBytes,
    List.append_assoc, StateT.run_bind, Codec.Reader.orThrow_run_of_some (hcount' _), pure_bind,
    Nat.not_lt.mpr hcount, if_false, readSctExtensionEntries_run_append hfits]
  simp [h]
  rfl

theorem readSctExtension_run_eq_ok {input rest : ByteString} {extension : List SctExtension}
    (h : readSctExtension.run input = .ok (extension, rest)) :
    checkSctExtensionsFormat extension = .ok ∧ input = writeSctExtension extension ++ rest := by
  unfold readSctExtension at h
  obtain ⟨extCount, mid, hcount, h1⟩ := Codec.bind_run_eq_ok h
  obtain ⟨-, rfl⟩ := readUint_orThrow_run_eq_ok hcount
  split at h1
  · cases h1
  obtain ⟨entries, mid, hentries, h2⟩ := Codec.bind_run_eq_ok h1
  obtain ⟨hlen, rfl⟩ := readSctExtensionEntries_run_eq_ok hentries
  split at h2
  · cases h2
    refine ⟨by assumption, ?_⟩
    simp [writeSctExtension, hlen, kV2ExtensionCountLengthInBytes]
  · cases h2

theorem checked_write_eq_ok_iff (res : SerializeResult) (c : Prop) [Decidable c]
    (e : SerializeResult) (x : Except SerializeResult ByteString) (f : ByteString → ByteString)
    (b : ByteString) :
    (do res.check; if c then throw e else do let s ← x; return f s) = .ok b ↔
      res = .ok ∧ ¬ c ∧ ∃ s, x = .ok s ∧ b = f s := by
  rw [Codec.except_bind_eq_ok]
  simp only [SerializeResult.check_eq_ok_iff, exists_const]
  split
  · constructor
    · rintro ⟨_, h⟩
      cases h
    · rintro ⟨_, hc, _⟩
      exact absurd ‹c› hc
  · rename_i hc
    rw [Codec.except_bind_eq_ok]
    constructor
    · rintro ⟨hres, s, hs, hb⟩
      cases hb
      exact ⟨hres, hc, s, hs, rfl⟩
    · rintro ⟨hres, -, s, hs, rfl⟩
      exact ⟨hres, s, hs, rfl⟩

theorem writeSCTV2_eq_ok_iff (sct : SignedCertificateTimestamp) (b : ByteString) :
    writeSCTV2 sct = .ok b ↔
      checkSctExtensionsFormat sct.sctExtension = .ok ∧ sct.keyId.length = kKeyIDLengthInBytes ∧
        ∃ sig, writeDigitallySigned sct.signature = .ok sig ∧
          b = writeUint sct.version.toNat kVersionLengthInBytes ++ sct.keyId ++
            writeUint sct.timestamp.toNat kTimestampLengthInBytes ++
            writeSctExtension sct.sctExtension ++ sig := by
  rw [writeSCTV2, checked_write_eq_ok_iff, not_not]
  rfl

theorem writeSCTV1_eq_ok_iff (sct : SignedCertificateTimestamp) (b : ByteString) :
    writeSCTV1 sct = .ok b ↔
      checkExtensionsFormat sct.extensions = .ok ∧ sct.keyId.length = kKeyIDLengthInBytes ∧
        ∃ sig, writeDigitallySigned sct.signature = .ok sig ∧
          b = writeUint sct.version.toNat kVersionLengthInBytes ++ sct.keyId ++
            writeUint sct.timestamp.toNat kTimestampLengthInBytes ++
            writeVarBytes sct.extensions kMaxExtensionsLength ++ sig := by
  rw [writeSCTV1, checked_write_eq_ok_iff, not_not]
  rfl

theorem checkExtensionsFormat_eq_ok_iff (extensions : ByteString) :
    checkExtensionsFormat extensions = .ok ↔ extensions.length ≤ kMaxExtensionsLength := by
  simp [checkExtensionsFormat]

theorem timestamp_lt (timestamp : UInt64) : timestamp.toNat < 256 ^ kTimestampLengthInBytes :=
  Nat.lt_of_lt_of_eq timestamp.toNat_lt (by decide)

theorem readSCT_run_v1 (input : ByteString) :
    readSCT.run (writeUint Version.v1.toNat kVersionLengthInBytes ++ input) = readSCTV1.run input := by
  have hversion := readUint_run_append
    (show Version.v1.toNat < 256 ^ kVersionLengthInBytes by decide) input
  simp only [readSCT, StateT.run_bind, Codec.Reader.orThrow_run_of_some hversion, pure_bind]
  rfl

theorem readSCT_run_v2 (input : ByteString) :
    readSCT.run (writeUint Version.v2.toNat kVersionLengthInBytes ++ input) = readSCTV2.run input := by
  have hversion := readUint_run_append
    (show Version.v2.toNat < 256 ^ kVersionLengthInBytes by decide) input
  simp only [readSCT, StateT.run_bind, Codec.Reader.orThrow_run_of_some hversion, pure_bind]
  rfl

theorem readSCT_run_of_writeSCTV2 {sct : SignedCertificateTimestamp} {b : ByteString}
    (hv : sct.version = .v2) (hw : writeSCTV2 sct = .ok b) (rest : ByteString) :
    readSCT.run (b ++ rest) = .ok ({ sct with extensions := [] }, rest) := by
  obtain ⟨hcheck, hkey, sig, hsig, rfl⟩ := (writeSCTV2_eq_ok_iff sct b).mp hw
  have hkeyId := Codec.readBytes_run_append hkey
  have htime := readUint_run_append (timestamp_lt sct.timestamp)
  simp only [hv, List.append_assoc, readSCT_run_v2, readSCTV2, readFixedBytes, StateT.run_bind,
    Codec.Reader.orThrow_run_of_some (hkeyId _), Codec.Reader.orThrow_run_of_some (htime _),
    readSctExtension_run_append hcheck, readDigitallySigned_run_append hsig, pure_bind,
    Codec.except_ok_bind]
  cases sct
  cases hv
  simp [UInt64.ofNat_toNat]
  rfl

theorem readSCT_run_of_writeSCTV1 {sct : SignedCertificateTimestamp} {b : ByteString}
    (hv : sct.version = .v1) (hw : writeSCTV1 sct = .ok b) (rest : ByteString) :
    readSCT.run (b ++ rest) = .ok ({ sct with extensions := [], sctExtension := [] }, rest) := by
  obtain ⟨hext, hkey, sig, hsig, rfl⟩ := (writeSCTV1_eq_ok_iff sct b).mp hw
  have hkeyId := Codec.readBytes_run_append hkey
  have htime := readUint_run_append (timestamp_lt sct.timestamp)
  have hextensions := readVarBytes_run_append lt_pow_prefixLength_kMaxExtensionsLength
    ((checkExtensionsFormat_eq_ok_iff _).mp hext)
  simp only [hv, List.append_assoc, readSCT_run_v1, readSCTV1, readFixedBytes, StateT.run_bind,
    Codec.Reader.orThrow_run_of_some (hkeyId _), Codec.Reader.orThrow_run_of_some (htime _),
    Codec.Reader.orThrow_run_of_some (hextensions _), readDigitallySigned_run_append hsig,
    pure_bind, Codec.except_ok_bind]
  cases sct
  cases hv
  simp [UInt64.ofNat_toNat]
  rfl

theorem toNat_toUInt64_of_lt {n : Nat} (h : n < 256 ^ kTimestampLengthInBytes) :
    n.toUInt64.toNat = n :=
  UInt64.toNat_ofNat_of_lt' (Nat.lt_of_lt_of_eq h (by decide))

theorem writeSCTV2_of_readSCTV2_run {input rest : ByteString} {sct : SignedCertificateTimestamp}
    (h : readSCTV2.run input = .ok (sct, rest)) :
    sct.version = .v2 ∧ ∃ b, writeSCTV2 sct = .ok b ∧
      writeUint Version.v2.toNat kVersionLengthInBytes ++ input = b ++ rest := by
  unfold readSCTV2 at h
  obtain ⟨keyId, mid, hkey, h1⟩ := Codec.bind_run_eq_ok h
  obtain ⟨hlen, rfl⟩ := Codec.readBytes_run_eq_some (Codec.Reader.orThrow_run_eq_ok hkey)
  obtain ⟨timestamp, mid, htime, h2⟩ := Codec.bind_run_eq_ok h1
  obtain ⟨hlt, rfl⟩ := readUint_orThrow_run_eq_ok htime
  obtain ⟨extension, mid, hext, h3⟩ := Codec.bind_run_eq_ok h2
  obtain ⟨hcheck, rfl⟩ := readSctExtension_run_eq_ok hext
  obtain ⟨signature, mid, hsig, h4⟩ := Codec.bind_run_eq_ok h3
  obtain ⟨sigBytes, hsigw, rfl⟩ := writeDigitallySigned_of_run hsig
  cases h4
  refine ⟨rfl, _, (writeSCTV2_eq_ok_iff _ _).mpr ⟨hcheck, hlen, sigBytes, hsigw, rfl⟩, ?_⟩
  simp [toNat_toUInt64_of_lt hlt]

theorem writeSCTV1_of_readSCTV1_run {input rest : ByteString} {sct : SignedCertificateTimestamp}
    (h : readSCTV1.run input = .ok (sct, rest)) :
    sct.version = .v1 ∧ ∃ extensions b, writeSCTV1 { sct with extensions } = .ok b ∧
      writeUint Version.v1.toNat kVersionLengthInBytes ++ input = b ++ rest := by
  unfold readSCTV1 at h
  obtain ⟨keyId, mid, hkey, h1⟩ := Codec.bind_run_eq_ok h
  obtain ⟨hlen, rfl⟩ := Codec.readBytes_run_eq_some (Codec.Reader.orThrow_run_eq_ok hkey)
  obtain ⟨timestamp, mid, htime, h2⟩ := Codec.bind_run_eq_ok h1
  obtain ⟨hlt, rfl⟩ := readUint_orThrow_run_eq_ok htime
  obtain ⟨extensions, mid, hext, h3⟩ := Codec.bind_run_eq_ok h2
  obtain ⟨hextLen, rfl⟩ := readVarBytes_orThrow_run_eq_ok hext
  obtain ⟨signature, mid, hsig, h4⟩ := Codec.bind_run_eq_ok h3
  obtain ⟨sigBytes, hsigw, rfl⟩ := writeDigitallySigned_of_run hsig
  cases h4
  refine ⟨rfl, extensions, _, (writeSCTV1_eq_ok_iff _ _).mpr
    ⟨(checkExtensionsFormat_eq_ok_iff _).mpr hextLen, hlen, sigBytes, hsigw, rfl⟩, ?_⟩
  simp [toNat_toUInt64_of_lt hlt]

theorem readSCT_run_eq_ok {input rest : ByteString} {sct : SignedCertificateTimestamp}
    (h : readSCT.run input = .ok (sct, rest)) :
    ∃ mid, (input = writeUint Version.v1.toNat kVersionLengthInBytes ++ mid ∧
        readSCTV1.run mid = .ok (sct, rest)) ∨
      (input = writeUint Version.v2.toNat kVersionLengthInBytes ++ mid ∧
        readSCTV2.run mid = .ok (sct, rest)) := by
  unfold readSCT at h
  obtain ⟨version, mid, hversion, h1⟩ := Codec.bind_run_eq_ok h
  obtain ⟨-, rfl⟩ := readUint_orThrow_run_eq_ok hversion
  refine ⟨mid, ?_⟩
  split at h1
  · cases h1
  split at h1
  · rename_i hv1
    exact .inl ⟨by rw [hv1], h1⟩
  split at h1
  · rename_i hv2
    exact .inr ⟨by rw [hv2], h1⟩
  · cases h1

theorem deserializeSCT_eq_ok {input : ByteString} {sct : SignedCertificateTimestamp}
    (h : deserializeSCT input = .ok sct) : readSCT.run input = .ok (sct, []) := by
  rw [deserializeSCT, Codec.except_bind_eq_ok] at h
  obtain ⟨⟨sct', rest⟩, hrun, hend⟩ := h
  cases rest with
  | nil =>
      simp only [ne_eq, not_true_eq_false, if_false] at hend
      cases hend
      exact hrun
  | cons b rest => simp at hend

theorem deserializeSCT_of_readSCT_run {input : ByteString} {sct : SignedCertificateTimestamp}
    (h : readSCT.run input = .ok (sct, [])) : deserializeSCT input = .ok sct := by
  rw [deserializeSCT, h]
  rfl

/-- A V2 SCT that serializes is deserialized back, with no V1 extensions. -/
theorem deserializeSCT_of_serializeSCT_v2 {sct : SignedCertificateTimestamp} {b : ByteString}
    (hv : sct.version = .v2) (h : serializeSCT sct = .ok b) :
    deserializeSCT b = .ok { sct with extensions := [] } := by
  rw [serializeSCT, hv] at h
  apply deserializeSCT_of_readSCT_run
  simpa using readSCT_run_of_writeSCTV2 hv h []

/-- A V2 SCT with V1 extensions `[1]` reads back without them. -/
theorem deserializeSCT_of_serializeSCT_v2_extensions_one :
    let sct : SignedCertificateTimestamp :=
      { version := .v2, keyId := List.replicate 32 0, extensions := [1] }
    ∃ b, sct.version = .v2 ∧ serializeSCT sct = .ok b ∧
      deserializeSCT b = .ok { sct with extensions := [] } := by
  intro sct
  have hw : serializeSCT sct = .ok _ :=
    (writeSCTV2_eq_ok_iff sct _).mpr
      ⟨rfl, rfl, _, (writeDigitallySigned_eq_ok_iff _ _).mpr ⟨by decide, rfl⟩, rfl⟩
  exact ⟨_, rfl, hw, deserializeSCT_of_serializeSCT_v2 rfl hw⟩

theorem deserializeSCT_of_serializeSCT_v1 {sct : SignedCertificateTimestamp} {b : ByteString}
    (hv : sct.version = .v1) (h : serializeSCT sct = .ok b) :
    deserializeSCT b = .ok { sct with extensions := [], sctExtension := [] } := by
  rw [serializeSCT, hv] at h
  apply deserializeSCT_of_readSCT_run
  simpa using readSCT_run_of_writeSCTV1 hv h []

/-- What `DeserializeSCT` accepts is what `SerializeSCT` writes: a V2 SCT as
it was read, a V1 SCT once the extensions it dropped are put back. -/
theorem serializeSCT_of_deserializeSCT {input : ByteString} {sct : SignedCertificateTimestamp}
    (h : deserializeSCT input = .ok sct) :
    (sct.version = .v1 ∧ ∃ extensions, serializeSCT { sct with extensions } = .ok input) ∨
      (sct.version = .v2 ∧ serializeSCT sct = .ok input) := by
  obtain ⟨mid, ⟨rfl, h1⟩ | ⟨rfl, h2⟩⟩ := readSCT_run_eq_ok (deserializeSCT_eq_ok h)
  · obtain ⟨hv, extensions, b, hw, hb⟩ := writeSCTV1_of_readSCTV1_run h1
    refine .inl ⟨hv, extensions, ?_⟩
    rw [hv] at hw
    simp only [serializeSCT, hv]
    rw [hw, ← List.append_nil b, ← hb]
  · obtain ⟨hv, b, hw, hb⟩ := writeSCTV2_of_readSCTV2_run h2
    refine .inr ⟨hv, ?_⟩
    simp only [serializeSCT, hv]
    rw [hw, ← List.append_nil b, ← hb]

/-- The bytes of a V1 SCT with extensions `[1]` deserialize to the SCT without
them, which serializes back to those bytes once they are put back. -/
theorem serializeSCT_of_deserializeSCT_extensions_one :
    ∃ b sct, deserializeSCT b = .ok sct ∧
      ((sct.version = .v1 ∧ ∃ extensions, serializeSCT { sct with extensions } = .ok b) ∨
        (sct.version = .v2 ∧ serializeSCT sct = .ok b)) := by
  let sct : SignedCertificateTimestamp :=
    { version := .v1, keyId := List.replicate 32 0, extensions := [1] }
  have hw : serializeSCT sct = .ok _ :=
    (writeSCTV1_eq_ok_iff sct _).mpr
      ⟨by decide, rfl, _, (writeDigitallySigned_eq_ok_iff _ _).mpr ⟨by decide, rfl⟩, rfl⟩
  have hread := deserializeSCT_of_serializeSCT_v1 rfl hw
  exact ⟨_, _, hread, serializeSCT_of_deserializeSCT hread⟩

theorem deserializeSCT_drops_v1_extensions :
    let sct : SignedCertificateTimestamp :=
      { version := .v1, keyId := List.replicate 32 0, extensions := [1] }
    ∃ b, serializeSCT sct = .ok b ∧ deserializeSCT b = .ok { sct with extensions := [] } := by
  intro sct
  have hw : serializeSCT sct = .ok _ :=
    (writeSCTV1_eq_ok_iff sct _).mpr
      ⟨by decide, rfl, _, (writeDigitallySigned_eq_ok_iff _ _).mpr ⟨by decide, rfl⟩, rfl⟩
  exact ⟨_, hw, deserializeSCT_of_serializeSCT_v1 rfl hw⟩

end CertTrans
