import CertTrans.Python.TlsMessage

/-!
The TLS codec's readers against its writers, and the repeated enum field
that `_write_repeated` cannot write.

Each primitive reads back what its writer wrote: integers of a fixed width,
bounded integers, fixed and length-prefixed byte strings, enums, and so
every scalar field.  A repeated field of an enum type is the exception.
`_write_repeated` rebinds `opts` to the options of the enum type before it
writes the total length, and those options carry no total-length bounds: a
nonempty list fails with a `TLSEncodingError` whatever the field's own
bounds allow (`encode_fails_on_repeated_enum`), and an empty list is written
with no length at all, which the reader, holding to the field's bounds,
cannot read back.
-/

namespace CertTrans.Python.TlsMessage

open Codec

theorem lt_pow_lengthOfValue (n : Nat) : n < 256 ^ lengthOfValue n := by
  induction n using Nat.strong_induction_on with
  | _ n ih =>
      rw [lengthOfValue]
      split_ifs with h0
      · omega
      · have := ih (n / 256) (by omega)
        rw [Nat.pow_succ]
        omega

theorem lengthOfValue_pos {n : Nat} (hn : n ≠ 0) : 0 < lengthOfValue n := by
  rw [lengthOfValue, if_neg hn]
  exact Nat.succ_pos _

theorem shiftRight_eq_zero_iff (value numBytes : Nat) :
    value >>> (8 * numBytes) = 0 ↔ value < 256 ^ numBytes := by
  rw [shiftRight_eight_mul, Nat.div_eq_zero_iff_lt (Nat.pow_pos (by decide))]

theorem writeUint_eq_ok_iff {value numBytes : Nat} {bs : ByteString} :
    writeUint value numBytes = .ok bs ↔ value < 256 ^ numBytes ∧ bs = encodeBE value numBytes := by
  rw [writeUint]
  by_cases hfit : value < 256 ^ numBytes
  · rw [if_neg (by rw [ne_eq, shiftRight_eq_zero_iff]; exact not_not.mpr hfit)]
    constructor
    · rintro ⟨⟩
      exact ⟨hfit, rfl⟩
    · rintro ⟨-, rfl⟩
      rfl
  · rw [if_pos (by rw [ne_eq, shiftRight_eq_zero_iff]; exact hfit)]
    constructor
    · rintro ⟨⟩
    · rintro ⟨h, -⟩
      exact absurd h hfit

theorem readFixedBytes_append {value : ByteString} {numBytes : Nat} (h : value.length = numBytes)
    (rest : ByteString) : readFixedBytes numBytes (value ++ rest) = .ok (value, rest) := by
  subst h
  rw [readFixedBytes, if_neg (by simp), List.take_left, List.drop_left]
  rfl

theorem readUint_encodeBE {value numBytes : Nat} (h : value < 256 ^ numBytes)
    (rest : ByteString) : readUint numBytes (encodeBE value numBytes ++ rest) = .ok (value, rest) := by
  rw [readUint, readFixedBytes_append (length_encodeBE value numBytes), except_ok_bind]
  dsimp only
  rw [decodeBE_encodeBE h]
  rfl

theorem writeBoundedUint_of_le {value minValue maxValue : Nat} (hmin : minValue ≤ value)
    (hmax : value ≤ maxValue) :
    writeBoundedUint value minValue maxValue = .ok (encodeBE value (lengthOfValue maxValue)) := by
  rw [writeBoundedUint, if_neg (by omega)]
  exact writeUint_eq_ok_iff.mpr
    ⟨lt_of_le_of_lt hmax (lt_pow_lengthOfValue maxValue), rfl⟩

theorem writeBoundedUint_of_gt {value minValue maxValue : Nat} (hmax : maxValue < value) :
    writeBoundedUint value minValue maxValue =
      .error (.tlsEncodingError ("Value " ++ toString value ++ " out of range ([" ++
        toString minValue ++ ", " ++ toString maxValue ++ "])")) := by
  rw [writeBoundedUint, if_pos (Or.inr hmax)]
  rfl

theorem readBoundedUint_encodeBE {value minValue maxValue : Nat} (hmin : minValue ≤ value)
    (hmax : value ≤ maxValue) (rest : ByteString) :
    readBoundedUint minValue maxValue (encodeBE value (lengthOfValue maxValue) ++ rest) =
      .ok (value, rest) := by
  rw [readBoundedUint,
    readUint_encodeBE (lt_of_le_of_lt hmax (lt_pow_lengthOfValue maxValue)), except_ok_bind]
  dsimp only
  rw [if_neg (by omega)]
  rfl

theorem writeBoundedUint_eq_ok {value minValue maxValue : Nat} {bs : ByteString}
    (h : writeBoundedUint value minValue maxValue = .ok bs) :
    minValue ≤ value ∧ value ≤ maxValue ∧ bs = encodeBE value (lengthOfValue maxValue) := by
  rw [writeBoundedUint] at h
  split_ifs at h with hout
  exact ⟨by omega, by omega, (writeUint_eq_ok_iff.mp h).2⟩

theorem readVarBytes_append {value : ByteString} {minLength maxLength : Nat}
    (hmin : minLength ≤ value.length) (hmax : value.length ≤ maxLength) (rest : ByteString) :
    readVarBytes minLength maxLength
        (encodeBE value.length (lengthOfValue maxLength) ++ value ++ rest) = .ok (value, rest) := by
  rw [readVarBytes, List.append_assoc, readBoundedUint_encodeBE hmin hmax, except_ok_bind]
  exact readFixedBytes_append rfl rest

theorem readBytes_of_writeBytes {value : ByteString} {opts : TLSOptions} {bs : ByteString}
    (h : writeBytes value opts = .ok bs) (rest : ByteString) :
    readBytes opts (bs ++ rest) = .ok (value, rest) := by
  unfold writeBytes at h
  unfold readBytes
  split_ifs at h ⊢ with hfixed hvar
  · -- a fixed length: the bytes alone
    unfold writeFixedBytes at h
    split_ifs at h with hlen
    cases h
    exact readFixedBytes_append (not_not.mp hlen) rest
  · -- a length prefix in the width of the bound
    obtain ⟨lengthBytes, hlength, h⟩ := except_bind_eq_ok.mp h
    cases h
    obtain ⟨hmin, hmax, rfl⟩ := writeBoundedUint_eq_ok hlength
    exact readVarBytes_append hmin hmax rest

theorem readEnum_of_writeEnum {value : Nat} {opts : TLSOptions} {bs : ByteString}
    (h : writeEnum value opts = .ok bs) (rest : ByteString) :
    readEnum opts (bs ++ rest) = .ok (value, rest) := by
  unfold writeEnum at h
  unfold readEnum
  split_ifs at h ⊢ with hmax
  obtain ⟨hmin, hle, rfl⟩ := writeBoundedUint_eq_ok h
  exact readBoundedUint_encodeBE hmin hle rest

theorem readUint_of_writeUint {value numBytes : Nat} {bs : ByteString}
    (h : writeUint value numBytes = .ok bs) (rest : ByteString) :
    readUint numBytes (bs ++ rest) = .ok (value, rest) := by
  obtain ⟨hfit, rfl⟩ := writeUint_eq_ok_iff.mp h
  exact readUint_encodeBE hfit rest

def scalarValue (type : FieldType) (value : FieldValue) : FieldValue :=
  match type with
  | .bytes => .bytes value.asBytes
  | _ => .scalar value.asNat

theorem readMethod_of_writeMethod {field : FieldDescriptor}
    {write : FieldValue → TLSOptions → Except Error ByteString}
    {read : TLSOptions → ByteString → Except Error (FieldValue × ByteString)}
    (hw : getWriteMethod field = .ok write) (hr : getReadMethod field = .ok read)
    {value : FieldValue} {opts : TLSOptions} {bs : ByteString} (h : write value opts = .ok bs)
    (rest : ByteString) : read opts (bs ++ rest) = .ok (scalarValue field.type value, rest) := by
  unfold getWriteMethod at hw
  unfold getReadMethod at hr
  cases htype : field.type with
  | uint32 =>
      simp only [htype] at hw hr
      cases hw
      cases hr
      dsimp only at h ⊢
      rw [readUint32, readUint_of_writeUint h]
      rfl
  | uint64 =>
      simp only [htype] at hw hr
      cases hw
      cases hr
      dsimp only at h ⊢
      rw [readUint64, readUint_of_writeUint h]
      rfl
  | enum enumOpts defaultValue =>
      simp only [htype] at hw hr
      cases hw
      cases hr
      dsimp only at h ⊢
      rw [readEnum_of_writeEnum h]
      rfl
  | bytes =>
      simp only [htype] at hw hr
      cases hw
      cases hr
      dsimp only at h ⊢
      rw [readBytes_of_writeBytes h]
      rfl
  | message fields =>
      simp only [htype] at hw
      cases hw
  | other typeNumber =>
      simp only [htype] at hw
      cases hw

theorem widthOr_pos {default : Nat} (hdefault : 0 < default) (bytesInUse : Nat) :
    0 < widthOr bytesInUse default := by
  unfold widthOr
  split_ifs <;> omega

theorem writeMethod_ne_nil {field : FieldDescriptor}
    {write : FieldValue → TLSOptions → Except Error ByteString}
    (hw : getWriteMethod field = .ok write) {value : FieldValue} {opts : TLSOptions}
    {bs : ByteString} (h : write value opts = .ok bs) : bs ≠ [] := by
  have hwidth : ∀ {v n : Nat}, 0 < n → writeUint v n = .ok bs → bs ≠ [] := by
    intro v n hn hv
    obtain ⟨-, rfl⟩ := writeUint_eq_ok_iff.mp hv
    exact List.ne_nil_of_length_pos (by rw [length_encodeBE]; exact hn)
  unfold getWriteMethod at hw
  cases htype : field.type with
  | uint32 =>
      simp only [htype] at hw
      cases hw
      exact hwidth (widthOr_pos (by decide) _) h
  | uint64 =>
      simp only [htype] at hw
      cases hw
      exact hwidth (widthOr_pos (by decide) _) h
  | enum enumOpts defaultValue =>
      simp only [htype] at hw
      cases hw
      dsimp only at h
      unfold writeEnum at h
      split_ifs at h with hmax
      obtain ⟨-, -, rfl⟩ := writeBoundedUint_eq_ok h
      exact List.ne_nil_of_length_pos (by rw [length_encodeBE]; exact lengthOfValue_pos hmax)
  | bytes =>
      simp only [htype] at hw
      cases hw
      dsimp only at h
      unfold writeBytes at h
      split_ifs at h with hfixed hvar
      · unfold writeFixedBytes at h
        split_ifs at h with hlen
        cases h
        exact List.ne_nil_of_length_pos (by omega)
      · obtain ⟨lengthBytes, hlength, h⟩ := except_bind_eq_ok.mp h
        cases h
        obtain ⟨-, -, rfl⟩ := writeBoundedUint_eq_ok hlength
        refine List.ne_nil_of_length_pos ?_
        rw [List.length_append, length_encodeBE]
        have := lengthOfValue_pos hvar
        omega
  | message fields =>
      simp only [htype] at hw
      cases hw
  | other typeNumber =>
      simp only [htype] at hw
      cases hw

theorem readLoop_nil (readOne : ByteString → Except Error (FieldValue × ByteString)) :
    readLoop readOne [] = .ok [] := by
  rw [readLoop, if_pos rfl]
  rfl

theorem readLoop_flatten {readOne : ByteString → Except Error (FieldValue × ByteString)}
    {values : List FieldValue} {encs : List ByteString}
    (h : List.Forall₂ (fun value enc => enc ≠ [] ∧
      ∀ rest, readOne (enc ++ rest) = .ok (value, rest)) values encs) :
    readLoop readOne encs.flatten = .ok values := by
  induction h with
  | nil => exact readLoop_nil readOne
  | @cons value enc values encs hone hrest ih =>
      obtain ⟨hne, hread⟩ := hone
      have hlt : encs.flatten.length < (enc ++ encs.flatten).length := by
        rw [List.length_append]
        have := List.length_pos_of_ne_nil hne
        omega
      rw [List.flatten_cons, readLoop, if_neg (by simp [hne]), hread]
      dsimp only
      rw [if_pos hlt, ih]
      rfl

theorem forall₂_of_mapM_eq_ok {α β ε : Type} {f : α → Except ε β} {xs : List α} {ys : List β}
    (h : xs.mapM f = .ok ys) : List.Forall₂ (fun x y => f x = .ok y) xs ys := by
  induction xs generalizing ys with
  | nil =>
      cases h
      exact .nil
  | cons x xs ih =>
      rw [List.mapM_cons] at h
      obtain ⟨y, hy, h⟩ := except_bind_eq_ok.mp h
      obtain ⟨ys', hys', h⟩ := except_bind_eq_ok.mp h
      cases h
      exact .cons hy (ih hys')

theorem writeRepeated_of_scalar {field : FieldDescriptor}
    (hmessage : ∀ fields, field.type ≠ .message fields) (henum : ∀ enumOpts d, field.type ≠ .enum enumOpts d)
    (elems : List FieldValue) :
    writeRepeated field elems = (do
      let method ← getWriteMethod field
      let encoded ← elems.mapM fun elem => method elem field.opts
      let length ← writeBoundedUint encoded.flatten.length field.opts.minTotalLength
        field.opts.maxTotalLength
      pure (length ++ encoded.flatten)) := by
  rw [writeRepeated]
  split
  · rename_i fields htype
    exact absurd htype (hmessage fields)
  · rename_i enumOpts d htype
    exact absurd htype (henum enumOpts d)
  · simp only [pure_bind]

theorem writeRepeated_of_enum {field : FieldDescriptor} {enumOpts : TLSOptions} {d : Nat}
    (htype : field.type = .enum enumOpts d) (elems : List FieldValue) :
    writeRepeated field elems = (do
      let method ← getWriteMethod field
      let encoded ← elems.mapM fun elem => method elem enumOpts
      let length ← writeBoundedUint encoded.flatten.length enumOpts.minTotalLength
        enumOpts.maxTotalLength
      pure (length ++ encoded.flatten)) := by
  rw [writeRepeated]
  split
  · rename_i fields htype'
    rw [htype] at htype'
    cases htype'
  · rename_i enumOpts' d' htype'
    rw [htype] at htype'
    cases htype'
    simp only [pure_bind]
  · rename_i htype'
    exact absurd htype (htype' enumOpts d)

theorem readRepeated_of_scalar {field : FieldDescriptor}
    (hmessage : ∀ fields, field.type ≠ .message fields) (henum : ∀ enumOpts d, field.type ≠ .enum enumOpts d)
    (hmax : field.opts.maxTotalLength ≠ 0) (message : Message) (buf : ByteString) :
    readRepeated field message buf = (do
      let (content, buf) ← readVarBytes field.opts.minTotalLength field.opts.maxTotalLength buf
      let method ← getReadMethod field
      let elems ← readLoop (method field.opts) content
      pure (setattr message field.name (.list ((getattr message field).asList ++ elems)), buf)) := by
  rw [readRepeated, if_neg hmax]
  congr 1
  funext p
  obtain ⟨content, rest⟩ := p
  dsimp only
  split
  · rename_i fields htype
    exact absurd htype (hmessage fields)
  · rename_i enumOpts d htype
    exact absurd htype (henum enumOpts d)
  · rfl

theorem exists_readMethod {field : FieldDescriptor}
    {write : FieldValue → TLSOptions → Except Error ByteString}
    (hw : getWriteMethod field = .ok write) : ∃ read, getReadMethod field = .ok read := by
  unfold getWriteMethod at hw
  unfold getReadMethod
  cases htype : field.type <;> simp only [htype] at hw ⊢ <;>
    first | exact ⟨_, rfl⟩ | cases hw

/-- A repeated field of a scalar type other than an enum reads back its
elements: the writer bounds the total length by the field's options, as the
reader does. -/
theorem readRepeated_of_writeRepeated {field : FieldDescriptor}
    (hmessage : ∀ fields, field.type ≠ .message fields)
    (henum : ∀ enumOpts d, field.type ≠ .enum enumOpts d) (hmax : field.opts.maxTotalLength ≠ 0)
    {elems : List FieldValue} {bs : ByteString} (h : writeRepeated field elems = .ok bs)
    (message : Message) (rest : ByteString) :
    readRepeated field message (bs ++ rest) =
      .ok (setattr message field.name
        (.list ((getattr message field).asList ++ elems.map (scalarValue field.type))), rest) := by
  rw [writeRepeated_of_scalar hmessage henum] at h
  obtain ⟨write, hw, h⟩ := except_bind_eq_ok.mp h
  obtain ⟨encoded, hencoded, h⟩ := except_bind_eq_ok.mp h
  obtain ⟨lengthBytes, hlength, h⟩ := except_bind_eq_ok.mp h
  cases h
  obtain ⟨hmin, hmaxlen, rfl⟩ := writeBoundedUint_eq_ok hlength
  obtain ⟨read, hr⟩ := exists_readMethod hw
  have helems : List.Forall₂ (fun value enc => enc ≠ [] ∧
      ∀ rest, read field.opts (enc ++ rest) = .ok (value, rest))
      (elems.map (scalarValue field.type)) encoded := by
    rw [List.forall₂_map_left_iff]
    exact (forall₂_of_mapM_eq_ok hencoded).imp fun value enc henc =>
      ⟨writeMethod_ne_nil hw henc, readMethod_of_writeMethod hw hr henc⟩
  rw [readRepeated_of_scalar hmessage henum hmax, readVarBytes_append hmin hmaxlen,
    except_ok_bind]
  dsimp only
  rw [hr, except_ok_bind, readLoop_flatten helems, except_ok_bind]
  rfl

/-- A repeated `uint32` field of one-byte elements under a one-byte total
length writes `[7, 9]` as `[2, 7, 9]` and reads the elements back. -/
theorem readRepeated_of_writeRepeated_uint32 :
    let field : FieldDescriptor :=
      ⟨1, "values", true, .uint32, ⟨1, 255, 0, 0, 0, 0, 255, "", 0, false⟩⟩
    writeRepeated field [.scalar 7, .scalar 9] = .ok [2, 7, 9] ∧
      readRepeated field [] ([2, 7, 9] ++ []) =
        .ok (setattr [] "values"
          (.list ((getattr [] field).asList ++ [.scalar 7, .scalar 9].map (scalarValue .uint32))), []) := by
  intro field
  have hmessage : ∀ fields, field.type ≠ .message fields := fun _ => by simp [field]
  have henum : ∀ enumOpts d, field.type ≠ .enum enumOpts d := fun _ _ => by simp [field]
  have hw : writeRepeated field [.scalar 7, .scalar 9] = .ok [2, 7, 9] := by
    rw [writeRepeated_of_scalar hmessage henum]
    decide +kernel
  exact ⟨hw, readRepeated_of_writeRepeated hmessage henum (by decide) hw [] []⟩

theorem writeEnum_of_le {value : Nat} {opts : TLSOptions} (hmax : opts.maxValue ≠ 0)
    (hle : value ≤ opts.maxValue) :
    writeEnum value opts = .ok (encodeBE value (lengthOfValue opts.maxValue)) := by
  rw [writeEnum, if_neg hmax]
  exact writeBoundedUint_of_le (Nat.zero_le _) hle

theorem writeRepeated_enum_elements {field : FieldDescriptor} {enumOpts : TLSOptions} {d : Nat}
    (htype : field.type = .enum enumOpts d) (hmax : enumOpts.maxValue ≠ 0)
    {elems : List FieldValue} (hle : ∀ elem ∈ elems, elem.asNat ≤ enumOpts.maxValue) :
    writeRepeated field elems =
      writeBoundedUint (elems.length * lengthOfValue enumOpts.maxValue) enumOpts.minTotalLength
          enumOpts.maxTotalLength >>= fun length =>
        pure (length ++
          (elems.map fun elem => encodeBE elem.asNat (lengthOfValue enumOpts.maxValue)).flatten) := by
  have hw : getWriteMethod field = .ok fun value opts => writeEnum value.asNat opts := by
    simp only [getWriteMethod, htype]
    rfl
  have hencoded : elems.mapM (fun elem => writeEnum elem.asNat enumOpts) =
      .ok (elems.map fun elem => encodeBE elem.asNat (lengthOfValue enumOpts.maxValue)) :=
    mapM_eq_ok_of_forall fun elem helem => writeEnum_of_le hmax (hle elem helem)
  have hlen : (elems.map fun elem => encodeBE elem.asNat (lengthOfValue enumOpts.maxValue)).flatten.length =
      elems.length * lengthOfValue enumOpts.maxValue := by
    simp [List.length_flatten, Function.comp_def]
  rw [writeRepeated_of_enum htype, hw, except_ok_bind]
  dsimp only
  rw [hencoded, except_ok_bind, hlen]

theorem writeField_of_repeated {field : FieldDescriptor} (hskip : field.opts.skip = false)
    (hselect : field.opts.selectField = "") (hrep : field.repeated = true)
    (descriptor : List FieldDescriptor) (message : Message) :
    writeField descriptor field message = writeRepeated field (getattr message field).asList := by
  rw [writeField, if_neg (by simp [hskip]), if_neg (by simp [hselect]), if_pos hrep]

@[simp] theorem write_nil (descriptor : List FieldDescriptor) (message : Message) :
    write descriptor [] message = .ok [] := by
  rw [write]
  rfl

theorem write_cons (descriptor : List FieldDescriptor) (field : FieldDescriptor)
    (fields : List FieldDescriptor) (message : Message) :
    write descriptor (field :: fields) message = (do
      let encoded ← writeField descriptor field message
      let rest ← write descriptor fields message
      pure (encoded ++ rest)) := by
  rw [write]

theorem write_append (descriptor xs ys : List FieldDescriptor) (message : Message) :
    write descriptor (xs ++ ys) message = (do
      let encoded ← write descriptor xs message
      let rest ← write descriptor ys message
      pure (encoded ++ rest)) := by
  induction xs with
  | nil =>
      rw [List.nil_append, write]
      simp
  | cons field xs ih =>
      rw [List.cons_append, write_cons, write_cons, ih]
      simp only [bind_assoc, pure_bind, List.append_assoc]

theorem encode_fails_on_repeated_enum (pre post : List FieldDescriptor) {field : FieldDescriptor}
    {enumOpts : TLSOptions} {d : Nat} {message : Message} {encodedPre : ByteString}
    (hpre : write (pre ++ field :: post) pre message = .ok encodedPre) (hskip : field.opts.skip = false)
    (hselect : field.opts.selectField = "") (hrep : field.repeated = true)
    (htype : field.type = .enum enumOpts d) (hmax : enumOpts.maxValue ≠ 0)
    (htotal : enumOpts.maxTotalLength = 0) (hne : (getattr message field).asList ≠ [])
    (hle : ∀ elem ∈ (getattr message field).asList, elem.asNat ≤ enumOpts.maxValue) :
    encode (pre ++ field :: post) message =
      .error (.tlsEncodingError ("Value " ++
        toString ((getattr message field).asList.length * lengthOfValue enumOpts.maxValue) ++
        " out of range ([" ++ toString enumOpts.minTotalLength ++ ", " ++
        toString enumOpts.maxTotalLength ++ "])")) := by
  have hpos : 0 < (getattr message field).asList.length * lengthOfValue enumOpts.maxValue :=
    Nat.mul_pos (List.length_pos_of_ne_nil hne) (lengthOfValue_pos hmax)
  have hfield : writeField (pre ++ field :: post) field message =
      .error (.tlsEncodingError ("Value " ++
        toString ((getattr message field).asList.length * lengthOfValue enumOpts.maxValue) ++
        " out of range ([" ++ toString enumOpts.minTotalLength ++ ", " ++
        toString enumOpts.maxTotalLength ++ "])")) := by
    rw [writeField_of_repeated hskip hselect hrep, writeRepeated_enum_elements htype hmax hle,
      writeBoundedUint_of_gt (by omega)]
    rfl
  rw [encode, write_append, hpre, except_ok_bind, write_cons, hfield]
  rfl

theorem encode_fails_on_repeated_enum_single :
    ∃ e, encode [⟨1, "types", true, .enum ⟨0, 255, 0, 0, 0, 0, 0, "", 0, false⟩ 0,
        ⟨0, 0, 0, 0, 0, 0, 0xffff, "", 0, false⟩⟩] [("types", .list [.scalar 1])] = .error e :=
  ⟨_, encode_fails_on_repeated_enum [] [] (write_nil _ _) rfl rfl rfl rfl (by decide) rfl
    (by simp [getattr, FieldValue.asList]) (by simp [getattr, FieldValue.asList, FieldValue.asNat])⟩

end CertTrans.Python.TlsMessage
