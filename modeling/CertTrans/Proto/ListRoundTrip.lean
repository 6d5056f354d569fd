import Mathlib.Analysis.SpecialFunctions.Log.Base
import CertTrans.Proto.ListSerializer

/-!
The list codec of `serializer.cc` against itself.

`PrefixLength(m)` is `⌈log₂ m / 8⌉`, the base-256 ceiling logarithm, so a
prefix of that many bytes holds every length up to `m` except `m` itself when
`m` is a power of `256`.  Whatever the maxima, a list that `SerializeList`
writes is read back by `DeserializeList`; where no maximum is a power of `256`,
`SerializeList` returns the first error or the encoding and never ends the
process, and what `DeserializeList` accepts is what `SerializeList` writes.
At a power of `256` an admissible element or total length ends the process.
-/

namespace CertTrans

open Serializer TLSSerializer TLSDeserializer Deserializer

section PrefixLength

theorem prefixLengthFrom_eq_clog {maxLength fuel k : Nat} (hk : k ≤ Nat.clog 256 maxLength)
    (hfuel : Nat.clog 256 maxLength ≤ k + fuel) :
    prefixLengthFrom maxLength fuel k = Nat.clog 256 maxLength := by
  induction fuel generalizing k with
  | zero =>
      rw [prefixLengthFrom]
      omega
  | succ fuel ih =>
      rw [prefixLengthFrom]
      split_ifs with hle
      · exact le_antisymm hk (Nat.clog_le_of_le_pow hle)
      · -- `256 ^ k < maxLength`: the width is above `k`
        have hlt : k < Nat.clog 256 maxLength :=
          (Nat.lt_clog_iff_pow_lt (by decide)).mpr (Nat.lt_of_not_le hle)
        exact ih hlt (by omega)

theorem prefixLength_eq_clog (maxLength : Nat) :
    prefixLength maxLength = Nat.clog 256 maxLength := by
  have hpow : maxLength ≤ 256 ^ maxLength :=
    calc maxLength ≤ 2 ^ maxLength := (Nat.lt_two_pow_self).le
      _ ≤ 256 ^ maxLength := Nat.pow_le_pow_left (by decide) maxLength
  exact prefixLengthFrom_eq_clog (Nat.zero_le _) (by simpa using Nat.clog_le_of_le_pow hpow)

theorem prefixLength_le_eight {maxLength : Nat} (h : maxLength < 2 ^ 64) :
    prefixLength maxLength ≤ 8 := by
  rw [prefixLength_eq_clog]
  exact Nat.clog_le_of_le_pow (by norm_num at h ⊢; omega)

end PrefixLength

section Writers

theorem shiftRight_mul_eight_eq_zero_iff (value bytes : Nat) :
    value >>> (bytes * 8) = 0 ↔ value < 256 ^ bytes := by
  rw [Nat.mul_comm, Codec.shiftRight_eight_mul, Nat.div_eq_zero_iff_lt (Nat.pow_pos (by decide))]

theorem writeUintChecked_of_lt {value bytes : Nat} (hb : bytes ≤ 8) (h : value < 256 ^ bytes) :
    writeUintChecked value bytes = .ok (writeUint value bytes) := by
  rw [writeUintChecked, if_neg (by omega),
    if_pos (Or.inr ((shiftRight_mul_eight_eq_zero_iff value bytes).mpr h))]
  rfl

theorem writeUintChecked_of_pow_le {value bytes : Nat} (hb : bytes < 8) (h : 256 ^ bytes ≤ value) :
    writeUintChecked value bytes =
      .error "Check failed: bytes == sizeof(in) || in >> (bytes * 8) == 0" := by
  have hshift : value >>> (bytes * 8) ≠ 0 := fun h0 =>
    absurd ((shiftRight_mul_eight_eq_zero_iff value bytes).mp h0) (Nat.not_lt.mpr h)
  rw [writeUintChecked, if_neg (by omega), if_neg (by omega)]
  rfl

theorem writeVarBytesChecked_of_lt {value : ByteString} {maxLength : Nat}
    (hb : prefixLength maxLength ≤ 8) (hlen : value.length ≤ maxLength)
    (hfit : value.length < 256 ^ prefixLength maxLength) :
    writeVarBytesChecked value maxLength = .ok (writeVarBytes value maxLength) := by
  rw [writeVarBytesChecked, if_neg (by omega), writeUintChecked_of_lt hb hfit]
  rfl

theorem writeVarBytesChecked_of_pow_le {value : ByteString} {maxLength : Nat}
    (hb : prefixLength maxLength < 8) (hlen : value.length ≤ maxLength)
    (hfit : 256 ^ prefixLength maxLength ≤ value.length) :
    writeVarBytesChecked value maxLength =
      .error "Check failed: bytes == sizeof(in) || in >> (bytes * 8) == 0" := by
  rw [writeVarBytesChecked, if_neg (by omega), writeUintChecked_of_pow_le hb hfit]
  rfl

end Writers

section Encoding

def listBytes (maxElemLength : Nat) (input : List ByteString) : ByteString :=
  (input.map fun x => writeVarBytes x maxElemLength).flatten

@[simp] theorem listBytes_nil (maxElemLength : Nat) : listBytes maxElemLength [] = [] := rfl

@[simp] theorem listBytes_cons (maxElemLength : Nat) (x : ByteString) (xs : List ByteString) :
    listBytes maxElemLength (x :: xs) = writeVarBytes x maxElemLength ++ listBytes maxElemLength xs :=
  rfl

def ElemFits (maxElemLength : Nat) (x : ByteString) : Prop :=
  x ≠ [] ∧ x.length ≤ maxElemLength ∧ x.length < 256 ^ prefixLength maxElemLength

theorem length_writeVarBytes (value : ByteString) (maxLength : Nat) :
    (writeVarBytes value maxLength).length = prefixLength maxLength + value.length := by
  simp [writeVarBytes, writeUint, writeFixedBytes]

theorem listBytes_eq_nil_iff {maxElemLength : Nat} {input : List ByteString}
    (hne : ∀ x ∈ input, x ≠ []) : listBytes maxElemLength input = [] ↔ input = [] := by
  cases input with
  | nil => simp
  | cons x xs =>
      have hx : writeVarBytes x maxElemLength ≠ [] := by
        rw [← List.length_pos_iff, length_writeVarBytes]
        have := List.length_pos_iff.mpr (hne x List.mem_cons_self)
        omega
      simp [hx]

theorem checkListElems_eq_ok_iff (maxElemLength : Nat) (input : List ByteString) :
    checkListElems maxElemLength input = .ok ↔ ∀ x ∈ input, x ≠ [] ∧ x.length ≤ maxElemLength := by
  induction input with
  | nil => simp [checkListElems]
  | cons x xs ih =>
      rw [checkListElems, List.forall_mem_cons, ← ih]
      by_cases hempty : x.isEmpty
      · obtain rfl : x = [] := List.isEmpty_iff.mp hempty
        simp
      · have hne : x ≠ [] := fun h => hempty (List.isEmpty_iff.mpr h)
        by_cases hlong : x.length > maxElemLength
        · simp [hempty, hlong]
        · simp [hempty, hlong, hne]
          omega

theorem serializedListLengthFrom_eq {maxElemLength maxTotalLength total : Nat}
    {input : List ByteString} (hElems : ∀ x ∈ input, x.length ≤ maxElemLength)
    (htotal : total ≤ maxTotalLength) :
    serializedListLengthFrom maxElemLength maxTotalLength total input =
      if total + (listBytes maxElemLength input).length ≤ maxTotalLength then
        total + (listBytes maxElemLength input).length + prefixLength maxTotalLength
      else 0 := by
  induction input generalizing total with
  | nil => simp [serializedListLengthFrom, htotal]
  | cons x xs ih =>
      have hx := hElems x List.mem_cons_self
      have hlen : (listBytes maxElemLength (x :: xs)).length =
          prefixLength maxElemLength + x.length + (listBytes maxElemLength xs).length := by
        rw [listBytes_cons, List.length_append, length_writeVarBytes]
      rw [serializedListLengthFrom, hlen]
      by_cases hover : maxTotalLength < total + (prefixLength maxElemLength + x.length)
      · -- this element takes the total past the maximum
        rw [if_pos (by omega), if_neg (by omega)]
      · rw [if_neg (by omega), ih (fun y hy => hElems y (List.mem_cons_of_mem x hy)) (by omega)]
        simp only [Nat.add_assoc]

theorem serializedListLength_eq {maxElemLength maxTotalLength : Nat} {input : List ByteString}
    (hElems : ∀ x ∈ input, x.length ≤ maxElemLength) :
    serializedListLength input maxElemLength maxTotalLength =
      if (listBytes maxElemLength input).length ≤ maxTotalLength then
        (listBytes maxElemLength input).length + prefixLength maxTotalLength
      else 0 := by
  rw [serializedListLength, serializedListLengthFrom_eq hElems (Nat.zero_le _)]
  simp only [Nat.zero_add]

theorem mapM_writeVarBytesChecked {maxElemLength : Nat} {input : List ByteString}
    (hElems : ∀ x ∈ input, x.length ≤ maxElemLength) (hb : prefixLength maxElemLength ≤ 8)
    (hmax : maxElemLength < 2 ^ 64) :
    input.mapM (fun x => writeVarBytesChecked x maxElemLength) =
      if ∃ x ∈ input, 256 ^ prefixLength maxElemLength ≤ x.length then
        .error "Check failed: bytes == sizeof(in) || in >> (bytes * 8) == 0"
      else .ok (input.map fun x => writeVarBytes x maxElemLength) := by
  induction input with
  | nil =>
      rw [List.mapM_nil, if_neg (by simp)]
      rfl
  | cons x xs ih =>
      have hx := hElems x List.mem_cons_self
      have hxs := ih fun y hy => hElems y (List.mem_cons_of_mem x hy)
      rw [List.mapM_cons]
      by_cases hfit : 256 ^ prefixLength maxElemLength ≤ x.length
      · -- the width is below eight bytes, since a `size_t` length fits eight
        have hlt : prefixLength maxElemLength < 8 := by
          rcases Nat.lt_or_eq_of_le hb with hlt | heq
          · exact hlt
          · rw [heq] at hfit
            norm_num at hfit
            omega
        rw [writeVarBytesChecked_of_pow_le hlt hx hfit, if_pos ⟨x, List.mem_cons_self, hfit⟩]
        rfl
      · rw [writeVarBytesChecked_of_lt hb hx (Nat.lt_of_not_le hfit), Codec.except_ok_bind, hxs]
        by_cases hrest : ∃ y ∈ xs, 256 ^ prefixLength maxElemLength ≤ y.length
        · rw [if_pos hrest, if_pos (by obtain ⟨y, hy, hyfit⟩ := hrest; exact ⟨y, by simp [hy], hyfit⟩)]
          rfl
        · have hall : ¬ ∃ y ∈ x :: xs, 256 ^ prefixLength maxElemLength ≤ y.length := by
            rintro ⟨y, hy, hyfit⟩
            rcases List.mem_cons.mp hy with rfl | hy
            · exact hfit hyfit
            · exact hrest ⟨y, hy, hyfit⟩
          rw [if_neg hrest, if_neg hall]
          rfl

end Encoding

section Serialize

variable {input : List ByteString} {maxElemLength maxTotalLength : Nat}

theorem prefixLength_lt_eight {length maxLength : Nat} (hmax : maxLength < 2 ^ 64)
    (hlen : length ≤ maxLength) (hfit : 256 ^ prefixLength maxLength ≤ length) :
    prefixLength maxLength < 8 := by
  rcases Nat.lt_or_eq_of_le (prefixLength_le_eight hmax) with hlt | heq
  · exact hlt
  · rw [heq] at hfit
    norm_num at hfit
    omega

theorem serializeList_eq (hElem : maxElemLength < 2 ^ 64) (hTotal : maxTotalLength < 2 ^ 64) :
    serializeList input maxElemLength maxTotalLength =
      if checkListElems maxElemLength input ≠ .ok then
        .ok (.error (checkListElems maxElemLength input))
      else if maxTotalLength < (listBytes maxElemLength input).length ∨
          (listBytes maxElemLength input).length + prefixLength maxTotalLength = 0 then
        .ok (.error .listTooLong)
      else if 256 ^ prefixLength maxTotalLength ≤ (listBytes maxElemLength input).length ∨
          ∃ x ∈ input, 256 ^ prefixLength maxElemLength ≤ x.length then
        .error "Check failed: bytes == sizeof(in) || in >> (bytes * 8) == 0"
      else .ok (.ok (writeVarBytes (listBytes maxElemLength input) maxTotalLength)) := by
  rw [serializeList, writeList]
  dsimp only
  by_cases hcheck : checkListElems maxElemLength input = .ok
  · have hlen : ∀ x ∈ input, x.length ≤ maxElemLength := fun x hx =>
      ((checkListElems_eq_ok_iff maxElemLength input).mp hcheck x hx).2
    rw [if_neg (not_not.mpr hcheck), if_neg (not_not.mpr hcheck), serializedListLength_eq hlen]
    by_cases htoo : maxTotalLength < (listBytes maxElemLength input).length ∨
        (listBytes maxElemLength input).length + prefixLength maxTotalLength = 0
    · -- `SerializedListLength` gave `0`
      rw [if_pos htoo, if_pos (by split_ifs <;> omega)]
      rfl
    · have hle : (listBytes maxElemLength input).length ≤ maxTotalLength := by omega
      rw [if_neg htoo, if_pos hle, if_neg (by omega), if_neg (by omega), Nat.add_sub_cancel]
      by_cases hheader : 256 ^ prefixLength maxTotalLength ≤ (listBytes maxElemLength input).length
      · -- the length of the list does not fit its prefix
        rw [writeUintChecked_of_pow_le (prefixLength_lt_eight hTotal hle hheader) hheader,
          if_pos (Or.inl hheader)]
        rfl
      · rw [writeUintChecked_of_lt (prefixLength_le_eight hTotal) (Nat.lt_of_not_le hheader),
          Codec.except_ok_bind,
          mapM_writeVarBytesChecked hlen (prefixLength_le_eight hElem) hElem]
        by_cases helem : ∃ x ∈ input, 256 ^ prefixLength maxElemLength ≤ x.length
        · rw [if_pos helem, if_pos (Or.inr helem)]
          rfl
        · rw [if_neg helem, if_neg (not_or.mpr ⟨hheader, helem⟩)]
          rfl
  · rw [if_pos hcheck, if_pos hcheck]
    rfl

end Serialize

section Deserialize

variable {maxElemLength maxTotalLength : Nat}

theorem readListEntries_listBytes {input : List ByteString}
    (h : ∀ x ∈ input, ElemFits maxElemLength x) :
    readListEntries maxElemLength (listBytes maxElemLength input) = .ok input := by
  induction input with
  | nil =>
      rw [readListEntries, if_pos (listBytes_nil _)]
      rfl
  | cons x xs ih =>
      obtain ⟨hne, hle, hfit⟩ := h x List.mem_cons_self
      have hxs := ih fun y hy => h y (List.mem_cons_of_mem x hy)
      have hrun := readVarBytes_run_append_of_lt hle hfit (listBytes maxElemLength xs)
      have hbytes : listBytes maxElemLength (x :: xs) ≠ [] :=
        (listBytes_eq_nil_iff fun y hy => (h y hy).1).not.mpr (List.cons_ne_nil x xs)
      rw [readListEntries, if_neg hbytes]
      split
      · rename_i hnone
        rw [listBytes_cons, hrun] at hnone
        cases hnone
      · rename_i elem rest hsome
        rw [listBytes_cons, hrun] at hsome
        cases hsome
        rw [dif_neg (by simpa using hne), hxs]
        rfl

theorem readListEntries_eq_ok {bytes : ByteString} {out : List ByteString}
    (h : readListEntries maxElemLength bytes = .ok out) :
    bytes = listBytes maxElemLength out ∧ ∀ x ∈ out, ElemFits maxElemLength x := by
  fun_induction readListEntries maxElemLength bytes generalizing out with
  | case1 =>
      cases h
      exact ⟨rfl, by simp⟩
  | case2 => cases h
  | case3 => cases h
  | case4 listReader hbytes elem rest hrun hempty ih =>
      obtain ⟨tail, htail, rfl⟩ := Codec.except_map_eq_ok.mp h
      obtain ⟨hrest, hfits⟩ := ih htail
      obtain ⟨hle, hsplit⟩ := readVarBytes_run_eq_some hrun
      have hfit := length_lt_of_readVarBytes_run hrun
      refine ⟨by rw [hsplit, hrest, listBytes_cons], ?_⟩
      intro x hx
      rcases List.mem_cons.mp hx with rfl | hx
      · exact ⟨by simpa using hempty, hle, hfit⟩
      · exact hfits x hx

theorem readList_run_eq_ok {input rest : ByteString} {out : List ByteString}
    (h : (readList maxTotalLength maxElemLength).run input = .ok (out, rest)) :
    rest = [] ∧ input = writeVarBytes (listBytes maxElemLength out) maxTotalLength ∧
      (listBytes maxElemLength out).length ≤ maxTotalLength ∧
      (listBytes maxElemLength out).length < 256 ^ prefixLength maxTotalLength ∧
      ∀ x ∈ out, ElemFits maxElemLength x := by
  obtain ⟨serialized, mid, hread, h⟩ := Codec.bind_run_eq_ok h
  have hrun := Codec.Reader.orThrow_run_eq_ok hread
  obtain ⟨hle, hsplit⟩ := readVarBytes_run_eq_some hrun
  have hfit := length_lt_of_readVarBytes_run hrun
  obtain ⟨mid', mid'', hget, h⟩ := Codec.bind_run_eq_ok h
  cases hget
  split at h
  · cases h
  · rename_i hmid
    rw [not_not] at hmid
    subst hmid
    split at h
    · rename_i entries hentries
      cases h
      obtain ⟨rfl, hfits⟩ := readListEntries_eq_ok hentries
      exact ⟨rfl, by rw [hsplit, List.append_nil], hle, hfit, hfits⟩
    · cases h

theorem deserializeList_eq_ok_iff {input : ByteString} {out : List ByteString} :
    deserializeList input maxTotalLength maxElemLength = .ok out ↔
      input = writeVarBytes (listBytes maxElemLength out) maxTotalLength ∧
      (listBytes maxElemLength out).length ≤ maxTotalLength ∧
      (listBytes maxElemLength out).length < 256 ^ prefixLength maxTotalLength ∧
      ∀ x ∈ out, ElemFits maxElemLength x := by
  constructor
  · intro h
    obtain ⟨⟨out', rest⟩, hrun, h⟩ := Codec.except_bind_eq_ok.mp h
    obtain ⟨rfl, hinput, hle, hfit, hfits⟩ := readList_run_eq_ok hrun
    cases h
    exact ⟨hinput, hle, hfit, hfits⟩
  · rintro ⟨rfl, hle, hfit, hfits⟩
    have hread := readVarBytes_run_append_of_lt hle hfit []
    rw [List.append_nil] at hread
    have hrun : (readList maxTotalLength maxElemLength).run
        (writeVarBytes (listBytes maxElemLength out) maxTotalLength) = .ok (out, []) := by
      simp only [readList, StateT.run_bind, Codec.Reader.orThrow_run_of_some hread,
        StateT.run_get, pure_bind]
      rw [if_neg (not_not.mpr rfl), readListEntries_listBytes hfits]
      rfl
    rw [deserializeList, hrun]
    rfl

end Deserialize

section RoundTrip

variable {input : List ByteString} {maxElemLength maxTotalLength : Nat}

theorem eq_of_serializeList_eq_ok (hElem : maxElemLength < 2 ^ 64)
    (hTotal : maxTotalLength < 2 ^ 64) {b : ByteString}
    (h : serializeList input maxElemLength maxTotalLength = .ok (.ok b)) :
    b = writeVarBytes (listBytes maxElemLength input) maxTotalLength ∧
      (listBytes maxElemLength input).length ≤ maxTotalLength ∧
      (listBytes maxElemLength input).length < 256 ^ prefixLength maxTotalLength ∧
      ∀ x ∈ input, ElemFits maxElemLength x := by
  rw [serializeList_eq hElem hTotal] at h
  by_cases hcheck : checkListElems maxElemLength input ≠ .ok
  · rw [if_pos hcheck] at h
    cases h
  rw [if_neg hcheck] at h
  by_cases htoo : maxTotalLength < (listBytes maxElemLength input).length ∨
      (listBytes maxElemLength input).length + prefixLength maxTotalLength = 0
  · rw [if_pos htoo] at h
    cases h
  rw [if_neg htoo] at h
  by_cases habort : 256 ^ prefixLength maxTotalLength ≤ (listBytes maxElemLength input).length ∨
      ∃ x ∈ input, 256 ^ prefixLength maxElemLength ≤ x.length
  · rw [if_pos habort] at h
    cases h
  rw [if_neg habort] at h
  obtain rfl : writeVarBytes (listBytes maxElemLength input) maxTotalLength = b := by
    simpa using h
  have hElems := (checkListElems_eq_ok_iff maxElemLength input).mp (not_not.mp hcheck)
  refine ⟨rfl, by omega, Nat.lt_of_not_le fun hle => habort (Or.inl hle), fun x hx => ?_⟩
  exact ⟨(hElems x hx).1, (hElems x hx).2,
    Nat.lt_of_not_le fun hle => habort (Or.inr ⟨x, hx, hle⟩)⟩

theorem deserializeList_of_serializeList (hElem : maxElemLength < 2 ^ 64)
    (hTotal : maxTotalLength < 2 ^ 64) {b : ByteString}
    (h : serializeList input maxElemLength maxTotalLength = .ok (.ok b)) :
    deserializeList b maxTotalLength maxElemLength = .ok input := by
  obtain ⟨rfl, hle, hfit, hfits⟩ := eq_of_serializeList_eq_ok hElem hTotal h
  exact deserializeList_eq_ok_iff.mpr ⟨rfl, hle, hfit, hfits⟩

/-- What `DeserializeList` accepts, `SerializeList` writes, except the empty
list behind a prefix of no bytes. -/
theorem serializeList_of_deserializeList (hElem : maxElemLength < 2 ^ 64)
    (hTotal : maxTotalLength < 2 ^ 64) {b : ByteString}
    (h : deserializeList b maxTotalLength maxElemLength = .ok input)
    (hne : input ≠ [] ∨ 0 < prefixLength maxTotalLength) :
    serializeList input maxElemLength maxTotalLength = .ok (.ok b) := by
  obtain ⟨rfl, hle, hfit, hfits⟩ := deserializeList_eq_ok_iff.mp h
  have hcheck : checkListElems maxElemLength input = .ok :=
    (checkListElems_eq_ok_iff maxElemLength input).mpr fun x hx => ⟨(hfits x hx).1, (hfits x hx).2.1⟩
  have hbytes : (listBytes maxElemLength input).length + prefixLength maxTotalLength ≠ 0 := by
    rcases hne with hne | hpos
    · have hnil : listBytes maxElemLength input ≠ [] :=
        (listBytes_eq_nil_iff fun x hx => (hfits x hx).1).not.mpr hne
      have := List.length_pos_iff.mpr hnil
      omega
    · omega
  have helem : ¬ ∃ x ∈ input, 256 ^ prefixLength maxElemLength ≤ x.length := by
    rintro ⟨x, hx, hxle⟩
    exact absurd (hfits x hx).2.2 (Nat.not_lt.mpr hxle)
  rw [serializeList_eq hElem hTotal, if_neg (not_not.mpr hcheck), if_neg (by omega),
    if_neg (not_or.mpr ⟨Nat.not_le.mpr hfit, helem⟩)]

/-- The bytes `[2, 1, 7]` deserialize, under one-byte prefixes, to `[[7]]`,
which serializes back to them. -/
theorem serializeList_of_deserializeList_one_elem :
    deserializeList [2, 1, 7] 255 255 = .ok [[7]] ∧ serializeList [[7]] 255 255 = .ok (.ok [2, 1, 7]) :=
  have h : deserializeList [2, 1, 7] 255 255 = .ok [[7]] := by decide +kernel
  ⟨h, serializeList_of_deserializeList (by norm_num) (by norm_num) h (.inl (List.cons_ne_nil _ _))⟩

/-- `SerializeList` of one admissible element of `256` bytes under a maximum of
`256` ends the process, although the element is within its maximum; and the empty list
under a total maximum of `1`, which `DeserializeList` reads from no bytes, is
`LIST_TOO_LONG`. -/
theorem serializeList_aborts_at_power_of_256 :
    serializeList [List.replicate 256 0] 256 65535 =
        .error "Check failed: bytes == sizeof(in) || in >> (bytes * 8) == 0" ∧
      deserializeList [] 1 1 = .ok [] ∧ serializeList [] 1 1 = .ok (.error .listTooLong) := by
  decide +kernel

end RoundTrip

end CertTrans
