import CertTrans.Proto.SerializerRoundTrip

/-!
`Serializer::SerializeList` and `Deserializer::DeserializeList` of
`serializer.cc`: a list of nonempty byte strings, each behind a length prefix
of `PrefixLength(max_elem_length)` bytes, the whole behind a length prefix of
`PrefixLength(max_total_length)` bytes.

Unlike the SCT writers, `WriteList` bounds a length only by its maximum, never
by the width of its prefix, so the `CHECK`s of `WriteUint` and `WriteVarBytes`
are modelled here; the process ending is the outer `Except String`.  Lengths
and maxima are `size_t`.  The subtractions of `SerializedListLength` never go
below zero, since its loop keeps `total_length ≤ max_total_length`.  The
maxima are positive, as `PrefixLength`'s `CHECK_GT(max_length, 0U)` requires.
-/

namespace CertTrans

open Serializer

namespace TLSSerializer

/-- `WriteUint` on a `size_t`, with its `CHECK`s that the width is at most the
eight bytes of the value and that the value fits the width. -/
def writeUintChecked (value bytes : Nat) : Except String ByteString :=
  if bytes > 8 then throw "Check failed: bytes <= sizeof(in)"
  else if bytes = 8 ∨ value >>> (bytes * 8) = 0 then return writeUint value bytes
  else throw "Check failed: bytes == sizeof(in) || in >> (bytes * 8) == 0"

/-- `WriteVarBytes` with its `CHECK_LE(in.size(), max_length)` and the
`CHECK`s of the `WriteUint` of the length. -/
def writeVarBytesChecked (value : ByteString) (maxLength : Nat) : Except String ByteString :=
  if value.length > maxLength then throw "Check failed: in.size() <= max_length"
  else do
    let length ← writeUintChecked value.length (prefixLength maxLength)
    return length ++ writeFixedBytes value

def checkListElems (maxElemLength : Nat) : List ByteString → SerializeResult
  | [] => .ok
  | x :: rest =>
      if x.isEmpty then .emptyElemInList
      else if x.length > maxElemLength then .listElemTooLong
      else checkListElems maxElemLength rest

end TLSSerializer

def serializedListLengthFrom (maxElemLength maxTotalLength totalLength : Nat) :
    List ByteString → Nat
  | [] => totalLength + prefixLength maxTotalLength
  | x :: rest =>
      if x.length > maxElemLength ∨ maxTotalLength - totalLength < prefixLength maxElemLength ∨
          maxTotalLength - totalLength - prefixLength maxElemLength < x.length then 0
      else
        serializedListLengthFrom maxElemLength maxTotalLength
          (totalLength + (prefixLength maxElemLength + x.length)) rest

def serializedListLength (input : List ByteString) (maxElemLength maxTotalLength : Nat) : Nat :=
  serializedListLengthFrom maxElemLength maxTotalLength 0 input

namespace TLSSerializer

def writeList (input : List ByteString) (maxElemLength maxTotalLength : Nat) :
    Except String (Except SerializeResult ByteString) :=
  let res := checkListElems maxElemLength input
  if res ≠ .ok then return .error res
  else
    let length := serializedListLength input maxElemLength maxTotalLength
    if length = 0 then return .error .listTooLong
    else if length < prefixLength maxTotalLength then throw "Check failed: length >= prefix_length"
    else do
      let header ←
        writeUintChecked (length - prefixLength maxTotalLength) (prefixLength maxTotalLength)
      let elems ← input.mapM fun x => writeVarBytesChecked x maxElemLength
      return .ok (header ++ elems.flatten)

end TLSSerializer

def Serializer.serializeList (input : List ByteString) (maxElemLength maxTotalLength : Nat) :
    Except String (Except SerializeResult ByteString) :=
  TLSSerializer.writeList input maxElemLength maxTotalLength

namespace TLSDeserializer

def readListEntries (maxElemLength : Nat) (listReader : ByteString) :
    Except DeserializeResult (List ByteString) :=
  if listReader = [] then return []
  else
    match _h : (readVarBytes maxElemLength).run listReader with
    | none => throw .invalidListEncoding
    | some (elem, rest) =>
        if _hempty : elem.isEmpty then throw .emptyElemInList
        else (elem :: ·) <$> readListEntries maxElemLength rest
termination_by listReader.length
decreasing_by
  obtain ⟨-, hsplit⟩ := readVarBytes_run_eq_some _h
  have hlen := congrArg List.length hsplit
  simp only [TLSSerializer.writeVarBytes, TLSSerializer.writeUint, TLSSerializer.writeFixedBytes,
    List.length_append, Codec.length_encodeBE] at hlen
  have hpos : 0 < elem.length := List.length_pos_iff.mpr (by simpa using _hempty)
  omega

def readList (maxTotalLength maxElemLength : Nat) : ReadM (List ByteString) := do
  let serializedList ← (readVarBytes maxTotalLength).orThrow .inputTooShort
  let rest ← get
  if rest ≠ [] then throw .inputTooLong
  else
    match readListEntries maxElemLength serializedList with
    | .ok out => return out
    | .error res => throw res

end TLSDeserializer

/-- `Deserializer::DeserializeList` into an empty `out`. -/
def Deserializer.deserializeList (input : ByteString) (maxTotalLength maxElemLength : Nat) :
    Except DeserializeResult (List ByteString) := do
  let (out, rest) ← (TLSDeserializer.readList maxTotalLength maxElemLength).run input
  if rest ≠ [] then throw .inputTooLong else return out

end CertTrans
