import CertTrans.Merkletree.Basic
import CertTrans.Codec.Bytes

/-!
The TLS wire codec of the Python client (`ct/serialization/tls_message.py`):
protocol buffer messages written and read field by field in the order of
their numbers, each field as its `tls_opts` direct.

Integers take a fixed number of big-endian bytes (`bytes_in_use`, or the
width of a bound), byte strings a fixed length or a length prefix, a
repeated field a total-length prefix, and a nested message its fields in
place.  `skip` leaves a field out and `select_field`/`select_value` keep it
only when an earlier field holds the value.

A descriptor is its list of fields in number order (the order
`sorted(fields)` walks), a message the list of its set fields by name; a
field that is not set reads as the protobuf default of its type.
-/

namespace CertTrans.Python.TlsMessage

inductive Error
  | tlsDecodingError (message : String)
  | tlsEncodingError (message : String)
  | typeError (message : String)
  -- a `while not reader.finished()` loop whose pass read nothing and so
  -- repeats forever
  | loopsForever
deriving Repr, DecidableEq

/-- `TLSOptions` of `tls_options.proto`; an option that is not set reads as
its protobuf default, `0`, `""` or `false`. -/
structure TLSOptions where
  bytesInUse : Nat
  maxValue : Nat
  fixedLength : Nat
  minLength : Nat
  maxLength : Nat
  minTotalLength : Nat
  maxTotalLength : Nat
  selectField : String
  selectValue : Nat
  skip : Bool
deriving Repr, DecidableEq

mutual
inductive FieldType
  | uint32
  | uint64
  | enum (enumOpts : TLSOptions) (defaultValue : Nat)
  | bytes
  | message (fields : List FieldDescriptor)
  | other (typeNumber : Nat)

structure FieldDescriptor where
  number : Nat
  name : String
  repeated : Bool
  type : FieldType
  opts : TLSOptions
end

/-- `FieldDescriptor.TYPE_*`. -/
def FieldType.typeNumber : FieldType → Nat
  | .uint32 => 13
  | .uint64 => 4
  | .enum _ _ => 14
  | .bytes => 12
  | .message _ => 11
  | .other typeNumber => typeNumber

inductive FieldValue
  | scalar (value : Nat)
  | bytes (value : ByteString)
  | message (fields : List (String × FieldValue))
  | list (elems : List FieldValue)

abbrev Message := List (String × FieldValue)

def FieldValue.asNat : FieldValue → Nat
  | .scalar value => value
  | _ => 0

def FieldValue.asBytes : FieldValue → ByteString
  | .bytes value => value
  | _ => []

def FieldValue.asMessage : FieldValue → Message
  | .message fields => fields
  | _ => []

def FieldValue.asList : FieldValue → List FieldValue
  | .list elems => elems
  | _ => []

def FieldDescriptor.default (field : FieldDescriptor) : FieldValue :=
  if field.repeated then .list []
  else match field.type with
    | .bytes => .bytes []
    | .message _ => .message []
    | .enum _ defaultValue => .scalar defaultValue
    | _ => .scalar 0

/-- `getattr(message, field.name)`. -/
def getattr (message : Message) (field : FieldDescriptor) : FieldValue :=
  (message.lookup field.name).getD field.default

/-- `getattr(message, opts.select_field)`, the enum a variant is selected
by: its value, or the default of the field of that name in the descriptor. -/
def selectedValue (descriptor : List FieldDescriptor) (message : Message) (name : String) : Nat :=
  match message.lookup name with
  | some value => value.asNat
  | none => ((descriptor.find? (·.name == name)).map (·.default.asNat)).getD 0

/-- `setattr(message, name, value)`. -/
def setattr (message : Message) (name : String) (value : FieldValue) : Message :=
  (name, value) :: message.filter (fun entry => entry.1 != name)

def rawString (value : ByteString) : String :=
  String.ofList (value.map fun b => Char.ofNat b.toNat)

/-- `int(math.ceil(math.log(max_value + 1, 256)))`: the number of base-256
digits of `max_value`.  The options are `uint32`, and on that range the
floating-point logarithm rounds to the exact digit count. -/
def lengthOfValue (maxValue : Nat) : Nat :=
  if maxValue = 0 then 0 else lengthOfValue (maxValue / 256) + 1

/-- `bytes_in_use or default`. -/
def widthOr (bytesInUse default : Nat) : Nat :=
  if bytesInUse = 0 then default else bytesInUse

theorem sizeOf_lt_of_type_eq_message {field : FieldDescriptor} {fields : List FieldDescriptor}
    (h : field.type = .message fields) : sizeOf fields < sizeOf field := by
  obtain ⟨number, name, repeated, type, opts⟩ := field
  subst h
  simp only [FieldDescriptor.mk.sizeOf_spec, FieldType.message.sizeOf_spec]
  omega

/-- `_read_fixed_bytes`. -/
def readFixedBytes (numBytes : Nat) (buf : ByteString) :
    Except Error (ByteString × ByteString) :=
  if buf.length < numBytes then
    throw (.tlsDecodingError ("Buffer underrun: need " ++ toString numBytes ++ " bytes, have " ++
      toString buf.length ++ " bytes"))
  else pure (buf.take numBytes, buf.drop numBytes)

/-- `_read_uint`. -/
def readUint (numBytes : Nat) (buf : ByteString) : Except Error (Nat × ByteString) := do
  let (intBytes, buf) ← readFixedBytes numBytes buf
  pure (Codec.decodeBE intBytes, buf)

/-- `_read_bounded_uint`. -/
def readBoundedUint (minValue maxValue : Nat) (buf : ByteString) :
    Except Error (Nat × ByteString) := do
  let (value, buf) ← readUint (lengthOfValue maxValue) buf
  if value < minValue ∨ value > maxValue then
    throw (.tlsDecodingError ("Value " ++ toString value ++ " is out of range ([" ++
      toString minValue ++ ", " ++ toString maxValue ++ "])"))
  else pure (value, buf)

/-- `_read_uint32`. -/
def readUint32 (opts : TLSOptions) (buf : ByteString) : Except Error (Nat × ByteString) :=
  readUint (widthOr opts.bytesInUse 4) buf

/-- `_read_uint64`. -/
def readUint64 (opts : TLSOptions) (buf : ByteString) : Except Error (Nat × ByteString) :=
  readUint (widthOr opts.bytesInUse 8) buf

/-- `_read_enum`. -/
def readEnum (opts : TLSOptions) (buf : ByteString) : Except Error (Nat × ByteString) :=
  if opts.maxValue = 0 then throw (.typeError "Enum field has no maximum value")
  else readBoundedUint 0 opts.maxValue buf

/-- `_read_var_bytes`. -/
def readVarBytes (minLength maxLength : Nat) (buf : ByteString) :
    Except Error (ByteString × ByteString) := do
  let (length, buf) ← readBoundedUint minLength maxLength buf
  readFixedBytes length buf

/-- `_read_bytes`. -/
def readBytes (opts : TLSOptions) (buf : ByteString) : Except Error (ByteString × ByteString) :=
  if opts.fixedLength ≠ 0 then readFixedBytes opts.fixedLength buf
  else if opts.maxLength ≠ 0 then readVarBytes opts.minLength opts.maxLength buf
  else throw (.typeError "Byte field has no length limit")

/-- `_get_read_method`: the reader of a field of a scalar type, giving its
value. -/
def getReadMethod (field : FieldDescriptor) :
    Except Error (TLSOptions → ByteString → Except Error (FieldValue × ByteString)) :=
  match field.type with
  | .uint32 => pure fun opts buf => (fun p => (.scalar p.1, p.2)) <$> readUint32 opts buf
  | .uint64 => pure fun opts buf => (fun p => (.scalar p.1, p.2)) <$> readUint64 opts buf
  | .enum _ _ => pure fun opts buf => (fun p => (.scalar p.1, p.2)) <$> readEnum opts buf
  | .bytes => pure fun opts buf => (fun p => (.bytes p.1, p.2)) <$> readBytes opts buf
  | type => throw (.typeError ("Field " ++ field.name ++ " of type " ++
      toString type.typeNumber ++ " not supported"))

def readLoop (readOne : ByteString → Except Error (FieldValue × ByteString))
    (content : ByteString) : Except Error (List FieldValue) :=
  if content = [] then pure []
  else
    match readOne content with
    | .error e => throw e
    | .ok (value, rest) =>
        if rest.length < content.length then (value :: ·) <$> readLoop readOne rest
        else throw .loopsForever
termination_by content.length

mutual
/-- `TLSReader.read(message)`: the fields of the message's descriptor in number
order, into `message`. -/
def read (descriptor : List FieldDescriptor) :
    List FieldDescriptor → Message → ByteString → Except Error (Message × ByteString)
  | [], message, buf => pure (message, buf)
  | field :: fields, message, buf => do
      let (message, buf) ← readField descriptor field message buf
      read descriptor fields message buf
termination_by fields => (sizeOf fields, 2)
decreasing_by
  all_goals simp only [List.cons.sizeOf_spec]
  · exact Prod.Lex.left _ _ (by omega)
  · exact Prod.Lex.left _ _ (by omega)

def readField (descriptor : List FieldDescriptor) (field : FieldDescriptor) (message : Message)
    (buf : ByteString) : Except Error (Message × ByteString) :=
  if field.opts.skip then pure (message, buf)
  else if field.opts.selectField ≠ "" ∧
      selectedValue descriptor message field.opts.selectField ≠ field.opts.selectValue then
    pure (message, buf)
  else if field.repeated then readRepeated field message buf
  else
    match _h : field.type with
    | .message fields => do
        let (sub, buf) ← read fields fields (getattr message field).asMessage buf
        pure (setattr message field.name (.message sub), buf)
    | .enum enumOpts _ => do
        -- `opts` becomes the options of the enum type
        let method ← getReadMethod field
        let (value, buf) ← method enumOpts buf
        pure (setattr message field.name value, buf)
    | _ => do
        let method ← getReadMethod field
        let (value, buf) ← method field.opts buf
        pure (setattr message field.name value, buf)
termination_by (sizeOf field, 1)
decreasing_by
  · exact Prod.Lex.right _ (by decide)
  · exact Prod.Lex.left _ _ (sizeOf_lt_of_type_eq_message _h)

/-- `_read_repeated`: the total length, then the elements from the bytes it
covers, appended to the field's list. -/
def readRepeated (field : FieldDescriptor) (message : Message) (buf : ByteString) :
    Except Error (Message × ByteString) :=
  if field.opts.maxTotalLength = 0 then
    throw (.typeError ("Repeated field " ++ field.name ++ " has no length limit"))
  else do
    let (content, buf) ← readVarBytes field.opts.minTotalLength field.opts.maxTotalLength buf
    let elems ← match _h : field.type with
      | .message fields =>
          readLoop (fun content => (fun p => (.message p.1, p.2)) <$> read fields fields [] content)
            content
      | .enum enumOpts _ => do
          let method ← getReadMethod field
          readLoop (method enumOpts) content
      | _ => do
          let method ← getReadMethod field
          readLoop (method field.opts) content
    pure (setattr message field.name (.list ((getattr message field).asList ++ elems)), buf)
termination_by (sizeOf field, 0)
decreasing_by exact Prod.Lex.left _ _ (sizeOf_lt_of_type_eq_message _h)
end

/-- `TLSReader.decode(buf, message)`: the message read, with nothing left. -/
def decode (fields : List FieldDescriptor) (buf : ByteString) (message : Message) :
    Except Error Message := do
  let (message, buf) ← read fields fields message buf
  if buf ≠ [] then throw (.tlsDecodingError "Bytes remaining in the buffer")
  else pure message

/-- `_write_uint`: `num_bytes` bytes of `value`, most significant first (the
loop takes the low byte and shifts `num_bytes` times); what is left of
`value` after them must be `0`. -/
def writeUint (value numBytes : Nat) : Except Error ByteString :=
  if value >>> (8 * numBytes) ≠ 0 then
    throw (.tlsEncodingError ("Value " ++ toString (value >>> (8 * numBytes)) ++
      " is too large to fit in " ++ toString numBytes ++ " bytes"))
  else pure (Codec.encodeBE value numBytes)

/-- `_write_bounded_uint`. -/
def writeBoundedUint (value minValue maxValue : Nat) : Except Error ByteString :=
  if value < minValue ∨ value > maxValue then
    throw (.tlsEncodingError ("Value " ++ toString value ++ " out of range ([" ++
      toString minValue ++ ", " ++ toString maxValue ++ "])"))
  else writeUint value (lengthOfValue maxValue)

/-- `_write_uint32`. -/
def writeUint32 (value : Nat) (opts : TLSOptions) : Except Error ByteString :=
  writeUint value (widthOr opts.bytesInUse 4)

/-- `_write_uint64`. -/
def writeUint64 (value : Nat) (opts : TLSOptions) : Except Error ByteString :=
  writeUint value (widthOr opts.bytesInUse 8)

/-- `_write_enum`. -/
def writeEnum (value : Nat) (opts : TLSOptions) : Except Error ByteString :=
  if opts.maxValue = 0 then throw (.typeError "Enum field has no maximum value")
  else writeBoundedUint value 0 opts.maxValue

/-- `_write_fixed_bytes`. -/
def writeFixedBytes (value : ByteString) (length : Nat) : Except Error ByteString :=
  if value.length ≠ length then
    throw (.tlsEncodingError ("Invalid value " ++ rawString value ++ " of length " ++
      toString value.length ++ ": required length is " ++ toString length))
  else pure value

/-- `_write_var_bytes`. -/
def writeVarBytes (value : ByteString) (minLength maxLength : Nat) : Except Error ByteString := do
  let length ← writeBoundedUint value.length minLength maxLength
  pure (length ++ value)

/-- `_write_bytes`. -/
def writeBytes (value : ByteString) (opts : TLSOptions) : Except Error ByteString :=
  if opts.fixedLength ≠ 0 then writeFixedBytes value opts.fixedLength
  else if opts.maxLength ≠ 0 then writeVarBytes value opts.minLength opts.maxLength
  else throw (.typeError "Byte field has no length limit")

/-- `_get_write_method`: the writer of a field of a scalar type. -/
def getWriteMethod (field : FieldDescriptor) :
    Except Error (FieldValue → TLSOptions → Except Error ByteString) :=
  match field.type with
  | .uint32 => pure fun value opts => writeUint32 value.asNat opts
  | .uint64 => pure fun value opts => writeUint64 value.asNat opts
  | .enum _ _ => pure fun value opts => writeEnum value.asNat opts
  | .bytes => pure fun value opts => writeBytes value.asBytes opts
  | type => throw (.typeError ("Field " ++ field.name ++ " of type " ++
      toString type.typeNumber ++ " not supported"))

mutual
/-- `TLSWriter.write(message)`: the fields of the message's descriptor in
number order. -/
def write (descriptor : List FieldDescriptor) : List FieldDescriptor → Message → Except Error ByteString
  | [], _ => pure []
  | field :: fields, message => do
      let encoded ← writeField descriptor field message
      let rest ← write descriptor fields message
      pure (encoded ++ rest)
termination_by fields => (sizeOf fields, 2)
decreasing_by
  all_goals simp only [List.cons.sizeOf_spec]
  · exact Prod.Lex.left _ _ (by omega)
  · exact Prod.Lex.left _ _ (by omega)

def writeField (descriptor : List FieldDescriptor) (field : FieldDescriptor) (message : Message) :
    Except Error ByteString :=
  if field.opts.skip then pure []
  else if field.opts.selectField ≠ "" ∧
      selectedValue descriptor message field.opts.selectField ≠ field.opts.selectValue then
    pure []
  else if field.repeated then writeRepeated field (getattr message field).asList
  else
    match _h : field.type with
    | .message fields => write fields fields (getattr message field).asMessage
    | .enum enumOpts _ => do
        -- `opts` becomes the options of the enum type
        let method ← getWriteMethod field
        method (getattr message field) enumOpts
    | _ => do
        let method ← getWriteMethod field
        method (getattr message field) field.opts
termination_by (sizeOf field, 1)
decreasing_by
  · exact Prod.Lex.right _ (by decide)
  · exact Prod.Lex.left _ _ (sizeOf_lt_of_type_eq_message _h)

/-- `_write_repeated`: the elements into a fresh writer, then their total
length and the elements.  For an enum, `opts` is the enum's from the
elements on, the total length included. -/
def writeRepeated (field : FieldDescriptor) (elems : List FieldValue) :
    Except Error ByteString := do
  let (encoded, opts) ← match _h : field.type with
    | .message fields => do
        let encoded ← elems.mapM fun elem => write fields fields elem.asMessage
        pure (encoded.flatten, field.opts)
    | .enum enumOpts _ => do
        let method ← getWriteMethod field
        let encoded ← elems.mapM fun elem => method elem enumOpts
        pure (encoded.flatten, enumOpts)
    | _ => do
        let method ← getWriteMethod field
        let encoded ← elems.mapM fun elem => method elem field.opts
        pure (encoded.flatten, field.opts)
  let length ← writeBoundedUint encoded.length opts.minTotalLength opts.maxTotalLength
  pure (length ++ encoded)
termination_by (sizeOf field, 0)
decreasing_by exact Prod.Lex.left _ _ (sizeOf_lt_of_type_eq_message _h)
end

/-- `TLSWriter.encode(message)`. -/
def encode (fields : List FieldDescriptor) (message : Message) : Except Error ByteString :=
  write fields fields message

end CertTrans.Python.TlsMessage
