import CertTrans.Merkletree.Basic
import CertTrans.Codec.Bytes

/-!
The ASN.1 codec of the Python client (`ct/crypto/asn1/types.py` and `tag.py`):
two's complement integers and definite lengths, tags with their identifier
octets, and the encoding and strict reading of the types built from `Boolean`,
`Integer`, `OctetString`, `SequenceOf` and `SetOf` by explicit and implicit
tagging.

A type is its syntax tree `AsnType`; its tag stack `tags` is computed as the
`Universal`, `Explicit` and `Implicit` class decorators build it.  Encoding
wraps the value's octets in one tag and length per tag, innermost first;
reading strips them outermost first (`Abstract.read`) and then decodes the
contents with the type's own `_decode_value`.  Reading is the strict mode
only: the indefinite lengths and BER tolerance of the non-strict mode are not
modelled.
-/

namespace CertTrans.Python.Asn1

inductive Error
  | asn1Error (message : String)
  | asn1TagError (message : String)
  | valueError (message : String)
  | typeError (message : String)
deriving Repr, DecidableEq

def intBytesLoop (value : Int) : List UInt8 × Int :=
  if value = 0 ∨ value = -1 then ([], value)
  else
    let (intBytes, rest) := intBytesLoop (value >>> (8 : Nat))
    ((value % 256).toNat.toUInt8 :: intBytes, rest)
termination_by value.natAbs
decreasing_by
  have hshift : value >>> (8 : Nat) = value / 256 := Int.shiftRight_eq_div_pow value 8
  omega

/-- `encode_int` past its sign check: the shortest two's complement (or, for
`signed = false`, unsigned) big-endian bytes of `value`. -/
def encodeIntBytes (value : Int) (signed : Bool) : ByteString :=
  if value = 0 then [0x00]
  else if value = -1 then [0xff]
  else
    let (intBytes, value) := intBytesLoop value
    -- `int_bytes[-1]`: the loop ran at least once, so the default is never read
    let last := intBytes.getLastD 0
    let intBytes :=
      if signed then
        if value = -1 ∧ last ≤ 127 then intBytes ++ [0xff]
        else if value = 0 ∧ last > 127 then intBytes ++ [0x00]
        else intBytes
      else intBytes
    intBytes.reverse

/-- `encode_int(value, signed)`. -/
def encodeInt (value : Int) (signed : Bool) : Except Error ByteString :=
  if !signed && value < 0 then throw (.valueError "Unsigned integer cannot be negative")
  else pure (encodeIntBytes value signed)

def checkLeading (leading : UInt8) (intBytes : ByteString) (signed strict : Bool) :
    Except Error Unit :=
  match intBytes with
  | [] => pure ()
  | b :: _ =>
      if strict && leading == 0 && b < 128 then
        throw (.asn1Error "Extra leading 0-bytes in integer encoding")
      else if strict && signed && leading == 0xff && b ≥ 128 then
        throw (.asn1Error "Extra leading 0xff-bytes in negative integer encoding")
      else pure ()

/-- `decode_int(buf, signed, strict)`. -/
def decodeInt (buf : ByteString) (signed strict : Bool) : Except Error Int :=
  match buf with
  | [] => throw (.asn1Error "Invalid integer encoding: empty value")
  | leading :: intBytes => do
      checkLeading leading intBytes signed strict
      let leading : Int := if signed && leading > 127 then leading.toNat - 256 else leading.toNat
      pure (intBytes.foldl (fun leading b => leading * 256 + b.toNat) leading)

/-- `encode_length(length)`. -/
def encodeLength (length : Nat) : ByteString :=
  if length ≤ 127 then [length.toUInt8]
  else
    -- `encode_int(length, signed=False)`, whose `ValueError` a length never raises
    let encodedLength := encodeIntBytes length false
    (0x80 ||| encodedLength.length.toUInt8) :: encodedLength

/-- `read_length(buf, strict)`; `-1` stands for an indefinite length. -/
def readLength (buf : ByteString) (strict : Bool) : Except Error (Int × ByteString) :=
  match buf with
  | [] => throw (.asn1Error "Invalid length encoding: empty value")
  | length :: rest =>
      if length ≤ 127 then pure (length.toNat, rest)
      else if length = 128 then
        if strict then throw (.asn1Error "Indefinite length encoding") else pure (-1, rest)
      else
        let length := (length &&& 0x7f).toNat
        if rest.length < length then throw (.asn1Error "Invalid length encoding")
        else do
          let decoded ← decodeInt (rest.take length) false true
          pure (decoded, rest.drop length)

theorem length_lt_of_readLength_eq_ok {buf rest : ByteString} {strict : Bool} {n : Int}
    (h : readLength buf strict = .ok (n, rest)) : rest.length < buf.length := by
  cases buf with
  | nil => cases h
  | cons length tail =>
      simp only [readLength] at h
      split_ifs at h with h1 h2 h3 h4
      · cases h
        simp
      · cases h
        simp
      · obtain ⟨d, -, hd⟩ := Codec.except_bind_eq_ok.mp h
        cases hd
        simp only [List.length_drop, List.length_cons]
        omega

inductive TagClass
  | universal
  | application
  | contextSpecific
  | «private»
deriving Repr, DecidableEq

def TagClass.value : TagClass → UInt8
  | .universal => 0x00
  | .application => 0x40
  | .contextSpecific => 0x80
  | .«private» => 0xc0

/-- `Tag.class_name`. -/
def TagClass.className : TagClass → String
  | .universal => "UNIVERSAL"
  | .application => "APPLICATION"
  | .contextSpecific => "CONTEXT-SPECIFIC"
  | .«private» => "PRIVATE"

inductive Encoding
  | primitive
  | constructed
deriving Repr, DecidableEq

def Encoding.value : Encoding → UInt8
  | .primitive => 0x00
  | .constructed => 0x20

structure Tag where
  number : Nat
  tagClass : TagClass
  encoding : Encoding
deriving Repr, DecidableEq

def highTagOctets (number : Nat) : List UInt8 :=
  if number = 0 then []
  else ((number &&& 0x7f) ||| 0x80).toUInt8 :: highTagOctets (number >>> 7)
termination_by number
decreasing_by
  rw [Nat.shiftRight_eq_div_pow]
  omega

def Tag.value (t : Tag) : ByteString :=
  if t.number ≤ 30 then [t.tagClass.value ||| t.encoding.value ||| t.number.toUInt8]
  else
    let tmp := match highTagOctets t.number with
      | [] => []
      | octet :: octets => (octet - 0x80) :: octets
    (t.tagClass.value ||| t.encoding.value ||| 0x1f) :: tmp.reverse

/-- `Tag.__str__`. -/
def Tag.name (t : Tag) : String := "[" ++ t.tagClass.className ++ " " ++ toString t.number ++ "]"

theorem Tag.value_ne_nil (t : Tag) : t.value ≠ [] := by
  unfold Tag.value
  split_ifs <;> simp

inductive AsnType
  | boolean
  | integer
  | octetString
  | sequenceOf (component : AsnType)
  | setOf (component : AsnType)
  | explicit (number : Nat) (tagClass : TagClass) (hclass : tagClass ≠ .universal)
      (type : AsnType)
  | implicit (number : Nat) (tagClass : TagClass) (hclass : tagClass ≠ .universal)
      (type : AsnType)

def tags : AsnType → List Tag
  | .boolean => [⟨1, .universal, .primitive⟩]
  | .integer => [⟨2, .universal, .primitive⟩]
  | .octetString => [⟨4, .universal, .primitive⟩]
  | .sequenceOf _ => [⟨16, .universal, .constructed⟩]
  | .setOf _ => [⟨17, .universal, .constructed⟩]
  | .explicit number tagClass _ type => tags type ++ [⟨number, tagClass, .constructed⟩]
  | .implicit number tagClass _ type =>
      -- `cls.tags[-1].encoding`; every type here has a tag, so the default is never read
      (tags type).dropLast ++
        [⟨number, tagClass, ((tags type).getLast?.map Tag.encoding).getD .primitive⟩]

theorem tags_ne_nil (T : AsnType) : tags T ≠ [] := by
  cases T <;> simp [tags]

inductive AsnValue
  | boolean (value : Bool)
  | integer (value : Int)
  | octetString (value : ByteString)
  | list (value : List AsnValue)
deriving Repr

/-- `v` is a value of type `T`. -/
inductive HasType : AsnType → AsnValue → Prop
  | boolean (value : Bool) : HasType .boolean (.boolean value)
  | integer (value : Int) : HasType .integer (.integer value)
  | octetString (value : ByteString) : HasType .octetString (.octetString value)
  | sequenceOf {component : AsnType} {value : List AsnValue}
      (hvalue : ∀ x ∈ value, HasType component x) : HasType (.sequenceOf component) (.list value)
  | setOf {component : AsnType} {value : List AsnValue}
      (hvalue : ∀ x ∈ value, HasType component x) : HasType (.setOf component) (.list value)
  | explicit {number : Nat} {tagClass : TagClass} {hclass : tagClass ≠ .universal}
      {type : AsnType} {value : AsnValue} (hvalue : HasType type value) :
      HasType (.explicit number tagClass hclass type) value
  | implicit {number : Nat} {tagClass : TagClass} {hclass : tagClass ≠ .universal}
      {type : AsnType} {value : AsnValue} (hvalue : HasType type value) :
      HasType (.implicit number tagClass hclass type) value

def wrapTags (ts : List Tag) (encodedValue : ByteString) : ByteString :=
  ts.foldl (fun encodedValue t => t.value ++ encodeLength encodedValue.length ++ encodedValue)
    encodedValue

def bytesLt : ByteString → ByteString → Bool
  | [], [] => false
  | [], _ :: _ => true
  | _ :: _, [] => false
  | a :: as, b :: bs => a < b || (a == b && bytesLt as bs)

/-- `ret.sort()`: a stable sort in the order of Python strings. -/
def sortEncodings (ret : List ByteString) : List ByteString :=
  ret.mergeSort fun a b => !bytesLt b a

/-- `_encode_value` of each type; a value of another type is refused. -/
def encodeValue : AsnType → AsnValue → Except Error ByteString
  | .boolean, .boolean value => pure [if value then 0xff else 0x00]
  | .integer, .integer value => encodeInt value true
  | .octetString, .octetString value => pure value
  | .sequenceOf component, .list value => do
      let ret ← value.mapM fun x => wrapTags (tags component) <$> encodeValue component x
      pure ret.flatten
  | .setOf component, .list value => do
      let ret ← value.mapM fun x => wrapTags (tags component) <$> encodeValue component x
      pure (sortEncodings ret).flatten
  | .explicit _ _ _ type, value => encodeValue type value
  | .implicit _ _ _ type, value => encodeValue type value
  | _, _ => throw (.typeError "Cannot convert value")

/-- `T(value=v).encode()`. -/
def encode (T : AsnType) (v : AsnValue) : Except Error ByteString :=
  wrapTags (tags T) <$> encodeValue T v

/-- `Boolean._decode_value` in strict mode. -/
def decodeBoolean (buf : ByteString) : Except Error AsnValue :=
  match buf with
  | [b] =>
      if b != 0xff && b != 0x00 then
        throw (.asn1Error ("BER encoding of Boolean value: " ++ String.singleton (Char.ofNat b.toNat)))
      else pure (.boolean (b != 0x00))
  | _ => throw (.asn1Error "Invalid encoding")

def readTag (t : Tag) (buf : ByteString) : Except Error (Nat × ByteString) :=
  if buf.take t.value.length ≠ t.value then
    throw (.asn1TagError ("Invalid tag: expected " ++ t.name))
  else do
    let (decodedLength, buf) ← readLength (buf.drop t.value.length) true
    if (buf.length : Int) < decodedLength then
      throw (.asn1Error ("Invalid length encoding: read length " ++ toString decodedLength ++
        ", remaining bytes " ++ toString buf.length))
    else pure (decodedLength.toNat, buf)

def readTags (decodedLength : Nat) : List Tag → ByteString → Except Error (Nat × ByteString)
  | [], buf => pure (decodedLength, buf)
  | t :: ts, buf => do
      let (decodedLength, buf) ← readTag t buf
      readTags decodedLength ts buf

/-- `Abstract.read(buf, strict=True)` of a type with tags `ts` whose contents
`decodeValue` reads. -/
def readWith (ts : List Tag) (decodeValue : ByteString → Except Error AsnValue)
    (buf : ByteString) : Except Error (AsnValue × ByteString) := do
  let (decodedLength, buf) ← readTags 0 ts.reverse buf
  let value ← decodeValue (buf.take decodedLength)
  pure (value, buf.drop decodedLength)

theorem length_lt_of_readTag_eq_ok {t : Tag} {buf rest : ByteString} {n : Nat}
    (h : readTag t buf = .ok (n, rest)) : rest.length < buf.length := by
  unfold readTag at h
  split_ifs at h with htag
  obtain ⟨⟨d, buf'⟩, hl, h⟩ := Codec.except_bind_eq_ok.mp h
  have hlt := length_lt_of_readLength_eq_ok hl
  have hpos : 0 < t.value.length := List.length_pos_of_ne_nil t.value_ne_nil
  dsimp only at h
  split_ifs at h
  cases h
  simp only [List.length_drop] at hlt
  omega

theorem length_le_of_readTags_eq_ok {d : Nat} {ts : List Tag} {buf rest : ByteString} {n : Nat}
    (h : readTags d ts buf = .ok (n, rest)) : rest.length ≤ buf.length := by
  induction ts generalizing d buf with
  | nil =>
      cases h
      exact le_rfl
  | cons t ts ih =>
      obtain ⟨⟨d', buf'⟩, ht, h⟩ := Codec.except_bind_eq_ok.mp h
      exact (ih h).trans (length_lt_of_readTag_eq_ok ht).le

theorem length_lt_of_readTags_eq_ok {d : Nat} {ts : List Tag} (hts : ts ≠ [])
    {buf rest : ByteString} {n : Nat} (h : readTags d ts buf = .ok (n, rest)) :
    rest.length < buf.length := by
  obtain ⟨t, ts, rfl⟩ := List.exists_cons_of_ne_nil hts
  obtain ⟨⟨d', buf'⟩, ht, h⟩ := Codec.except_bind_eq_ok.mp h
  exact (length_le_of_readTags_eq_ok h).trans_lt (length_lt_of_readTag_eq_ok ht)

theorem length_lt_of_readWith_eq_ok {ts : List Tag} (hts : ts ≠ [])
    {decodeValue : ByteString → Except Error AsnValue} {buf rest : ByteString} {v : AsnValue}
    (h : readWith ts decodeValue buf = .ok (v, rest)) : rest.length < buf.length := by
  obtain ⟨⟨n, buf'⟩, hr, h⟩ := Codec.except_bind_eq_ok.mp h
  obtain ⟨w, -, h⟩ := Codec.except_bind_eq_ok.mp h
  cases h
  have hlt := length_lt_of_readTags_eq_ok (List.reverse_ne_nil_iff.mpr hts) hr
  simp only [List.length_drop]
  omega

def readComponents (ts : List Tag) (hts : ts ≠ [])
    (decodeValue : ByteString → Except Error AsnValue) (buf : ByteString) :
    Except Error (List AsnValue) :=
  if buf = [] then pure []
  else
    match _hread : readWith ts decodeValue buf with
    | .error e => throw e
    | .ok (value, rest) => do
        let ret ← readComponents ts hts decodeValue rest
        pure (value :: ret)
termination_by buf.length
decreasing_by exact length_lt_of_readWith_eq_ok hts _hread

/-- `_decode_value` of each type in strict mode; a tagged type decodes as the
type it tags. -/
def decodeValue : AsnType → ByteString → Except Error AsnValue
  | .boolean, buf => decodeBoolean buf
  | .integer, buf => AsnValue.integer <$> decodeInt buf true true
  | .octetString, buf => pure (.octetString buf)
  | .sequenceOf component, buf =>
      AsnValue.list <$>
        readComponents (tags component) (tags_ne_nil component) (decodeValue component) buf
  | .setOf component, buf =>
      -- the order of the components is not checked
      AsnValue.list <$>
        readComponents (tags component) (tags_ne_nil component) (decodeValue component) buf
  | .explicit _ _ _ type, buf => decodeValue type buf
  | .implicit _ _ _ type, buf => decodeValue type buf

/-- `T.read(buf, strict=True)`. -/
def read (T : AsnType) (buf : ByteString) : Except Error (AsnValue × ByteString) :=
  readWith (tags T) (decodeValue T) buf

/-- `T.decode(buf, strict=True)`: a read that leaves nothing. -/
def decode (T : AsnType) (buf : ByteString) : Except Error AsnValue := do
  let (value, rest) ← read T buf
  if rest ≠ [] then throw (.asn1Error "Invalid encoding: leftover bytes")
  else pure value

end CertTrans.Python.Asn1
