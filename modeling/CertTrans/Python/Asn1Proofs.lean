import CertTrans.Python.Asn1

/-!
The strict reader of the Python ASN.1 codec against its encoder.

Integers and lengths read back what `encode_int` and `encode_length` write,
each tag of a type reads back its identifier and length, and so a value of a
type without `SetOf` decodes from its encoding to itself (`decode_encode`).
Two things keep this from being a bijection with DER.  `SetOf` sorts the
encodings of its components and its decoder keeps the order it reads, so a
set decodes to its components sorted by encoding (`decode_encode_setOf`).
And `read_length` accepts the long form for a length below 128, which
`encode_length` never writes, so a second byte string decodes strictly to
every short value (`decode_accepts_long_form_length`).
-/

namespace CertTrans.Python.Asn1

open Codec

def bytesValue (acc : Int) (bs : ByteString) : Int :=
  bs.foldl (fun acc b => acc * 256 + b.toNat) acc

@[simp] theorem bytesValue_nil (acc : Int) : bytesValue acc [] = acc := rfl

@[simp] theorem bytesValue_cons (acc : Int) (b : UInt8) (bs : ByteString) :
    bytesValue acc (b :: bs) = bytesValue (acc * 256 + b.toNat) bs := rfl

theorem bytesValue_append_singleton (acc : Int) (bs : ByteString) (b : UInt8) :
    bytesValue acc (bs ++ [b]) = bytesValue acc bs * 256 + b.toNat := by
  simp [bytesValue, List.foldl_append]

theorem toNat_emod_toUInt8 (value : Int) :
    ((value % 256).toNat.toUInt8.toNat : Int) = value % 256 := by
  have h0 : 0 ≤ value % 256 := Int.emod_nonneg _ (by decide)
  have h1 : value % 256 < 256 := Int.emod_lt_of_pos _ (by decide)
  have hbyte : (value % 256).toNat.toUInt8.toNat = (value % 256).toNat := by
    simp [Nat.mod_eq_of_lt (by omega : (value % 256).toNat < 256)]
  rw [hbyte]
  omega

theorem shiftRight_eight (value : Int) : value >>> (8 : Nat) = value / 256 :=
  Int.shiftRight_eq_div_pow value 8

theorem intBytesLoop_rest (value : Int) :
    ((intBytesLoop value).2 = 0 ∨ (intBytesLoop value).2 = -1) ∧
      (0 ≤ value → (intBytesLoop value).2 = 0) := by
  fun_induction intBytesLoop value with
  | case1 value hstop =>
      refine ⟨hstop, fun hpos => ?_⟩
      dsimp only
      omega
  | case2 value hstop intBytes rest hloop ih =>
      rw [hloop] at ih
      refine ⟨ih.1, fun hpos => ih.2 ?_⟩
      rw [shiftRight_eight]
      omega

theorem bytesValue_intBytesLoop (value : Int) :
    bytesValue (intBytesLoop value).2 (intBytesLoop value).1.reverse = value := by
  fun_induction intBytesLoop value with
  | case1 value hstop => rfl
  | case2 value hstop intBytes rest hloop ih =>
      rw [hloop] at ih
      dsimp only
      rw [List.reverse_cons, bytesValue_append_singleton, ih, toNat_emod_toUInt8,
        shiftRight_eight]
      omega

theorem intBytesLoop_top {value : Int} (hstop : ¬(value = 0 ∨ value = -1)) :
    ∃ top low, (intBytesLoop value).1 = low ++ [top] ∧
      ((intBytesLoop value).2 = 0 ∧ 0 < top.toNat ∨
        (intBytesLoop value).2 = -1 ∧ top.toNat < 255) := by
  fun_induction intBytesLoop value with
  | case1 value hstop' => exact absurd hstop' hstop
  | case2 value _ intBytes rest hloop ih =>
      have hb := toNat_emod_toUInt8 value
      by_cases hnext : value >>> (8 : Nat) = 0 ∨ value >>> (8 : Nat) = -1
      · -- the last pass: the byte is all that is left of `value`
        rw [intBytesLoop, if_pos hnext] at hloop
        cases hloop
        refine ⟨(value % 256).toNat.toUInt8, [], rfl, ?_⟩
        dsimp only
        rw [shiftRight_eight] at hnext ⊢
        omega
      · obtain ⟨top, low, hbs, htop⟩ := ih hnext
        rw [hloop] at hbs htop
        dsimp only at hbs htop
        exact ⟨top, (value % 256).toNat.toUInt8 :: low, by rw [hbs]; rfl, htop⟩

theorem decodeInt_cons {leading : UInt8} {intBytes : ByteString} {signed strict : Bool}
    (h : checkLeading leading intBytes signed strict = .ok ()) :
    decodeInt (leading :: intBytes) signed strict =
      .ok (bytesValue (if signed ∧ 127 < leading.toNat then leading.toNat - 256 else leading.toNat)
        intBytes) := by
  simp [decodeInt, h, UInt8.lt_iff_toNat_lt, pure, Except.pure, bytesValue]

theorem checkLeading_of_ne {leading : UInt8} {signed : Bool} (h0 : leading ≠ 0)
    (hff : signed = true → leading ≠ 0xff) (intBytes : ByteString) (strict : Bool) :
    checkLeading leading intBytes signed strict = .ok () := by
  cases intBytes with
  | nil => rfl
  | cons b bs =>
      cases signed with
      | false => simp [checkLeading, h0, pure, Except.pure]
      | true => simp [checkLeading, h0, hff rfl, pure, Except.pure]

theorem decodeInt_encodeIntBytes_signed (value : Int) :
    decodeInt (encodeIntBytes value true) true true = .ok value := by
  by_cases hstop : value = 0 ∨ value = -1
  · rcases hstop with rfl | rfl <;> rfl
  obtain ⟨top, low, hbs, htop⟩ := intBytesLoop_top hstop
  have hval := bytesValue_intBytesLoop value
  rw [encodeIntBytes, if_neg (by tauto), if_neg (by tauto)]
  generalize intBytesLoop value = p at hbs htop hval ⊢
  obtain ⟨bs, r⟩ := p
  dsimp only at hbs htop hval ⊢
  subst hbs
  simp only [List.getLastD_concat, if_true, List.reverse_append, List.reverse_cons,
    List.reverse_nil, List.nil_append, List.cons_append] at hval ⊢
  rw [bytesValue_cons] at hval
  have hsign : ∀ s : UInt8, (low ++ [top] ++ [s]).reverse = s :: top :: low.reverse := by simp
  have hnosign : (low ++ [top]).reverse = top :: low.reverse := by simp
  simp only [UInt8.le_iff_toNat_le, gt_iff_lt, UInt8.lt_iff_toNat_lt, UInt8.reduceToNat]
  rcases htop with ⟨rfl, htop⟩ | ⟨rfl, htop⟩
  · by_cases hbig : 127 < top.toNat
    · -- a `0x00` sign byte before a top byte with its high bit set
      rw [if_neg (by simp), if_pos ⟨rfl, hbig⟩, hsign, decodeInt_cons]
      · simpa using hval
      · simp [checkLeading, UInt8.lt_iff_toNat_lt, show ¬top.toNat < 128 by omega, pure,
          Except.pure]
    · -- no sign byte: the top byte is `1` to `127`
      rw [if_neg (by simp), if_neg (by simp [hbig]), hnosign,
        decodeInt_cons (checkLeading_of_ne ?_ (fun _ => ?_) _ _)]
      · rw [if_neg (by simp [hbig])]
        simpa using hval
      · rintro rfl
        simp at htop
      · rintro rfl
        simp at hbig
  · by_cases hbig : 127 < top.toNat
    · -- no sign byte: the top byte is `0x80` to `0xfe`
      rw [if_neg (by simp [hbig]), if_neg (by simp), hnosign,
        decodeInt_cons (checkLeading_of_ne ?_ (fun _ => ?_) _ _)]
      · rw [if_pos ⟨rfl, hbig⟩, ← hval, show (top.toNat : Int) - 256 = -1 * 256 + top.toNat by omega]
      · rintro rfl
        simp at hbig
      · rintro rfl
        simp at htop
    · -- a `0xff` sign byte before a top byte with its high bit clear
      rw [if_pos ⟨rfl, by omega⟩, hsign, decodeInt_cons]
      · rw [if_pos ⟨rfl, by decide⟩, ← hval]
        simp
      · simp [checkLeading, UInt8.le_iff_toNat_le, show ¬128 ≤ top.toNat by omega, pure,
          Except.pure]

theorem encodeIntBytes_unsigned {n : Nat} (hn : n ≠ 0) :
    ∃ top low, encodeIntBytes n false = top :: low ∧ 0 < top.toNat ∧
      bytesValue top.toNat low = n := by
  have hstop : ¬((n : Int) = 0 ∨ (n : Int) = -1) := by omega
  obtain ⟨top, low, hbs, htop⟩ := intBytesLoop_top hstop
  have hval := bytesValue_intBytesLoop n
  have hrest := (intBytesLoop_rest n).2 (Int.natCast_nonneg n)
  rw [encodeIntBytes, if_neg (by omega), if_neg (by omega)]
  generalize intBytesLoop n = p at hbs htop hval hrest ⊢
  obtain ⟨bs, r⟩ := p
  dsimp only at hbs htop hval hrest ⊢
  subst hbs hrest
  refine ⟨top, low.reverse, by simp, by omega, ?_⟩
  simpa using hval

theorem decodeInt_encodeIntBytes_unsigned (n : Nat) :
    decodeInt (encodeIntBytes n false) false true = .ok n := by
  by_cases hn : n = 0
  · subst hn
    rfl
  obtain ⟨top, low, he, htop, hval⟩ := encodeIntBytes_unsigned hn
  have hcheck : checkLeading top low false true = .ok () := by
    refine checkLeading_of_ne ?_ (by simp) _ _
    rintro rfl
    simp at htop
  rw [he, decodeInt_cons hcheck]
  simpa using hval

theorem mul_pow_le_bytesValue (acc : Int) (hacc : 0 ≤ acc) (bs : ByteString) :
    acc * 256 ^ bs.length ≤ bytesValue acc bs := by
  induction bs generalizing acc with
  | nil => simp
  | cons b bs ih =>
      have hb : (0 : Int) ≤ b.toNat := Int.natCast_nonneg _
      have hstep := ih (acc * 256 + b.toNat) (by omega)
      have hpow : (0 : Int) ≤ 256 ^ bs.length := by positivity
      calc acc * 256 ^ (b :: bs).length
          = acc * 256 * 256 ^ bs.length := by rw [List.length_cons, pow_succ']; ring
        _ ≤ (acc * 256 + b.toNat) * 256 ^ bs.length :=
            Int.mul_le_mul_of_nonneg_right (by omega) hpow
        _ ≤ bytesValue acc (b :: bs) := hstep

theorem length_encodeIntBytes_le {n : Nat} (hn : n < 256 ^ 127) :
    (encodeIntBytes n false).length ≤ 127 := by
  by_cases h0 : n = 0
  · subst h0
    decide
  obtain ⟨top, low, he, htop, hval⟩ := encodeIntBytes_unsigned h0
  have hle := mul_pow_le_bytesValue top.toNat (Int.natCast_nonneg _) low
  rw [hval] at hle
  have hpowle : (256 : Int) ^ low.length ≤ n := by
    have hpow : (0 : Int) ≤ 256 ^ low.length := by positivity
    have htop1 : (1 : Int) ≤ top.toNat := by omega
    nlinarith
  have hpowle' : 256 ^ low.length ≤ n := by exact_mod_cast hpowle
  have := (Nat.pow_lt_pow_iff_right (by norm_num)).mp (hpowle'.trans_lt hn)
  rw [he, List.length_cons]
  omega

theorem longFormByte {k : Nat} (hk : k < 128) :
    (0x80 ||| k.toUInt8).toNat = 128 + k ∧ ((0x80 ||| k.toUInt8) &&& 0x7f).toNat = k := by
  have hk' : k.toUInt8.toNat = k := by simp [Nat.mod_eq_of_lt (by omega : k < 256)]
  have hor : 128 ||| k = 128 + k := by
    have := Nat.two_pow_add_eq_or_of_lt (i := 7) (by simpa using hk) 1
    simpa using this.symm
  have hand : (128 + k) &&& 127 = k := by
    have := Nat.and_two_pow_sub_one_eq_mod (128 + k) 7
    simp only [Nat.reducePow, Nat.add_one_sub_one] at this
    omega
  simp [UInt8.toNat_and, UInt8.toNat_or, hk', hor, hand]

theorem readLength_encodeLength {n : Nat} (hn : n < 256 ^ 127) (rest : ByteString) :
    readLength (encodeLength n ++ rest) true = .ok (n, rest) := by
  unfold encodeLength
  split_ifs with hshort
  · have hbyte : n.toUInt8.toNat = n := by simp [Nat.mod_eq_of_lt (by omega : n < 256)]
    simp [readLength, UInt8.le_iff_toNat_le, hbyte, hshort, pure, Except.pure]
  · obtain ⟨top, low, he, htop, hval⟩ := encodeIntBytes_unsigned (n := n) (by omega)
    have hlen := length_encodeIntBytes_le hn
    obtain ⟨hfirst, hcount⟩ := longFormByte (k := (encodeIntBytes n false).length) (by omega)
    have hpos : 0 < (encodeIntBytes n false).length := by rw [he]; simp
    have hne : (0x80 ||| (encodeIntBytes n false).length.toUInt8) ≠ 128 := by
      intro h
      have := congrArg UInt8.toNat h
      rw [hfirst] at this
      simp only [UInt8.reduceToNat] at this
      omega
    dsimp only
    simp only [List.cons_append, readLength, UInt8.le_iff_toNat_le, hfirst, hcount,
      UInt8.reduceToNat]
    have hlong : ¬(128 + (encodeIntBytes n false).length ≤ 127) := by omega
    have hfits : ¬(encodeIntBytes n false ++ rest).length < (encodeIntBytes n false).length := by
      simp
    rw [if_neg hlong, if_neg hne, if_neg hfits, List.take_left, List.drop_left,
      decodeInt_encodeIntBytes_unsigned]
    rfl

theorem readTag_append (t : Tag) (content : ByteString) (hsize : content.length < 256 ^ 127)
    (rest : ByteString) :
    readTag t (t.value ++ encodeLength content.length ++ content ++ rest) =
      .ok (content.length, content ++ rest) := by
  have hfits : ¬((content ++ rest).length : Int) < (content.length : Nat) := by
    simp only [List.length_append]
    omega
  rw [readTag, List.append_assoc, List.append_assoc, List.take_left, if_neg (not_not.mpr rfl),
    List.drop_left, readLength_encodeLength hsize, except_ok_bind]
  dsimp only
  rw [if_neg hfits]
  rfl

@[simp] theorem wrapTags_nil (ev : ByteString) : wrapTags [] ev = ev := rfl

theorem wrapTags_cons (t : Tag) (ts : List Tag) (ev : ByteString) :
    wrapTags (t :: ts) ev = wrapTags ts (t.value ++ encodeLength ev.length ++ ev) := rfl

theorem length_le_wrapTags (ts : List Tag) (ev : ByteString) :
    ev.length ≤ (wrapTags ts ev).length := by
  induction ts generalizing ev with
  | nil => exact le_rfl
  | cons t ts ih =>
      rw [wrapTags_cons]
      refine le_trans ?_ (ih _)
      simp only [List.length_append]
      omega

theorem wrapTags_ne_nil {ts : List Tag} (hts : ts ≠ []) (ev : ByteString) :
    wrapTags ts ev ≠ [] := by
  obtain ⟨t, ts, rfl⟩ := List.exists_cons_of_ne_nil hts
  rw [wrapTags_cons]
  refine List.ne_nil_of_length_pos (lt_of_lt_of_le ?_ (length_le_wrapTags ts _))
  simp only [List.length_append]
  have := List.length_pos_of_ne_nil t.value_ne_nil
  omega

theorem readTags_append (d : Nat) (xs ys : List Tag) (buf : ByteString) :
    readTags d (xs ++ ys) buf = readTags d xs buf >>= fun p => readTags p.1 ys p.2 := by
  induction xs generalizing d buf with
  | nil => rfl
  | cons t xs ih =>
      simp only [List.cons_append, readTags]
      cases readTag t buf with
      | error e => rfl
      | ok p => exact ih p.1 p.2

theorem readTags_wrapTags (d : Nat) (t : Tag) (ts : List Tag) {ev : ByteString}
    (hsize : (wrapTags (t :: ts) ev).length < 256 ^ 127) (rest : ByteString) :
    readTags d (t :: ts).reverse (wrapTags (t :: ts) ev ++ rest) = .ok (ev.length, ev ++ rest) := by
  induction ts generalizing t ev with
  | nil =>
      have hev : ev.length < 256 ^ 127 :=
        lt_of_le_of_lt (length_le_wrapTags [t] ev) hsize
      rw [List.reverse_singleton, wrapTags_cons, wrapTags_nil, readTags, readTag_append t ev hev]
      rfl
  | cons s ss ih =>
      rw [wrapTags_cons] at hsize ⊢
      have hev : ev.length < 256 ^ 127 := by
        have hle := length_le_wrapTags (s :: ss) (t.value ++ encodeLength ev.length ++ ev)
        simp only [List.length_append] at hle
        omega
      rw [List.reverse_cons, readTags_append, ih s hsize, except_ok_bind]
      dsimp only
      rw [readTags, readTag_append t ev hev]
      rfl

theorem readWith_wrapTags {ts : List Tag} (hts : ts ≠ [])
    (decodeValue : ByteString → Except Error AsnValue) {ev : ByteString}
    (hsize : (wrapTags ts ev).length < 256 ^ 127) (rest : ByteString) :
    readWith ts decodeValue (wrapTags ts ev ++ rest) = (fun v => (v, rest)) <$> decodeValue ev := by
  obtain ⟨t, ts, rfl⟩ := List.exists_cons_of_ne_nil hts
  rw [readWith, readTags_wrapTags 0 t ts hsize, except_ok_bind]
  dsimp only
  rw [List.take_left, List.drop_left]
  cases decodeValue ev <;> rfl

theorem readComponents_nil {ts : List Tag} (hts : ts ≠ [])
    (decodeValue : ByteString → Except Error AsnValue) :
    readComponents ts hts decodeValue [] = .ok [] := by
  rw [readComponents, if_pos rfl]
  rfl

theorem readComponents_of_ne_nil {ts : List Tag} (hts : ts ≠ [])
    (decodeValue : ByteString → Except Error AsnValue) {buf : ByteString} (hbuf : buf ≠ []) :
    readComponents ts hts decodeValue buf =
      readWith ts decodeValue buf >>= fun p =>
        (p.1 :: ·) <$> readComponents ts hts decodeValue p.2 := by
  rw [readComponents, if_neg hbuf]
  split
  · rename_i e he
    rw [he]
    rfl
  · rename_i value rest he
    rw [he]
    rfl

def noSetOf : AsnType → Bool
  | .boolean | .integer | .octetString => true
  | .sequenceOf component => noSetOf component
  | .setOf _ => false
  | .explicit _ _ _ type | .implicit _ _ _ type => noSetOf type

theorem encode_eq_ok {T : AsnType} {v : AsnValue} {e : ByteString} (he : encode T v = .ok e) :
    ∃ ev, encodeValue T v = .ok ev ∧ e = wrapTags (tags T) ev := by
  obtain ⟨ev, hev, rfl⟩ := except_map_eq_ok.mp he
  exact ⟨ev, hev, rfl⟩

theorem encodeValue_sequenceOf (component : AsnType) (value : List AsnValue) :
    encodeValue (.sequenceOf component) (.list value) =
      value.mapM (encode component) >>= fun ret => pure ret.flatten := rfl

theorem encodeValue_setOf (component : AsnType) (value : List AsnValue) :
    encodeValue (.setOf component) (.list value) =
      value.mapM (encode component) >>= fun ret => pure (sortEncodings ret).flatten := rfl

theorem readComponents_mapM {c : AsnType} {xs : List AsnValue} {ret : List ByteString}
    (hret : xs.mapM (encode c) = .ok ret)
    (hdec : ∀ x ∈ xs, ∀ ev, encodeValue c x = .ok ev → ev.length < 256 ^ 127 →
      decodeValue c ev = .ok x)
    (hsize : ret.flatten.length < 256 ^ 127) :
    readComponents (tags c) (tags_ne_nil c) (decodeValue c) ret.flatten = .ok xs := by
  induction xs generalizing ret with
  | nil =>
      cases hret
      exact readComponents_nil _ _
  | cons x xs ih =>
      rw [List.mapM_cons] at hret
      obtain ⟨e, he, hret⟩ := except_bind_eq_ok.mp hret
      obtain ⟨ret', hret', hret⟩ := except_bind_eq_ok.mp hret
      cases hret
      obtain ⟨ev, hev, rfl⟩ := encode_eq_ok he
      rw [List.flatten_cons, List.length_append] at hsize
      have hwrap : (wrapTags (tags c) ev).length < 256 ^ 127 := by omega
      have hevsize := lt_of_le_of_lt (length_le_wrapTags (tags c) ev) hwrap
      have hne : wrapTags (tags c) ev ++ ret'.flatten ≠ [] := by
        simp [wrapTags_ne_nil (tags_ne_nil c) ev]
      rw [List.flatten_cons, readComponents_of_ne_nil _ _ hne, readWith_wrapTags (tags_ne_nil c) _ hwrap, hdec x List.mem_cons_self ev hev hevsize]
      rw [show (fun v => (v, ret'.flatten)) <$> (Except.ok x : Except Error AsnValue) =
        .ok (x, ret'.flatten) from rfl, except_ok_bind]
      dsimp only
      rw [ih hret' (fun y hy => hdec y (List.mem_cons_of_mem x hy)) (by omega)]
      rfl

theorem decodeValue_encodeValue {T : AsnType} {v : AsnValue} (hv : HasType T v)
    (hT : noSetOf T = true) {ev : ByteString} (hev : encodeValue T v = .ok ev)
    (hsize : ev.length < 256 ^ 127) : decodeValue T ev = .ok v := by
  induction hv generalizing ev with
  | boolean value =>
      cases hev
      cases value <;> rfl
  | integer value =>
      cases hev
      simp only [decodeValue, decodeInt_encodeIntBytes_signed]
      rfl
  | octetString value =>
      cases hev
      rfl
  | sequenceOf hvalue ih =>
      obtain ⟨ret, hret, hev⟩ := except_bind_eq_ok.mp hev
      cases hev
      rw [decodeValue, readComponents_mapM hret (fun x hx e he hsize => ih x hx hT he hsize) hsize]
      rfl
  | setOf hvalue ih => cases hT
  | explicit hvalue ih => exact ih hT hev hsize
  | implicit hvalue ih => exact ih hT hev hsize

theorem exists_mapM_eq_ok {α β ε : Type} {g : α → Except ε β} {xs : List α}
    (h : ∀ x ∈ xs, ∃ y, g x = .ok y) : ∃ ys, xs.mapM g = .ok ys := by
  induction xs with
  | nil => exact ⟨[], rfl⟩
  | cons x xs ih =>
      obtain ⟨y, hy⟩ := h x List.mem_cons_self
      obtain ⟨ys, hys⟩ := ih fun z hz => h z (List.mem_cons_of_mem x hz)
      refine ⟨y :: ys, ?_⟩
      rw [List.mapM_cons, hy, except_ok_bind, hys, except_ok_bind]
      rfl

theorem encodeValue_of_hasType {T : AsnType} {v : AsnValue} (hv : HasType T v) :
    ∃ ev, encodeValue T v = .ok ev := by
  induction hv with
  | boolean value => exact ⟨_, rfl⟩
  | integer value => exact ⟨_, rfl⟩
  | octetString value => exact ⟨_, rfl⟩
  | @sequenceOf component value hvalue ih =>
      obtain ⟨ret, hret⟩ := exists_mapM_eq_ok (g := encode component) fun x hx => by
        obtain ⟨ev, hev⟩ := ih x hx
        exact ⟨_, by rw [encode, hev]; rfl⟩
      exact ⟨ret.flatten, by rw [encodeValue_sequenceOf, hret, except_ok_bind]; rfl⟩
  | @setOf component value hvalue ih =>
      obtain ⟨ret, hret⟩ := exists_mapM_eq_ok (g := encode component) fun x hx => by
        obtain ⟨ev, hev⟩ := ih x hx
        exact ⟨_, by rw [encode, hev]; rfl⟩
      exact ⟨(sortEncodings ret).flatten, by rw [encodeValue_setOf, hret, except_ok_bind]; rfl⟩
  | explicit hvalue ih => exact ih
  | implicit hvalue ih => exact ih

theorem decode_encode {T : AsnType} {v : AsnValue} (hv : HasType T v) (hT : noSetOf T = true)
    {e : ByteString} (he : encode T v = .ok e) (hsize : e.length < 256 ^ 127) :
    decode T e = .ok v := by
  obtain ⟨ev, hev, rfl⟩ := encode_eq_ok he
  have hevsize := lt_of_le_of_lt (length_le_wrapTags (tags T) ev) hsize
  have hread : read T (wrapTags (tags T) ev ++ []) = .ok (v, []) := by
    rw [read, readWith_wrapTags (tags_ne_nil T) _ hsize,
      decodeValue_encodeValue hv hT hev hevsize]
    rfl
  rw [List.append_nil] at hread
  rw [decode, hread, except_ok_bind]
  rfl

theorem mapM_eq_ok_map {α β ε : Type} {g : α → Except ε β} {xs : List α} {ys : List β}
    (h : xs.mapM g = .ok ys) (d : β) : ys = xs.map fun x => (g x).toOption.getD d := by
  induction xs generalizing ys with
  | nil =>
      cases h
      rfl
  | cons x xs ih =>
      rw [List.mapM_cons] at h
      obtain ⟨y, hy, h⟩ := except_bind_eq_ok.mp h
      obtain ⟨ys', hys', h⟩ := except_bind_eq_ok.mp h
      cases h
      rw [List.map_cons, hy, ← ih hys']
      rfl

/-- A `SetOf` decodes to its components in the order `ret.sort()` put their
encodings in: a permutation of the value, which comes back only when its
components were already sorted by encoding. -/
theorem decode_encode_setOf {c : AsnType} (hc : noSetOf c = true) {xs : List AsnValue}
    (hxs : ∀ x ∈ xs, HasType c x) {e : ByteString} (he : encode (.setOf c) (.list xs) = .ok e)
    (hsize : e.length < 256 ^ 127) :
    ∃ ret ys, xs.mapM (encode c) = .ok ret ∧ ys.Perm xs ∧
      ys.mapM (encode c) = .ok (sortEncodings ret) ∧ decode (.setOf c) e = .ok (.list ys) := by
  obtain ⟨ev, hev, rfl⟩ := encode_eq_ok he
  obtain ⟨ret, hret, hev⟩ := except_bind_eq_ok.mp hev
  cases hev
  let f : AsnValue → ByteString := fun x => (encode c x).toOption.getD []
  have hmap : ret = xs.map f := mapM_eq_ok_map hret []
  let ys := xs.mergeSort fun a b => !bytesLt (f b) (f a)
  have hperm : ys.Perm xs := List.mergeSort_perm _ _
  have hsorted : ys.map f = sortEncodings ret := by
    rw [hmap, sortEncodings]
    exact List.map_mergeSort (fun _ _ _ _ => rfl)
  have hys : ys.mapM (encode c) = .ok (sortEncodings ret) := by
    rw [← hsorted]
    refine mapM_eq_ok_of_forall fun y hy => ?_
    obtain ⟨e', he'⟩ := exists_ok_of_mapM_eq_ok hret y (hperm.mem_iff.mp hy)
    have hencode : encode c y = .ok e' := he'
    simp only [f, hencode]
    rfl
  have hevsize := lt_of_le_of_lt (length_le_wrapTags _ _) hsize
  have hread : read (.setOf c) (wrapTags (tags (.setOf c)) (sortEncodings ret).flatten ++ []) =
      .ok (.list ys, []) := by
    rw [read, readWith_wrapTags (tags_ne_nil _) _ hsize, decodeValue,
      readComponents_mapM hys (fun y hy ev hev hsize' =>
        decodeValue_encodeValue (hxs y (hperm.mem_iff.mp hy)) hc hev hsize') hevsize]
    rfl
  rw [List.append_nil] at hread
  refine ⟨ret, ys, hret, hperm, hys, ?_⟩
  rw [decode, hread, except_ok_bind]
  rfl

/-- The `SetOf` of the integers `-1` and `0` encodes `0` first, and decodes to
`[0, -1]`, a permutation of the value. -/
theorem decode_encode_setOf_integers :
    ∃ ret ys, [AsnValue.integer (-1), .integer 0].mapM (encode .integer) = .ok ret ∧
      ys.Perm [AsnValue.integer (-1), .integer 0] ∧ ys.mapM (encode .integer) = .ok (sortEncodings ret) ∧
      decode (.setOf .integer) [0x31, 6, 2, 1, 0, 2, 1, 0xff] = .ok (.list ys) := by
  have he : encode (.setOf .integer) (.list [.integer (-1), .integer 0]) =
      .ok [0x31, 6, 2, 1, 0, 2, 1, 0xff] := by
    simp [encode, encodeValue, sortEncodings, List.mergeSort, encodeInt, encodeIntBytes,
      List.cons_merge_cons]
    decide +kernel
  exact decode_encode_setOf rfl (fun x hx => by
    simp only [List.mem_cons, List.not_mem_nil, or_false] at hx
    rcases hx with rfl | rfl <;> exact HasType.integer _) he (by norm_num)

/-- Every value of a type without `SetOf` encodes, and its encoding decodes
back to it when the long form of a length can count its size. -/
theorem encode_then_decode {T : AsnType} {v : AsnValue} (hv : HasType T v)
    (hT : noSetOf T = true) :
    ∃ e, encode T v = .ok e ∧ (e.length < 256 ^ 127 → decode T e = .ok v) := by
  obtain ⟨ev, hev⟩ := encodeValue_of_hasType hv
  have he : encode T v = .ok (wrapTags (tags T) ev) := by rw [encode, hev]; rfl
  exact ⟨_, he, decode_encode hv hT he⟩

/-- A `SequenceOf` two integers encodes and decodes back. -/
theorem encode_then_decode_sequenceOf_integers :
    ∃ e, encode (.sequenceOf .integer) (.list [.integer 5, .integer (-1)]) = .ok e ∧
      (e.length < 256 ^ 127 →
        decode (.sequenceOf .integer) e = .ok (.list [.integer 5, .integer (-1)])) :=
  encode_then_decode (HasType.sequenceOf fun x hx => by
    simp only [List.mem_cons, List.not_mem_nil, or_false] at hx
    rcases hx with rfl | rfl <;> exact HasType.integer _) rfl

theorem wrapTags_append_singleton (ts : List Tag) (t : Tag) (ev : ByteString) :
    wrapTags (ts ++ [t]) ev =
      t.value ++ encodeLength (wrapTags ts ev).length ++ wrapTags ts ev := by
  rw [wrapTags, List.foldl_append]
  rfl

theorem readLength_longForm {n : Nat} (hn : n < 256) (rest : ByteString) :
    readLength (0x81 :: n.toUInt8 :: rest) true = .ok (n, rest) := by
  have hbyte : n.toUInt8.toNat = n := by simp [Nat.mod_eq_of_lt hn]
  have hcheck : checkLeading n.toUInt8 [] false true = .ok () := rfl
  have hcount : ((0x81 : UInt8) &&& 0x7f).toNat = 1 := by decide
  simp only [readLength, UInt8.le_iff_toNat_le, UInt8.reduceToNat]
  rw [hcount, List.take_succ_cons, List.take_zero, List.drop_one, List.tail_cons,
    decodeInt_cons hcheck]
  simp [hbyte, pure, Except.pure]

theorem readTag_longForm (t : Tag) (content : ByteString) (hsize : content.length < 256)
    (rest : ByteString) :
    readTag t (t.value ++ 0x81 :: content.length.toUInt8 :: (content ++ rest)) =
      .ok (content.length, content ++ rest) := by
  have hfits : ¬((content ++ rest).length : Int) < (content.length : Nat) := by
    simp only [List.length_append]
    omega
  rw [readTag, List.take_left, if_neg (not_not.mpr rfl), List.drop_left,
    readLength_longForm hsize, except_ok_bind]
  dsimp only
  rw [if_neg hfits]
  rfl

theorem read_congr_outer {T : AsnType} {ts : List Tag} {t : Tag} (hts : tags T = ts ++ [t])
    {x y : ByteString} (hxy : readTag t x = readTag t y) : read T x = read T y := by
  simp only [read, readWith, hts, List.reverse_append, List.reverse_singleton,
    List.singleton_append, readTags, hxy]

theorem decode_accepts_long_form_length {T : AsnType} {v : AsnValue} (hv : HasType T v)
    (hT : noSetOf T = true) {e : ByteString} (he : encode T v = .ok e) (hshort : e.length < 128) :
    ∃ b, b ≠ e ∧ decode T b = .ok v := by
  have hdecode := decode_encode hv hT he (lt_trans hshort (by norm_num))
  obtain ⟨ev, hev, rfl⟩ := encode_eq_ok he
  obtain ⟨ts, t, hts⟩ : ∃ ts t, tags T = ts ++ [t] :=
    ⟨_, _, (List.dropLast_append_getLast (tags_ne_nil T)).symm⟩
  have hwrap := wrapTags_append_singleton ts t ev
  rw [← hts] at hwrap
  have hinner : (wrapTags ts ev).length < 128 := by
    have := congrArg List.length hwrap
    simp only [List.length_append] at this
    omega
  have hlen : encodeLength (wrapTags ts ev).length = [(wrapTags ts ev).length.toUInt8] := by
    rw [encodeLength, if_pos (by omega)]
  have hlenE : (wrapTags (tags T) ev).length = t.value.length + 1 + (wrapTags ts ev).length := by
    rw [hwrap, hlen]
    simp only [List.length_append, List.length_singleton]
  refine ⟨t.value ++ 0x81 :: (wrapTags ts ev).length.toUInt8 :: wrapTags ts ev, ?_, ?_⟩
  · -- one byte longer than the encoding
    intro h
    have := congrArg List.length h
    simp only [List.length_append, List.length_cons] at this
    omega
  · have hsame : readTag t (t.value ++ 0x81 :: (wrapTags ts ev).length.toUInt8 :: wrapTags ts ev) =
        readTag t (wrapTags (tags T) ev) := by
      have hlong := readTag_longForm t (wrapTags ts ev) (by omega) []
      have hshort := readTag_append t (wrapTags ts ev) (by
        exact lt_trans hinner (by norm_num)) []
      simp only [List.append_nil] at hlong hshort
      rw [hlong, hwrap, hshort]
    unfold decode at hdecode ⊢
    rw [read_congr_outer hts hsame]
    exact hdecode

theorem decode_accepts_long_form_length_boolean :
    ∃ b, b ≠ [0x01, 0x01, 0xff] ∧ decode .boolean b = .ok (.boolean true) :=
  decode_accepts_long_form_length (HasType.boolean true) rfl rfl (by decide)

end CertTrans.Python.Asn1
