import CertTrans.Log.DatabaseQueries

/-!
The keys `LevelDB` (`leveldb_db.cc`) stores its entries under.

`IndexToKey` writes a sequence number as `entry-` and sixteen lowercase
hexadecimal digits, filled from the right while the number is positive, and
`KeyToIndex` reads them back through `util::BinaryString` (`util.cc`) and
folds the eight bytes into an `int64_t`.  A key is a byte string; LevelDB
orders keys bytewise, which is `<` on `List UInt8`.

For numbers from `0` to `INT64_MAX` the two are inverse, the keys are in the
order of the numbers, and they come before every `meta-` and `sth-` key.  So
the key-ordered scan from `Seek(IndexToKey(start))` that `LevelDB::Iterator`
walks lists the stored entries from `start` in increasing order: it is the
scan `LevelDB.scanEntries` models.
-/

namespace CertTrans

open Database Keyed Codec

namespace LevelDB

/-- `kEntryPrefix`, `"entry-"`. -/
def kEntryPrefix : List UInt8 := ['e', 'n', 't', 'r', 'y', '-'].map Char.toUInt8

/-- `kTreeHeadPrefix`, `"sth-"`. -/
def kTreeHeadPrefix : List UInt8 := ['s', 't', 'h', '-'].map Char.toUInt8

/-- `kMetaPrefix`, `"meta-"`. -/
def kMetaPrefix : List UInt8 := ['m', 'e', 't', 'a', '-'].map Char.toUInt8

/-- `nibble`, `"0123456789abcdef"`. -/
def nibble : List UInt8 :=
  ['0', '1', '2', '3', '4', '5', '6', '7', '8', '9', 'a', 'b', 'c', 'd', 'e', 'f'].map Char.toUInt8

def indexToKeyLoop : ℕ → ℤ → List UInt8 → List UInt8
  | 0, _, indexStr => indexStr
  | i + 1, index, indexStr =>
      if 0 < index then
        indexToKeyLoop i (index / 16) (indexStr.set i (nibble.getD (index % 16).toNat 0))
      else indexStr

def indexToKey (index : ℤ) : List UInt8 :=
  kEntryPrefix ++ indexToKeyLoop 16 index (List.replicate 16 (nibble.getD 0 0))

def signedChar (c : UInt8) : ℤ := if c < 128 then c.toNat else c.toNat - 256

/-- `util::ByteValue`: only the high digit is checked. -/
def byteValue (high low : UInt8) : Except String UInt8 :=
  if ¬ (('0'.toUInt8 ≤ high ∧ high ≤ '9'.toUInt8) ∨ ('a'.toUInt8 ≤ high ∧ high ≤ 'f'.toUInt8)) then
    throw "Check failed: ('0' <= high && high <= '9') || ('a' <= high && high <= 'f')"
  else
    let ret : UInt8 :=
      if signedChar high ≤ '9'.toNat then (high - '0'.toUInt8) <<< 4
      else (high - 'W'.toUInt8) <<< 4
    return if signedChar low ≤ '9'.toNat then ret + (low - '0'.toUInt8)
      else ret + (low - 'W'.toUInt8)

def binaryPairs : List UInt8 → Except String (List UInt8)
  | high :: low :: rest => do
      let b ← byteValue high low
      let bs ← binaryPairs rest
      return b :: bs
  | _ => return []

def binaryString (hexString : List UInt8) : Except String (List UInt8) :=
  if hexString.length % 2 ≠ 0 then throw "Check failed: !(hex_string.size() % 2)"
  else binaryPairs hexString

def keyToIndex (key : List UInt8) : Except String ℤ := do
  if ¬ kEntryPrefix <+: key then throw "Check failed: key.starts_with(kEntryPrefix)"
  let indexStr ← binaryString (key.drop kEntryPrefix.length)
  if indexStr.length ≠ 8 then throw "Check failed: index_str.size() == sizeof(index)"
  -- `index = (index << 8) | byte` on an `int64_t`, once for each byte
  return Int.bmod (indexStr.foldl (fun index b => index * 256 + b.toNat) 0 : ℕ) (2 ^ 64)

def scanByKey (storage : AList (fun _ : ℕ => LoggedEntry)) : List (Σ _ : ℕ, LoggedEntry) :=
  storage.entries.mergeSort fun a b => decide (indexToKey a.1 ≤ indexToKey b.1)

/-- `Seek(IndexToKey(start))`: the entries whose key is at least the start's. -/
def seek (storage : AList (fun _ : ℕ => LoggedEntry)) (start : ℤ) :
    List (Σ _ : ℕ, LoggedEntry) :=
  (scanByKey storage).filter fun e => decide (indexToKey start ≤ indexToKey e.1)

def hexDigits (n : ℕ) : ℕ → List ℕ
  | 0 => []
  | w + 1 => n / 16 ^ w % 16 :: hexDigits n w

def ofHexDigits (ds : List ℕ) : ℕ := ds.foldl (fun acc d => acc * 16 + d) 0

theorem hexDigits_succ_eq_append (n w : ℕ) :
    hexDigits n (w + 1) = hexDigits (n / 16) w ++ [n % 16] := by
  induction w generalizing n with
  | zero => simp [hexDigits]
  | succ w ih =>
    rw [hexDigits, ih, hexDigits, Nat.div_div_eq_div_mul, ← Nat.pow_succ']
    rfl

theorem length_hexDigits (n w : ℕ) : (hexDigits n w).length = w := by
  induction w with
  | zero => rfl
  | succ w ih => rw [hexDigits, List.length_cons, ih]

theorem lt_of_mem_hexDigits {n w d : ℕ} (h : d ∈ hexDigits n w) : d < 16 := by
  induction w with
  | zero => cases h
  | succ w ih =>
    rcases List.mem_cons.mp h with rfl | h
    · exact Nat.mod_lt _ (by norm_num)
    · exact ih h

theorem ofHexDigits_hexDigits (n w : ℕ) : ofHexDigits (hexDigits n w) = n % 16 ^ w := by
  induction w generalizing n with
  | zero => simp [hexDigits, ofHexDigits, Nat.mod_one]
  | succ w ih =>
    rw [hexDigits_succ_eq_append, ofHexDigits, List.foldl_append, ← ofHexDigits, ih]
    simp only [List.foldl_cons, List.foldl_nil]
    rw [Nat.pow_succ', Nat.mod_mul]
    ring

theorem nibble_getD_lt_iff : ∀ a, a < 16 → ∀ b, b < 16 →
    (nibble.getD a 0 < nibble.getD b 0 ↔ a < b) := by
  decide

theorem nibble_getD_injective : ∀ a, a < 16 → ∀ b, b < 16 →
    nibble.getD a 0 = nibble.getD b 0 → a = b := by
  decide

theorem hexDigits_zero (w : ℕ) : hexDigits 0 w = List.replicate w 0 := by
  induction w with
  | zero => rfl
  | succ w ih => rw [hexDigits, ih, Nat.zero_div, Nat.zero_mod, List.replicate_succ]

theorem indexToKeyLoop_eq (i n : ℕ) (rest : List UInt8) :
    indexToKeyLoop i n (List.replicate i (nibble.getD 0 0) ++ rest) =
      (hexDigits n i).map (nibble.getD · 0) ++ rest := by
  induction i generalizing n rest with
  | zero => rfl
  | succ i ih =>
    unfold indexToKeyLoop
    split_ifs with hn
    · -- the low digit goes to the last of the `i + 1` places, and the loop goes on
      have hdigit : ((n : ℤ) % 16).toNat = n % 16 := by omega
      have hset : (List.replicate (i + 1) (nibble.getD 0 0) ++ rest).set i
          (nibble.getD (n % 16) 0) =
          List.replicate i (nibble.getD 0 0) ++ (nibble.getD (n % 16) 0 :: rest) := by
        rw [List.replicate_succ', List.append_assoc, List.set_append_right _ _ (by simp)]
        simp
      rw [hdigit, hset, show (n : ℤ) / 16 = ((n / 16 : ℕ) : ℤ) by omega, ih,
        hexDigits_succ_eq_append]
      simp
    · -- nothing left to write: the remaining digits are zeros
      have hzero : n = 0 := by omega
      subst hzero
      rw [hexDigits_zero, List.map_replicate]

theorem indexToKey_natCast (n : ℕ) :
    indexToKey n = kEntryPrefix ++ (hexDigits n 16).map (nibble.getD · 0) := by
  rw [indexToKey, ← List.append_nil (List.replicate 16 _), indexToKeyLoop_eq, List.append_nil]

theorem indexToKey_of_nonpos {index : ℤ} (h : index ≤ 0) : indexToKey index = indexToKey 0 := by
  simp only [indexToKey, indexToKeyLoop, if_neg (not_lt.mpr h), lt_irrefl, if_false]

theorem byteValue_nibble : ∀ a, a < 16 → ∀ b, b < 16 →
    byteValue (nibble.getD a 0) (nibble.getD b 0) = .ok (UInt8.ofNat (16 * a + b)) := by
  decide

theorem binaryPairs_map_nibble : ∀ (ds : List ℕ), (∀ d ∈ ds, d < 16) → ds.length % 2 = 0 →
    ∃ bytes, binaryPairs (ds.map (nibble.getD · 0)) = .ok bytes ∧
      bytes.length = ds.length / 2 ∧
      ∀ acc, bytes.foldl (fun index b => index * 256 + b.toNat) acc =
        ds.foldl (fun acc d => acc * 16 + d) acc
  | [], _, _ => ⟨[], rfl, rfl, fun _ => rfl⟩
  | [_], _, hlen => absurd hlen (by simp)
  | a :: b :: rest, hds, hlen => by
    have ha := hds a (by simp)
    have hb := hds b (by simp)
    obtain ⟨bytes, hbin, hcount, hfold⟩ := binaryPairs_map_nibble rest
      (fun d hd => hds d (by simp [hd])) (by simp at hlen; omega)
    refine ⟨UInt8.ofNat (16 * a + b) :: bytes, ?_, ?_, fun acc => ?_⟩
    · simp only [List.map_cons, binaryPairs, byteValue_nibble a ha b hb, hbin]
      rfl
    · simp only [List.length_cons, hcount]
      omega
    · have hbyte : (UInt8.ofNat (16 * a + b)).toNat = 16 * a + b := by
        rw [UInt8.toNat_ofNat']
        omega
      rw [List.foldl_cons, hfold, hbyte, List.foldl_cons, List.foldl_cons]
      congr 1
      ring

theorem keyToIndex_indexToKey {n : ℕ} (h : n < 2 ^ 63) : keyToIndex (indexToKey n) = .ok n := by
  have hds : ∀ d ∈ hexDigits n 16, d < 16 := fun _ hd => lt_of_mem_hexDigits hd
  obtain ⟨bytes, hbin, hcount, hfold⟩ := binaryPairs_map_nibble (hexDigits n 16) hds
    (by rw [length_hexDigits])
  replace hcount : bytes.length = 8 := by rw [hcount, length_hexDigits]
  have hvalue : bytes.foldl (fun index b => index * 256 + b.toNat) 0 = n := by
    rw [hfold, ← ofHexDigits, ofHexDigits_hexDigits, Nat.mod_eq_of_lt (by omega)]
  have hlen : ((hexDigits n 16).map (nibble.getD · 0)).length % 2 = 0 := by
    rw [List.length_map, length_hexDigits]
  simp only [keyToIndex, indexToKey_natCast, List.prefix_append, not_true_eq_false, if_false,
    List.drop_left, binaryString, hlen, ne_eq, hbin, except_ok_bind, hcount, if_false, hvalue]
  rw [Int.bmod_eq_of_le (by omega) (by omega)]
  rfl

theorem append_lt_append_iff (p : List UInt8) {x y : List UInt8} : p ++ x < p ++ y ↔ x < y := by
  induction p with
  | nil => rfl
  | cons c p ih => simp [ih]

theorem lt_iff_of_mul_add {P ha hb ra rb : ℕ} (hra : ra < P) (hrb : rb < P) :
    ha * P + ra < hb * P + rb ↔ ha < hb ∨ ha = hb ∧ ra < rb := by
  constructor
  · intro hlt
    rcases Nat.lt_trichotomy ha hb with h | h | h
    · exact .inl h
    · subst h
      exact .inr ⟨rfl, by omega⟩
    · have : hb * P + P ≤ ha * P := by nlinarith
      omega
  · rintro (h | ⟨rfl, h⟩)
    · have : ha * P + P ≤ hb * P := by nlinarith
      omega
    · omega

theorem map_hexDigits_lt_iff (a b w : ℕ) :
    (hexDigits a w).map (nibble.getD · 0) < (hexDigits b w).map (nibble.getD · 0) ↔
      a % 16 ^ w < b % 16 ^ w := by
  induction w with
  | zero => simp [hexDigits, Nat.mod_one, List.lt_irrefl]
  | succ w ih =>
    have ha : a / 16 ^ w % 16 < 16 := Nat.mod_lt _ (by norm_num)
    have hb : b / 16 ^ w % 16 < 16 := Nat.mod_lt _ (by norm_num)
    have heq : nibble.getD (a / 16 ^ w % 16) 0 = nibble.getD (b / 16 ^ w % 16) 0 ↔
        a / 16 ^ w % 16 = b / 16 ^ w % 16 := by
      refine ⟨nibble_getD_injective _ ha _ hb, fun h => ?_⟩
      rw [h]
    rw [hexDigits, hexDigits, List.map_cons, List.map_cons, List.cons_lt_cons_iff,
      nibble_getD_lt_iff _ ha _ hb, heq, ih, Nat.mod_pow_succ, Nat.mod_pow_succ,
      Nat.add_comm (a % 16 ^ w), Nat.add_comm (b % 16 ^ w), Nat.mul_comm (16 ^ w),
      Nat.mul_comm (16 ^ w), lt_iff_of_mul_add (Nat.mod_lt _ (by positivity))
        (Nat.mod_lt _ (by positivity))]

theorem indexToKey_lt_iff {i j : ℕ} (hi : i < 2 ^ 63) (hj : j < 2 ^ 63) :
    indexToKey i < indexToKey j ↔ i < j := by
  rw [indexToKey_natCast, indexToKey_natCast, append_lt_append_iff, map_hexDigits_lt_iff,
    Nat.mod_eq_of_lt (by omega), Nat.mod_eq_of_lt (by omega)]

theorem indexToKey_lt_meta (index : ℤ) (rest : List UInt8) :
    indexToKey index < kMetaPrefix ++ rest :=
  List.cons_lt_cons_iff.mpr (.inl (by decide))

theorem indexToKey_lt_treeHead (index : ℤ) (rest : List UInt8) :
    indexToKey index < kTreeHeadPrefix ++ rest :=
  List.cons_lt_cons_iff.mpr (.inl (by decide))

theorem indexToKey_le_iff {i j : ℕ} (hi : i < 2 ^ 63) (hj : j < 2 ^ 63) :
    indexToKey i ≤ indexToKey j ↔ i ≤ j := by
  show ¬ indexToKey j < indexToKey i ↔ i ≤ j
  rw [indexToKey_lt_iff hj hi]
  omega

section Iterator

variable {storage : AList (fun _ : ℕ => LoggedEntry)} (hkeys : ∀ k ∈ storage.keys, k < 2 ^ 63)
include hkeys

theorem scanByKey_eq_scan : scanByKey storage = scan storage := by
  have hperm : (scanByKey storage).Perm storage.entries := List.mergeSort_perm _ _
  have hmem : ∀ e ∈ scanByKey storage, e.1 < 2 ^ 63 := fun e he =>
    hkeys e.1 (List.mem_keys_of_mem (hperm.mem_iff.mp he))
  have hle : (scanByKey storage).Pairwise
      fun a b => decide (indexToKey a.1 ≤ indexToKey b.1) = true := by
    apply List.pairwise_mergeSort
    · intro a b c hab hbc
      simp only [decide_eq_true_eq] at hab hbc ⊢
      exact List.le_trans hab hbc
    · intro a b
      simpa using List.le_total _ _
  have hne : (scanByKey storage).Pairwise fun a b => a.1 ≠ b.1 :=
    List.nodupKeys_iff_pairwise.mp ((List.perm_nodupKeys hperm).mpr storage.nodupKeys)
  have hlt : (scanByKey storage).Pairwise fun a b => a.1 < b.1 := by
    refine (hle.and hne).imp_of_mem fun ha hb hab => ?_
    obtain ⟨hkey, hne⟩ := hab
    rw [decide_eq_true_eq, indexToKey_le_iff (hmem _ ha) (hmem _ hb)] at hkey
    omega
  have : Std.Irrefl (fun a b : (Σ _ : ℕ, LoggedEntry) => a.1 < b.1) := ⟨fun a => lt_irrefl a.1⟩
  have : Std.Antisymm (fun a b : (Σ _ : ℕ, LoggedEntry) => a.1 < b.1) :=
    ⟨fun a b hab hba => absurd (hab.trans hba) (lt_irrefl a.1)⟩
  exact hlt.eq_of_mem_iff (Database.LevelDB.pairwise_scan storage) fun x =>
    hperm.mem_iff.trans (Database.LevelDB.scan_perm storage).mem_iff.symm

theorem seek_eq_filter_scan {start : ℤ} (hstart : start < 2 ^ 63) :
    seek storage start = (scan storage).filter fun e => decide (start ≤ e.1) := by
  rw [seek, scanByKey_eq_scan hkeys]
  apply List.filter_congr
  intro e he
  have he' : e.1 < 2 ^ 63 :=
    hkeys e.1 (List.mem_keys_of_mem ((Database.LevelDB.scan_perm storage).mem_iff.mp he))
  rcases le_or_gt start 0 with h | h
  · -- a negative start seeks the key of `0`
    have hkey : indexToKey ((0 : ℕ) : ℤ) ≤ indexToKey e.1 :=
      (indexToKey_le_iff (by norm_num) he').mpr (Nat.zero_le _)
    rw [indexToKey_of_nonpos h]
    simp only [Nat.cast_zero] at hkey
    simp only [hkey, decide_true, true_eq_decide_iff]
    omega
  · obtain ⟨s, rfl⟩ : ∃ s : ℕ, start = s := ⟨start.toNat, by omega⟩
    simp only [indexToKey_le_iff (by omega : s < 2 ^ 63) he', Nat.cast_le]

end Iterator

/-- The keys of the entries numbered `0` to `INT64_MAX`: `KeyToIndex` inverts
`IndexToKey`, the keys are in the order of the numbers, and they come before
every `meta-` and `sth-` key; so the iterator from `Seek(IndexToKey(start))`
visits the stored entries from `start` on in increasing order. -/
theorem indexToKey_order_embedding :
    (∀ i j : ℤ, 0 ≤ i → i ≤ 2 ^ 63 - 1 → 0 ≤ j → j ≤ 2 ^ 63 - 1 →
      keyToIndex (indexToKey i) = .ok i ∧ (indexToKey i < indexToKey j ↔ i < j) ∧
        ∀ rest, indexToKey i < kMetaPrefix ++ rest ∧ indexToKey i < kTreeHeadPrefix ++ rest) ∧
    ∀ storage : AList (fun _ : ℕ => LoggedEntry), (∀ k ∈ storage.keys, k ≤ 2 ^ 63 - 1) →
      ∀ start : ℤ, start ≤ 2 ^ 63 - 1 →
        seek storage start = (scan storage).filter fun e => decide (start ≤ e.1) := by
  refine ⟨fun i j hi hi' hj hj' => ?_, fun storage hkeys start hstart =>
    seek_eq_filter_scan (fun k hk => by have := hkeys k hk; omega) (by omega)⟩
  obtain ⟨m, rfl⟩ : ∃ m : ℕ, i = m := ⟨i.toNat, by omega⟩
  obtain ⟨n, rfl⟩ : ∃ n : ℕ, j = n := ⟨j.toNat, by omega⟩
  refine ⟨keyToIndex_indexToKey (by omega), ?_, fun rest => ⟨indexToKey_lt_meta _ rest,
    indexToKey_lt_treeHead _ rest⟩⟩
  rw [indexToKey_lt_iff (by omega) (by omega), Nat.cast_lt]

theorem indexToKey_order_embedding_zero_one :
    keyToIndex (indexToKey 0) = .ok 0 ∧ (indexToKey 0 < indexToKey 1 ↔ (0 : ℤ) < 1) ∧
      seek (((∅ : AList fun _ : ℕ => LoggedEntry).insert 10 {}).insert 2 {}) 3 =
        (scan (((∅ : AList fun _ : ℕ => LoggedEntry).insert 10 {}).insert 2 {})).filter
          fun e => decide ((3 : ℤ) ≤ e.1) :=
  ⟨(indexToKey_order_embedding.1 0 1 le_rfl (by norm_num) zero_le_one (by norm_num)).1,
    (indexToKey_order_embedding.1 0 1 le_rfl (by norm_num) zero_le_one (by norm_num)).2.1,
    indexToKey_order_embedding.2 _ (fun k hk => by simp at hk; omega) 3 (by norm_num)⟩

end LevelDB

end CertTrans
