import Mathlib.Control.Lawful
import Mathlib.Data.Nat.Bitwise
import Mathlib.Tactic.Ring

/-!
Byte strings as the wire of a binary format: big-endian unsigned integers of
a fixed width, and readers that consume a prefix of their input.

`decodeBE` inverts `encodeBE` on values that fit the width, and `encodeBE`
inverts `decodeBE` at the width it read.  A reader that succeeds splits its
input into what it consumed and what it left, so a format's decoder is
proved against its encoder one field at a time: `run_append` lemmas read an
encoding back, `run_eq_ok` lemmas recover the encoding from a success.
-/

namespace CertTrans.Codec

def encodeBE (n : Nat) : (width : Nat) → List UInt8
  | 0 => []
  | width + 1 => UInt8.ofNat (n >>> (8 * width)) :: encodeBE n width

def decodeBE (bs : List UInt8) : Nat := bs.foldl (fun acc b => acc * 256 + b.toNat) 0

@[simp] theorem length_encodeBE (n width : Nat) : (encodeBE n width).length = width := by
  induction width with
  | zero => rfl
  | succ width ih => simp [encodeBE, ih]

theorem shiftRight_eight_mul (n w : Nat) : n >>> (8 * w) = n / 256 ^ w := by
  rw [Nat.shiftRight_eq_div_pow, Nat.pow_mul]

theorem uint8_ofNat_mul_add (a : Nat) (b : UInt8) : UInt8.ofNat (a * 256 + b.toNat) = b := by
  apply UInt8.toNat_inj.mp
  rw [UInt8.toNat_ofNat', Nat.mul_comm, Nat.mul_add_mod, Nat.mod_eq_of_lt b.toNat_lt]

theorem foldl_decodeBE (bs : List UInt8) (a : Nat) :
    bs.foldl (fun acc b => acc * 256 + b.toNat) a = a * 256 ^ bs.length + decodeBE bs := by
  induction bs generalizing a with
  | nil => simp [decodeBE]
  | cons b bs ih =>
      simp only [decodeBE, List.foldl_cons, List.length_cons] at ih ⊢
      rw [ih, ih (0 * 256 + b.toNat), Nat.pow_succ]
      ring

theorem decodeBE_cons (b : UInt8) (bs : List UInt8) :
    decodeBE (b :: bs) = b.toNat * 256 ^ bs.length + decodeBE bs := by
  rw [decodeBE, List.foldl_cons, foldl_decodeBE, Nat.zero_mul, Nat.zero_add]

theorem decodeBE_lt (bs : List UInt8) : decodeBE bs < 256 ^ bs.length := by
  induction bs with
  | nil => simp [decodeBE]
  | cons b bs ih =>
      rw [decodeBE_cons, List.length_cons, Nat.pow_succ]
      have hb : b.toNat + 1 ≤ 256 := b.toNat_lt
      calc b.toNat * 256 ^ bs.length + decodeBE bs
          < (b.toNat + 1) * 256 ^ bs.length := by rw [Nat.succ_mul]; omega
        _ ≤ 256 ^ bs.length * 256 := by rw [Nat.mul_comm]; exact Nat.mul_le_mul_left _ hb

theorem decodeBE_encodeBE_mod (n width : Nat) :
    decodeBE (encodeBE n width) = n % 256 ^ width := by
  induction width with
  | zero => simp [encodeBE, decodeBE, Nat.mod_one]
  | succ width ih =>
      have hbyte : (UInt8.ofNat (n >>> (8 * width))).toNat = n / 256 ^ width % 256 := by
        rw [UInt8.toNat_ofNat', shiftRight_eight_mul]
      rw [encodeBE, decodeBE_cons, length_encodeBE, ih, hbyte, Nat.pow_succ, Nat.mod_mul]
      ring

theorem decodeBE_encodeBE {n width : Nat} (h : n < 256 ^ width) :
    decodeBE (encodeBE n width) = n := by
  rw [decodeBE_encodeBE_mod, Nat.mod_eq_of_lt h]

theorem encodeBE_mul_add_decodeBE (bs : List UInt8) (a : Nat) :
    encodeBE (a * 256 ^ bs.length + decodeBE bs) bs.length = bs := by
  induction bs generalizing a with
  | nil => rfl
  | cons b bs ih =>
      have hval : a * 256 ^ (bs.length + 1) + decodeBE (b :: bs) =
          (a * 256 + b.toNat) * 256 ^ bs.length + decodeBE bs := by
        rw [decodeBE_cons, Nat.pow_succ]
        ring
      have hhigh : ((a * 256 + b.toNat) * 256 ^ bs.length + decodeBE bs) / 256 ^ bs.length =
          a * 256 + b.toNat := by
        rw [Nat.add_comm, Nat.add_mul_div_right _ _ (Nat.pow_pos (by decide)),
          Nat.div_eq_of_lt (decodeBE_lt bs), Nat.zero_add]
      rw [List.length_cons, hval, encodeBE, shiftRight_eight_mul, hhigh, uint8_ofNat_mul_add, ih]

theorem encodeBE_decodeBE (bs : List UInt8) : encodeBE (decodeBE bs) bs.length = bs := by
  simpa using encodeBE_mul_add_decodeBE bs 0

theorem encodeBE_append_inj {a b width : Nat} (ha : a < 256 ^ width) (hb : b < 256 ^ width)
    {r s : List UInt8} (h : encodeBE a width ++ r = encodeBE b width ++ s) : a = b ∧ r = s := by
  obtain ⟨hab, hrs⟩ := List.append_inj h (by simp)
  refine ⟨?_, hrs⟩
  rw [← decodeBE_encodeBE ha, hab, decodeBE_encodeBE hb]

theorem encodeBE_length_append_inj {width : Nat} {xs ys r s : List UInt8}
    (hxs : xs.length < 256 ^ width) (hys : ys.length < 256 ^ width)
    (h : encodeBE xs.length width ++ xs ++ r = encodeBE ys.length width ++ ys ++ s) :
    xs = ys ∧ r = s := by
  rw [List.append_assoc, List.append_assoc] at h
  obtain ⟨hlen, hrest⟩ := encodeBE_append_inj hxs hys h
  exact List.append_inj hrest hlen

theorem flatMap_append_inj {α β : Type} {enc : α → List β} {P : α → Prop}
    (hcode : ∀ x y r s, P x → P y → enc x ++ r = enc y ++ s → x = y ∧ r = s) :
    ∀ {xs ys : List α}, xs.length = ys.length → (∀ x ∈ xs, P x) → (∀ y ∈ ys, P y) →
      ∀ {r s : List β}, xs.flatMap enc ++ r = ys.flatMap enc ++ s → xs = ys ∧ r = s
  | [], [], _, _, _, _, _, h => ⟨rfl, h⟩
  | x :: xs, y :: ys, hlen, hx, hy, r, s, h => by
    rw [List.flatMap_cons, List.flatMap_cons, List.append_assoc, List.append_assoc] at h
    obtain ⟨rfl, hrest⟩ := hcode x y _ _ (hx x List.mem_cons_self) (hy y List.mem_cons_self) h
    obtain ⟨rfl, hrs⟩ := flatMap_append_inj hcode (Nat.succ.inj hlen)
      (fun z hz => hx z (List.mem_cons_of_mem x hz)) (fun z hz => hy z (List.mem_cons_of_mem x hz))
      hrest
    exact ⟨rfl, hrs⟩

abbrev Reader := StateT (List UInt8) Option

def readBytes (n : Nat) : Reader (List UInt8) := fun input =>
  if input.length < n then none else some (input.take n, input.drop n)

theorem readBytes_run_append {n : Nat} {xs : List UInt8} (h : xs.length = n) (rest : List UInt8) :
    (readBytes n).run (xs ++ rest) = some (xs, rest) := by
  have hlen : ¬ (xs ++ rest).length < n := by simp [h]
  simp only [StateT.run, readBytes, if_neg hlen, List.take_left' h, List.drop_left' h]

theorem readBytes_run_eq_some {n : Nat} {input xs rest : List UInt8}
    (h : (readBytes n).run input = some (xs, rest)) : xs.length = n ∧ input = xs ++ rest := by
  simp only [StateT.run, readBytes] at h
  split at h
  · cases h
  · cases h
    exact ⟨by simp; omega, (List.take_append_drop n input).symm⟩

section Throw

variable {m : Type → Type} [Monad m] {ε : outParam Type} [MonadExcept ε m] {α : Type}

def Reader.orThrow (r : Reader α) (e : ε) : StateT (List UInt8) m α := fun input =>
  match r.run input with
  | some p => pure p
  | none => throw e

theorem Reader.orThrow_run_of_some {r : Reader α} {input : List UInt8} {p : α × List UInt8}
    (h : r.run input = some p) (e : ε) : (r.orThrow e : StateT _ m α).run input = pure p := by
  simp only [StateT.run, Reader.orThrow] at h ⊢
  rw [h]

end Throw

section Except

variable {ε α β : Type}

@[simp] theorem except_ok_bind (a : α) (f : α → Except ε β) : (Except.ok a >>= f) = f a := rfl

theorem except_bind_eq_ok {x : Except ε α} {f : α → Except ε β} {b : β} :
    x >>= f = .ok b ↔ ∃ a, x = .ok a ∧ f a = .ok b := by
  cases x <;> simp [bind, Except.bind]

theorem except_map_eq_ok {x : Except ε α} {f : α → β} {b : β} :
    f <$> x = .ok b ↔ ∃ a, x = .ok a ∧ f a = b := by
  cases x <;> simp [Functor.map, Except.map]

theorem except_map_toOption_eq_ok_some {ε' : Type} {x : Except ε' (Except ε α)} {a : α} :
    Except.toOption <$> x = .ok (some a) ↔ x = .ok (.ok a) := by
  rcases x with e | e | a' <;> simp [Functor.map, Except.map, Except.toOption]

theorem ite_eq_ok_iff_of_ne_ok {c : Prop} [Decidable c] {y x : Except ε α} {b : α}
    (hy : ∀ a, y ≠ .ok a) : (if c then y else x) = .ok b ↔ ¬ c ∧ x = .ok b := by
  split
  · exact iff_of_false (hy b) fun h => h.1 ‹c›
  · exact ⟨fun h => ⟨‹¬c›, h⟩, fun h => h.2⟩

theorem mapM_eq_ok_of_forall {f : α → Except ε β} {g : α → β} {xs : List α}
    (h : ∀ x ∈ xs, f x = .ok (g x)) : xs.mapM f = .ok (xs.map g) := by
  induction xs with
  | nil => rfl
  | cons x xs ih =>
      rw [List.mapM_cons, h x List.mem_cons_self, except_ok_bind,
        ih fun y hy => h y (List.mem_cons_of_mem x hy), except_ok_bind]
      rfl

theorem exists_ok_of_mapM_eq_ok {f : α → Except ε β} {xs : List α} {ys : List β}
    (h : xs.mapM f = .ok ys) : ∀ x ∈ xs, ∃ y, f x = .ok y := by
  induction xs generalizing ys with
  | nil => simp
  | cons x xs ih =>
      rw [List.mapM_cons] at h
      obtain ⟨y, hy, hrest⟩ := except_bind_eq_ok.mp h
      obtain ⟨ys', hys', -⟩ := except_bind_eq_ok.mp hrest
      intro z hz
      rcases List.mem_cons.mp hz with rfl | hz
      · exact ⟨y, hy⟩
      · exact ih hys' z hz

theorem bind_run_eq_ok {x : StateT (List UInt8) (Except ε) α}
    {f : α → StateT (List UInt8) (Except ε) β} {input rest : List UInt8} {b : β}
    (h : (x >>= f).run input = .ok (b, rest)) :
    ∃ a mid, x.run input = .ok (a, mid) ∧ (f a).run mid = .ok (b, rest) := by
  rw [StateT.run_bind] at h
  rcases hx : x.run input with e | ⟨a, mid⟩
  · rw [hx] at h
    cases h
  · rw [hx] at h
    exact ⟨a, mid, rfl, h⟩

theorem Reader.orThrow_run_eq_ok {r : Reader α} {e : ε} {input rest : List UInt8} {a : α}
    (h : (r.orThrow e : StateT _ (Except ε) α).run input = .ok (a, rest)) :
    r.run input = some (a, rest) := by
  simp only [StateT.run, Reader.orThrow] at h ⊢
  split at h
  · cases h
    assumption
  · cases h

theorem mapM_eq_some_of_forall {f : α → Option β} {g : α → β} {xs : List α}
    (h : ∀ x ∈ xs, f x = some (g x)) : xs.mapM f = some (xs.map g) := by
  induction xs with
  | nil => rfl
  | cons x xs ih =>
    rw [List.mapM_cons, h x List.mem_cons_self, ih fun y hy => h y (List.mem_cons_of_mem x hy)]
    rfl

end Except

section ExceptT

variable {ε ω α β : Type}

end ExceptT

end CertTrans.Codec
