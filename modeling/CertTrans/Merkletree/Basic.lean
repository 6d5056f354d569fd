import Mathlib.Data.Nat.Log
import CertTrans.LeftBalanced.Proofs

/-!
Hashing and index arithmetic shared by the Merkle tree classes
(`serial_hasher.h`, `tree_hasher.cc`, `merkle_tree_math.cc`).

The tree code reaches the hash function only through a `TreeHasher`.  In
production it is `TreeHasher(new Sha256Hasher)`, which prefixes a domain
separation byte and hashes with OpenSSL's SHA-256.  OpenSSL is not part of the
repository, so the `SerialHasher` is a parameter; `TreeHasher.ofSerialHasher`
is the construction of `tree_hasher.cc` on top of it.
-/

namespace CertTrans

abbrev ByteString := List UInt8

structure SerialHasher where
  digestSize : Nat
  digest : ByteString → ByteString

structure TreeHasher where
  digestSize : Nat
  hashEmpty : ByteString
  hashLeaf : ByteString → ByteString
  hashChildren : ByteString → ByteString → ByteString

namespace TreeHasher

def kLeafPrefix : UInt8 := 0x00

def kNodePrefix : UInt8 := 0x01

/-- `TreeHasher(hasher)` of `tree_hasher.cc`: the empty hash is the digest of
no input, leaves and interior nodes are prefixed with distinct bytes. -/
def ofSerialHasher (hasher : SerialHasher) : TreeHasher where
  digestSize := hasher.digestSize
  hashEmpty := hasher.digest []
  hashLeaf data := hasher.digest (kLeafPrefix :: data)
  hashChildren leftChild rightChild := hasher.digest (kNodePrefix :: (leftChild ++ rightChild))

section DomainSeparation

variable {hasher : SerialHasher} (hinj : Function.Injective hasher.digest)
include hinj

end DomainSeparation

end TreeHasher

namespace MerkleTreeMath

def isPowerOfTwoPlusOne (leafCount : Nat) : Bool :=
  if leafCount = 0 then false
  else if leafCount = 1 then true
  else ((leafCount - 1) &&& (leafCount - 2)) == 0

/-- `Parent`: index of the parent node in the parent level. -/
def parent (leaf : Nat) : Nat := leaf >>> 1

/-- `IsRightChild`: `leaf & 1`. -/
def isRightChild (leaf : Nat) : Bool := (leaf &&& 1) != 0

/-- `Sibling`: index of the node's left or right sibling in the same level. -/
def sibling (leaf : Nat) : Nat := if isRightChild leaf then leaf - 1 else leaf + 1

@[simp] theorem parent_eq (leaf : Nat) : parent leaf = leaf / 2 := by
  simp [parent, Nat.shiftRight_eq_div_pow]

@[simp] theorem isRightChild_eq_true_iff (leaf : Nat) :
    isRightChild leaf = true ↔ leaf % 2 = 1 := by
  simp only [isRightChild, Nat.and_one_is_mod, bne_iff_ne, ne_eq]
  omega

@[simp] theorem isRightChild_eq_false_iff (leaf : Nat) :
    isRightChild leaf = false ↔ leaf % 2 = 0 := by
  rw [← Bool.not_eq_true, isRightChild_eq_true_iff]
  omega

theorem sibling_eq (leaf : Nat) :
    sibling leaf = if leaf % 2 = 1 then leaf - 1 else leaf + 1 := by
  by_cases h : leaf % 2 = 1 <;> simp [sibling, h]

theorem shiftRight_le_shiftRight {a b : Nat} (h : a ≤ b) (l : Nat) : a >>> l ≤ b >>> l := by
  rw [Nat.shiftRight_eq_div_pow, Nat.shiftRight_eq_div_pow]
  exact Nat.div_le_div_right h

theorem rightChild_block_succ {x k : Nat} (hx : x % 2 = 1) (heven : (x / 2) >>> k % 2 = 0)
    (hblock : x / 2 + 1 = 2 ^ k * ((x / 2) >>> k + 1)) :
    x >>> (k + 1) % 2 = 0 ∧ x + 1 = 2 ^ (k + 1) * (x >>> (k + 1) + 1) := by
  refine ⟨by rwa [Nat.shiftRight_succ_inside], ?_⟩
  rw [Nat.shiftRight_succ_inside, Nat.pow_succ, Nat.mul_comm (2 ^ k) 2, Nat.mul_assoc, ← hblock]
  omega

def levelsFor (n : Nat) : Nat := if n = 0 then 0 else Nat.size (n - 1) + 1

theorem levelsFor_pos {n : Nat} (hn : 0 < n) : levelsFor n = Nat.size (n - 1) + 1 := by
  simp [levelsFor, Nat.pos_iff_ne_zero.mp hn]

theorem lt_levelsFor_of_two_pow_le {l n : Nat} (h : 2 ^ l ≤ n) : l < levelsFor n := by
  have := Nat.two_pow_pos l
  rw [levelsFor_pos (by omega), Nat.lt_succ_iff]
  rcases l with _ | l
  · exact Nat.zero_le _
  · rw [Nat.pow_succ] at h
    exact Nat.lt_size.mpr (by have := Nat.two_pow_pos l; omega)

theorem isPowerOfTwoPlusOne_succ (n : Nat) :
    isPowerOfTwoPlusOne (n + 1) = true ↔ n = 0 ∨ n.isPowerOfTwo := by
  unfold isPowerOfTwoPlusOne
  rcases n with _ | n
  · simp
  · rw [if_neg (by omega), if_neg (by omega), beq_iff_eq,
      show n + 1 + 1 - 1 = n + 1 by omega, show n + 1 + 1 - 2 = n + 1 - 1 by omega,
      Nat.and_sub_one_eq_zero_iff_isPowerOfTwo (by omega)]
    simp

theorem size_of_isPowerOfTwo {n : Nat} (h : n.isPowerOfTwo) :
    Nat.size n = Nat.size (n - 1) + 1 := by
  obtain ⟨k, rfl⟩ := h
  rw [Nat.size_pow]
  congr 1
  apply le_antisymm
  · rcases k with _ | k
    · simp
    · exact Nat.succ_le_of_lt
        (Nat.lt_size.mpr (by rw [Nat.pow_succ]; have := Nat.two_pow_pos k; omega))
  · exact Nat.size_le.mpr (by have := Nat.two_pow_pos k; omega)

theorem size_of_not_isPowerOfTwo {n : Nat} (hn : 0 < n) (h : ¬ n.isPowerOfTwo) :
    Nat.size n = Nat.size (n - 1) := by
  apply le_antisymm
  · apply Nat.size_le.mpr
    have hlt : n - 1 < 2 ^ Nat.size (n - 1) := Nat.lt_size_self _
    have hne : n ≠ 2 ^ Nat.size (n - 1) := fun heq => h ⟨_, heq⟩
    omega
  · exact Nat.size_le_size (by omega)

theorem levelsFor_succ (n : Nat) :
    levelsFor (n + 1) =
      if isPowerOfTwoPlusOne (n + 1) then levelsFor n + 1 else levelsFor n := by
  rcases n with _ | n
  · simp [levelsFor, isPowerOfTwoPlusOne]
  · by_cases hpow : (n + 1).isPowerOfTwo
    · have hplus : isPowerOfTwoPlusOne (n + 1 + 1) = true :=
        (isPowerOfTwoPlusOne_succ _).mpr (Or.inr hpow)
      rw [if_pos hplus, levelsFor_pos (by omega), levelsFor_pos (by omega),
        Nat.add_sub_cancel, size_of_isPowerOfTwo hpow]
    · have hplus : isPowerOfTwoPlusOne (n + 1 + 1) = false := by
        rw [← Bool.not_eq_true, isPowerOfTwoPlusOne_succ]
        rintro (h | h)
        · omega
        · exact hpow h
      rw [if_neg (by simp [hplus]), levelsFor_pos (by omega), levelsFor_pos (by omega),
        Nat.add_sub_cancel, size_of_not_isPowerOfTwo (by omega) hpow]

theorem size_pred_eq_clog {n : Nat} (hn : 0 < n) : Nat.size (n - 1) = Nat.clog 2 n := by
  refine eq_of_forall_ge_iff fun c => ?_
  rw [Nat.size_le, Nat.clog_le_iff_le_pow (by norm_num)]
  omega

theorem levelsFor_eq_clog {n : Nat} (hn : 0 < n) : levelsFor n = Nat.clog 2 n + 1 := by
  rw [levelsFor_pos hn, size_pred_eq_clog hn]

theorem levelsFor_eq_countP (n : Nat) :
    levelsFor n = (List.range n).countP (fun k => isPowerOfTwoPlusOne (k + 1)) := by
  induction n with
  | zero => rfl
  | succ n ih =>
    rw [levelsFor_succ, List.range_succ, List.countP_append, ← ih]
    split_ifs with h <;> simp [h]

end MerkleTreeMath

end CertTrans
