import CertTrans.Codec.Bytes
import CertTrans.LeftBalanced.Peaks
import CertTrans.Merkletree.MerkleVerifier
import CertTrans.Python.Merkle

/-!
The Python `CompactMerkleTree` refines the RFC 6962 tree hash.

A tree holding the leaves `D` keeps the hashes of the maximal full subtrees
over `D`, the peaks of `LeftBalanced`, with one hash per set bit of its size
and its smallest subtree's height as the lowest set bit.  `_hash_full` computes
the root and the peaks of any range of leaves; `__push_subtree_hash` keeps the
relation for a full subtree no larger than the smallest one, through every
carry; the loop of `extend` pushes such subtrees until the leaves left fit
below the smallest one, and those add their own peaks.  Folded, the peaks give
the root, so `root_hash()` is the tree hash of all the leaves added.
-/

namespace CertTrans.Python.Merkle

open LeftBalanced Codec

section BitCounting

theorem exists_eq_lowestBit {n : Nat} (hn : n ≠ 0) : ∃ j q, n = 2 ^ (j + 1) * q + 2 ^ j := by
  obtain ⟨j, m, hodd, rfl⟩ := Nat.exists_eq_two_pow_mul_odd hn
  obtain ⟨q, rfl⟩ := hodd
  refine ⟨j, q, ?_⟩
  rw [Nat.pow_succ]
  ring

theorem pred_lowestBit (j q : Nat) :
    2 ^ (j + 1) * q + 2 ^ j - 1 = 2 ^ (j + 1) * q + (2 ^ j - 1) := by
  have := Nat.two_pow_pos j
  omega

theorem and_pred_eq (j q : Nat) :
    (2 ^ (j + 1) * q + 2 ^ j) &&& (2 ^ (j + 1) * q + 2 ^ j - 1) = 2 ^ (j + 1) * q := by
  have hlt : 2 ^ j < 2 ^ (j + 1) := Nat.pow_lt_pow_right (by decide) (Nat.lt_succ_self j)
  apply Nat.eq_of_testBit_eq
  intro i
  rw [pred_lowestBit, Nat.testBit_and, Nat.testBit_two_pow_mul_add q hlt,
    Nat.testBit_two_pow_mul_add q (by omega), ← Nat.add_zero (2 ^ (j + 1) * q),
    Nat.testBit_two_pow_mul_add q (Nat.two_pow_pos _), Nat.add_zero]
  split
  · -- below the lowest set bit, `2 ^ j` and `2 ^ j - 1` share no bit
    simp only [Nat.testBit_two_pow, Nat.testBit_two_pow_sub_one, Nat.zero_testBit]
    rcases Nat.lt_or_ge i j with hij | hij
    · simp [hij, Nat.ne_of_gt hij]
    · simp [hij]
  · simp

theorem ldiff_pred_eq (j q : Nat) :
    Nat.ldiff (2 ^ (j + 1) * q + 2 ^ j) (2 ^ (j + 1) * q + 2 ^ j - 1) = 2 ^ j := by
  have hlt : 2 ^ j < 2 ^ (j + 1) := Nat.pow_lt_pow_right (by decide) (Nat.lt_succ_self j)
  apply Nat.eq_of_testBit_eq
  intro i
  rw [pred_lowestBit, Nat.testBit_ldiff, Nat.testBit_two_pow_mul_add q hlt,
    Nat.testBit_two_pow_mul_add q (by omega)]
  split
  · simp only [Nat.testBit_two_pow, Nat.testBit_two_pow_sub_one]
    rcases Nat.lt_or_ge i j with hij | hij
    · simp [hij, Nat.ne_of_gt hij]
    · simp [hij]
  · simp only [Bool.and_not_self, Nat.testBit_two_pow]
    simp
    omega

theorem countBitsSet_zero : countBitsSet 0 = 0 := by
  rw [countBitsSet, if_pos rfl]

theorem countBitsSet_lowestBit (j q : Nat) :
    countBitsSet (2 ^ (j + 1) * q + 2 ^ j) = countBitsSet (2 ^ (j + 1) * q) + 1 := by
  rw [countBitsSet, if_neg (by have := Nat.two_pow_pos j; omega), and_pred_eq]

theorem countBitsSet_two_pow (j : Nat) : countBitsSet (2 ^ j) = 1 := by
  have h := countBitsSet_lowestBit j 0
  rwa [Nat.mul_zero, Nat.zero_add, countBitsSet_zero] at h

theorem lowestBitSet_zero : lowestBitSet 0 = 0 := by
  decide

theorem lowestBitSet_lowestBit (j q : Nat) : lowestBitSet (2 ^ (j + 1) * q + 2 ^ j) = j + 1 := by
  have hneg : -((2 ^ (j + 1) * q + 2 ^ j : Nat) : Int) =
      Int.negSucc (2 ^ (j + 1) * q + 2 ^ j - 1) := by
    have := Nat.two_pow_pos j
    rw [Int.negSucc_eq]
    omega
  rw [lowestBitSet, hneg]
  show Nat.size (Int.toNat (Nat.ldiff _ _ : Int)) = j + 1
  rw [ldiff_pred_eq, Int.toNat_natCast, Nat.size_pow]

theorem lowestBitSet_two_pow (j : Nat) : lowestBitSet (2 ^ j) = j + 1 := by
  have h := lowestBitSet_lowestBit j 0
  rwa [Nat.mul_zero, Nat.zero_add] at h

theorem two_pow_dvd_iff {n j : Nat} (hn : n ≠ 0) : 2 ^ j ∣ n ↔ j < lowestBitSet n := by
  obtain ⟨i, q, rfl⟩ := exists_eq_lowestBit hn
  rw [lowestBitSet_lowestBit]
  constructor
  · intro hdvd
    by_contra hge
    have hdvd' : 2 ^ (i + 1) ∣ 2 ^ (i + 1) * q + 2 ^ i :=
      Nat.dvd_trans (Nat.pow_dvd_pow 2 (by omega)) hdvd
    have hi : 2 ^ (i + 1) ∣ 2 ^ i := (Nat.dvd_add_right (Dvd.intro q rfl)).mp hdvd'
    have := Nat.le_of_dvd (Nat.two_pow_pos i) hi
    rw [Nat.pow_succ] at this
    have := Nat.two_pow_pos i
    omega
  · intro hj
    apply Nat.dvd_add
    · exact Nat.dvd_trans (Nat.pow_dvd_pow 2 (by omega)) (Dvd.intro q rfl)
    · exact Nat.pow_dvd_pow 2 (by omega)

theorem length_peaks {α : Type*} (node : α → α → α) (empty : α) (xs : List α) :
    (peaks node empty xs).length = countBitsSet xs.length := by
  induction hn : xs.length using Nat.strong_induction_on generalizing xs with
  | _ n ih =>
      subst hn
      by_cases hxs : xs.length = 0
      · rw [List.eq_nil_of_length_eq_zero hxs, peaks_nil, List.length_nil, countBitsSet_zero]
      obtain ⟨j, q, hlen⟩ := exists_eq_lowestBit hxs
      have hpos := Nat.two_pow_pos j
      have htake : (xs.take (2 ^ (j + 1) * q)).length = 2 ^ (j + 1) * q := by
        rw [List.length_take]
        omega
      have hdrop : (xs.drop (2 ^ (j + 1) * q)).length = 2 ^ j := by
        rw [List.length_drop]
        omega
      conv_lhs => rw [← List.take_append_drop (2 ^ (j + 1) * q) xs]
      rw [peaks_append_block node empty (by rw [htake]; exact Dvd.intro q rfl) hdrop,
        List.length_append, List.length_singleton, ih _ (by omega) _ htake, hlen,
        countBitsSet_lowestBit]

end BitCounting

variable (th : TreeHasher)

def fullSubtreeHashes (D : List ByteString) : List ByteString :=
  peaks th.hashChildren th.hashEmpty (D.map th.hashLeaf)

section FullSubtrees

@[simp] theorem fullSubtreeHashes_nil : fullSubtreeHashes th [] = [] := by
  rw [fullSubtreeHashes, List.map_nil, peaks_nil]

theorem length_fullSubtreeHashes (D : List ByteString) :
    (fullSubtreeHashes th D).length = countBitsSet D.length := by
  rw [fullSubtreeHashes, length_peaks, List.length_map]

theorem fullSubtreeHashes_eq_nil_iff {D : List ByteString} :
    fullSubtreeHashes th D = [] ↔ D = [] := by
  constructor
  · intro h
    by_contra hD
    have hne : D.map th.hashLeaf ≠ [] := by simpa using hD
    have := length_peaks_pos th.hashChildren th.hashEmpty hne
    rw [← fullSubtreeHashes, h] at this
    exact absurd this (by simp)
  · rintro rfl
    exact fullSubtreeHashes_nil th

theorem fullSubtreeHashes_of_length_eq_two_pow {D : List ByteString} {j : Nat}
    (h : D.length = 2 ^ j) : fullSubtreeHashes th D = [th.mth D] := by
  rw [fullSubtreeHashes, peaks_of_length_eq_two_pow _ _ (by rw [List.length_map, h]),
    TreeHasher.mth]

theorem fullSubtreeHashes_append {D : List ByteString} (E : List ByteString) {j : Nat}
    (hD : 2 ^ j ∣ D.length) (hE : E.length < 2 ^ j) :
    fullSubtreeHashes th (D ++ E) = fullSubtreeHashes th D ++ fullSubtreeHashes th E := by
  rw [fullSubtreeHashes, List.map_append,
    peaks_append _ _ _ (by rwa [List.length_map]) (by rwa [List.length_map])]
  rfl

theorem fullSubtreeHashes_append_block {D B : List ByteString} {j : Nat}
    (hD : 2 ^ (j + 1) ∣ D.length) (hB : B.length = 2 ^ j) :
    fullSubtreeHashes th (D ++ B) = fullSubtreeHashes th D ++ [th.mth B] := by
  rw [fullSubtreeHashes, List.map_append,
    peaks_append_block _ _ (by rwa [List.length_map]) (by rwa [List.length_map])]
  rfl

theorem foldPeaks_fullSubtreeHashes (D : List ByteString) :
    foldPeaks th.hashChildren th.hashEmpty (fullSubtreeHashes th D) = th.mth D :=
  foldPeaks_peaks _ _ _

theorem mth_append_of_length_eq {left right : List ByteString} {j : Nat}
    (hleft : left.length = 2 ^ j) (hright : right.length = 2 ^ j) :
    th.mth (left ++ right) = th.hashChildren (th.mth left) (th.mth right) := by
  rw [TreeHasher.mth, List.map_append,
    root_append_of_length_eq _ _ (by rwa [List.length_map]) (by rwa [List.length_map])]
  rfl

end FullSubtrees

section HashFull

theorem two_pow_size_pred_eq_split {w : Nat} (hw : 2 ≤ w) :
    2 ^ (Nat.size (w - 1) - 1) = split w := by
  have hsize : 0 < Nat.size (w - 1) := Nat.lt_size.mpr (by omega)
  have hle : 2 ^ (Nat.size (w - 1) - 1) ≤ w - 1 := Nat.lt_size.mp (by omega)
  have hlt : w - 1 < 2 ^ Nat.size (w - 1) := Nat.lt_size_self _
  have htwice : 2 * 2 ^ (Nat.size (w - 1) - 1) = 2 ^ Nat.size (w - 1) := by
    rw [← Nat.pow_succ']
    congr 1
    omega
  exact (split_eq (by omega) (by omega)).symm

theorem mth_of_two_le {D : List ByteString} (h : 2 ≤ D.length) :
    th.mth D = th.hashChildren (th.mth (D.take (split D.length)))
      (th.mth (D.drop (split D.length))) := by
  rw [TreeHasher.mth, root_of_two_le _ _ _ (by rwa [List.length_map]), List.length_map,
    ← List.map_take, ← List.map_drop]
  rfl

theorem fullSubtreeHashes_of_lt_two_mul_split {D : List ByteString} (h : 2 ≤ D.length)
    (hlt : D.length < 2 * split D.length) :
    fullSubtreeHashes th D =
      th.mth (D.take (split D.length)) :: fullSubtreeHashes th (D.drop (split D.length)) := by
  have hblock : blockSize D.length = split D.length :=
    blockSize_of_lt_two_mul_split h hlt
  have hne : D.map th.hashLeaf ≠ [] := by
    rw [ne_eq, List.map_eq_nil_iff]
    exact List.ne_nil_of_length_pos (by omega)
  rw [fullSubtreeHashes, peaks_of_ne_nil _ _ hne, List.length_map, hblock, ← List.map_take,
    ← List.map_drop]
  rfl

theorem hashFull_eq (leaves : List ByteString) {l r : Nat} (hlr : l ≤ r)
    (hr : r ≤ leaves.length) :
    hashFull th leaves l r =
      .ok (th.mth ((leaves.drop l).take (r - l)),
        fullSubtreeHashes th ((leaves.drop l).take (r - l))) := by
  induction hw : r - l using Nat.strong_induction_on generalizing l r with
  | _ w ih =>
      subst hw
      have hslice : ((leaves.drop l).take (r - l)).length = r - l := by
        rw [List.length_take, List.length_drop]
        omega
      rw [hashFull, if_neg (by omega)]
      by_cases h0 : r - l = 0
      · -- no leaves: the empty hash
        rw [if_pos h0, h0, List.take_zero, fullSubtreeHashes_nil, TreeHasher.mth,
          List.map_nil, root_nil]
        rfl
      rw [if_neg h0]
      by_cases h1 : r - l = 1
      · -- one leaf is its own tree
        have hone : (leaves.drop l).take (r - l) = [leaves.getD l []] := by
          rw [h1, List.drop_eq_getElem_cons (by omega), List.getD_eq_getElem _ _ (by omega)]
          rfl
        rw [if_pos h1, hone, fullSubtreeHashes_of_length_eq_two_pow th (j := 0) rfl,
          TreeHasher.mth, List.map_singleton, root_singleton]
        rfl
      rw [if_neg h1]
      dsimp only
      have h2 : 2 ≤ r - l := by omega
      have hs := split_lt h2
      have hs0 := split_pos (r - l)
      obtain ⟨k, hk⟩ := split_eq_pow (r - l)
      rw [two_pow_size_pred_eq_split h2, if_pos ⟨hs, le_two_mul_split h2⟩]
      have hleft := ih (split (r - l)) (by omega) (l := l) (r := l + split (r - l)) (by omega)
        (by omega) (by omega)
      have hright := ih (r - (l + split (r - l))) (by omega) (l := l + split (r - l)) (r := r)
        (by omega) hr rfl
      rw [fullSubtreeHashes_of_length_eq_two_pow th (j := k)
        (by rw [List.length_take, List.length_drop, ← hk]; omega)] at hleft
      rw [hleft, except_ok_bind]
      dsimp only
      rw [if_neg (by simp), hright, except_ok_bind]
      dsimp only
      have htake : ((leaves.drop l).take (r - l)).take (split (r - l)) =
          (leaves.drop l).take (split (r - l)) := by
        rw [List.take_take, Nat.min_eq_left hs.le]
      have hdrop : ((leaves.drop l).take (r - l)).drop (split (r - l)) =
          (leaves.drop (l + split (r - l))).take (r - (l + split (r - l))) := by
        rw [List.drop_take, List.drop_drop]
        congr 1
        omega
      have hroot := mth_of_two_le th (D := (leaves.drop l).take (r - l)) (by rw [hslice]; exact h2)
      rw [hslice, htake, hdrop] at hroot
      rw [← hroot]
      split_ifs with hfull
      · -- a full tree is its own only subtree
        rw [fullSubtreeHashes_of_length_eq_two_pow th (j := k + 1)
          (by rw [hslice, Nat.pow_succ, ← hk]; omega)]
        rfl
      · have hsplit := fullSubtreeHashes_of_lt_two_mul_split th
          (D := (leaves.drop l).take (r - l)) (by rw [hslice]; exact h2)
          (by rw [hslice]; have := le_two_mul_split h2; omega)
        rw [hslice, htake, hdrop] at hsplit
        rw [hsplit]
        rfl

theorem hashFold_eq {hashes : List ByteString} (hne : hashes ≠ []) :
    hashFold th hashes = .ok (foldPeaks th.hashChildren th.hashEmpty hashes) := by
  obtain ⟨init, last, rfl⟩ : ∃ init last, hashes = init ++ [last] :=
    ⟨hashes.dropLast, hashes.getLast hne, (List.dropLast_append_getLast hne).symm⟩
  rw [hashFold, List.reverse_append, List.reverse_singleton, List.singleton_append]
  dsimp only
  rw [List.foldl_reverse, foldPeaks_append_singleton]
  rfl

theorem mth_nil : th.mth [] = th.hashEmpty := by
  rw [TreeHasher.mth, List.map_nil, root_nil]

theorem hashFold_fullSubtreeHashes {D : List ByteString} (hD : D ≠ []) :
    hashFold th (fullSubtreeHashes th D) = .ok (th.mth D) := by
  rw [hashFold_eq th (by rwa [ne_eq, fullSubtreeHashes_eq_nil_iff]), foldPeaks_fullSubtreeHashes]

theorem hashFullTree_eq (leaves : List ByteString) : hashFullTree th leaves = .ok (th.mth leaves) := by
  have hfull := hashFull_eq th leaves (Nat.zero_le _) le_rfl
  rw [List.drop_zero, Nat.sub_zero, List.take_length] at hfull
  rw [hashFullTree, hfull, except_ok_bind]
  dsimp only
  rw [if_neg (by rw [length_fullSubtreeHashes]; exact not_not_intro rfl)]
  by_cases hnil : leaves = []
  · -- no leaves: the root is the empty hash
    subst hnil
    rw [fullSubtreeHashes_nil, if_neg (not_not_intro rfl), mth_nil, if_neg (not_not_intro rfl)]
    rfl
  · have hne : fullSubtreeHashes th leaves ≠ [] := by
      rwa [ne_eq, fullSubtreeHashes_eq_nil_iff]
    rw [if_pos hne, hashFold_fullSubtreeHashes th hnil, except_ok_bind, if_neg (not_not_intro rfl)]
    rfl

end HashFull

namespace CompactMerkleTree

structure Represents (t : CompactMerkleTree) (D : List ByteString) : Prop where
  treeSize_eq : t.treeSize = D.length
  hashes_eq : t.hashes = fullSubtreeHashes th D
  mintreeHeight_eq : t.mintreeHeight = lowestBitSet D.length
  cachedRootHash_eq : ∀ h, t.cachedRootHash = some h → h = th.mth D

def ofLeaves (D : List ByteString) : CompactMerkleTree :=
  ⟨D.length, fullSubtreeHashes th D, lowestBitSet D.length, none⟩

@[simp] theorem ofLeaves_treeSize (D : List ByteString) : (ofLeaves th D).treeSize = D.length :=
  rfl

@[simp] theorem ofLeaves_mintreeHeight (D : List ByteString) :
    (ofLeaves th D).mintreeHeight = lowestBitSet D.length :=
  rfl

section Invariant

variable {th}

theorem update_fullSubtreeHashes (D : List ByteString) :
    update D.length (fullSubtreeHashes th D) = .ok (ofLeaves th D) := by
  rw [update, if_neg (by rw [length_fullSubtreeHashes]; exact not_not_intro rfl)]
  rfl

theorem represents_ofLeaves (D : List ByteString) : Represents th (ofLeaves th D) D where
  treeSize_eq := rfl
  hashes_eq := rfl
  mintreeHeight_eq := rfl
  cachedRootHash_eq := fun _ h => nomatch h

variable {t : CompactMerkleTree} {D : List ByteString}

theorem Represents.length_hashes (h : Represents th t D) :
    t.hashes.length = countBitsSet t.treeSize := by
  rw [h.hashes_eq, h.treeSize_eq, length_fullSubtreeHashes]

theorem Represents.withCache (h : Represents th t D) :
    Represents th { t with cachedRootHash := some (th.mth D) } D :=
  ⟨h.treeSize_eq, h.hashes_eq, h.mintreeHeight_eq, fun _ hc => (Option.some.inj hc).symm⟩

theorem Represents.rootHash (h : Represents th t D) :
    ∃ t', t.rootHash th = .ok (th.mth D, t') ∧ Represents th t' D := by
  rw [CompactMerkleTree.rootHash]
  rcases hcache : t.cachedRootHash with _ | cached
  · -- computed now from the hashes
    dsimp only
    by_cases hD : D = []
    · have hnil : t.hashes = [] := by rw [h.hashes_eq, hD, fullSubtreeHashes_nil]
      have hempty : th.hashEmpty = th.mth D := by rw [hD, mth_nil]
      rw [if_neg (not_not_intro hnil), pure_bind, hempty]
      exact ⟨_, rfl, h.withCache⟩
    · have hne : t.hashes ≠ [] := by rwa [h.hashes_eq, ne_eq, fullSubtreeHashes_eq_nil_iff]
      have hfold : hashFold th t.hashes = .ok (th.mth D) := by
        rw [h.hashes_eq]
        exact hashFold_fullSubtreeHashes th hD
      rw [if_pos hne, hfold, except_ok_bind]
      exact ⟨_, rfl, h.withCache⟩
  · exact ⟨t, by rw [h.cachedRootHash_eq cached hcache]; rfl, h⟩

theorem Represents.mth_eq (h : Represents th t D) {D' : List ByteString}
    (h' : Represents th t D') : th.mth D = th.mth D' := by
  obtain ⟨_, hroot, -⟩ := h.rootHash
  obtain ⟨_, hroot', -⟩ := h'.rootHash
  rw [hroot] at hroot'
  exact (Prod.mk.inj (Except.ok.inj hroot')).1

theorem Represents.unique (hleaf : Function.Injective th.hashLeaf)
    (hnode : ∀ a b c d, th.hashChildren a b = th.hashChildren c d → a = c ∧ b = d)
    (h : Represents th t D) {D' : List ByteString} (h' : Represents th t D') : D = D' :=
  TreeHasher.mth_injective th hleaf hnode (h.treeSize_eq.symm.trans h'.treeSize_eq) (h.mth_eq h')

theorem Represents.pushSubtreeHash (h : Represents th t D) {B : List ByteString} {j : Nat}
    (hB : B.length = 2 ^ j) (hdvd : 2 ^ j ∣ D.length) :
    ∃ t', t.pushSubtreeHash th (j + 1) (th.mth B) = .ok t' ∧ Represents th t' (D ++ B) := by
  induction hn : D.length using Nat.strong_induction_on generalizing t D B j with
  | _ n ih =>
      subst hn
      rw [CompactMerkleTree.pushSubtreeHash, Nat.add_sub_cancel, Nat.one_shiftLeft, h.mintreeHeight_eq, h.treeSize_eq]
      by_cases hD : D.length = 0
      · -- the empty tree takes the subtree as its only one
        obtain rfl := List.eq_nil_of_length_eq_zero hD
        rw [List.length_nil, if_pos (Or.inr lowestBitSet_zero), h.hashes_eq, fullSubtreeHashes_nil,
          List.nil_append, List.nil_append, Nat.zero_add, ← hB,
          ← fullSubtreeHashes_of_length_eq_two_pow th hB]
        exact ⟨_, update_fullSubtreeHashes B, represents_ofLeaves B⟩
      obtain ⟨i, q, hlen⟩ := exists_eq_lowestBit hD
      have hheight : lowestBitSet D.length = i + 1 := by rw [hlen, lowestBitSet_lowestBit]
      have hj : j ≤ i := by
        have := (two_pow_dvd_iff hD).mp hdvd
        omega
      rw [hheight]
      rcases Nat.lt_or_eq_of_le hj with hlt | rfl
      · -- a smaller subtree goes after the others
        have hsmall : 2 ^ (j + 1) ∣ D.length := (two_pow_dvd_iff hD).mpr (by omega)
        have hlen' : D.length + 2 ^ j = (D ++ B).length := by rw [List.length_append, hB]
        rw [if_pos (Or.inl (by omega)), h.hashes_eq, ← fullSubtreeHashes_append_block th hsmall hB,
          hlen']
        exact ⟨_, update_fullSubtreeHashes _, represents_ofLeaves _⟩
      · -- as large as the smallest: the carry
        rw [if_neg (by omega), if_neg (by omega)]
        have hpos := Nat.two_pow_pos j
        have hD' : (D.take (2 ^ (j + 1) * q)).length = 2 ^ (j + 1) * q := by
          rw [List.length_take]
          omega
        have hC : (D.drop (2 ^ (j + 1) * q)).length = 2 ^ j := by
          rw [List.length_drop]
          omega
        have hdvd' : 2 ^ (j + 1) ∣ (D.take (2 ^ (j + 1) * q)).length := by
          rw [hD']
          exact Dvd.intro q rfl
        have hhashes : t.hashes = fullSubtreeHashes th (D.take (2 ^ (j + 1) * q)) ++
            [th.mth (D.drop (2 ^ (j + 1) * q))] := by
          rw [h.hashes_eq, ← fullSubtreeHashes_append_block th hdvd' hC, List.take_append_drop]
        split
        · rename_i hlast
          rw [hhashes] at hlast
          simp at hlast
        · rename_i prevHash hlast
          have hprev : prevHash = th.mth (D.drop (2 ^ (j + 1) * q)) := by
            rw [hhashes] at hlast
            simpa using hlast.symm
          have hrewind : update (D.length - 2 ^ j) t.hashes.dropLast =
              .ok (ofLeaves th (D.take (2 ^ (j + 1) * q))) := by
            have hsize : D.length - 2 ^ j = (D.take (2 ^ (j + 1) * q)).length := by
              rw [hD']
              omega
            rw [hhashes, List.dropLast_concat, hsize, update_fullSubtreeHashes]
          split
          · rename_i e hu
            rw [hrewind] at hu
            cases hu
          · rename_i t' hu
            rw [hrewind] at hu
            cases hu
            have hassert : j + 1 < lowestBitSet (D.take (2 ^ (j + 1) * q)).length ∨
                lowestBitSet (D.take (2 ^ (j + 1) * q)).length = 0 := by
              by_cases hq : (D.take (2 ^ (j + 1) * q)).length = 0
              · exact Or.inr (by rw [hq, lowestBitSet_zero])
              · exact Or.inl ((two_pow_dvd_iff hq).mp hdvd')
            rw [ofLeaves_mintreeHeight, if_neg (not_not_intro hassert), hprev,
              ← mth_append_of_length_eq th hC hB]
            obtain ⟨t'', hpush, hrep⟩ := ih _ (by omega) (represents_ofLeaves _)
              (show (D.drop (2 ^ (j + 1) * q) ++ B).length = 2 ^ (j + 1) by
                rw [List.length_append, hC, hB, Nat.pow_succ]
                omega) hdvd' rfl
            rw [← List.append_assoc, List.take_append_drop] at hrep
            exact ⟨t'', hpush, hrep⟩

theorem Represents.pushSubtree (h : Represents th t D) {B : List ByteString} {j : Nat}
    (hB : B.length = 2 ^ j) (hdvd : 2 ^ j ∣ D.length) :
    ∃ t', t.pushSubtree th B = .ok t' ∧ Represents th t' (D ++ B) := by
  have hfull := hashFull_eq th B (Nat.zero_le _) le_rfl
  rw [List.drop_zero, Nat.sub_zero, List.take_length,
    fullSubtreeHashes_of_length_eq_two_pow th hB] at hfull
  have hfit : ¬ (t.mintreeHeight > 0 ∧ j + 1 > t.mintreeHeight) := by
    rw [h.mintreeHeight_eq]
    by_cases hD : D.length = 0
    · rw [hD, lowestBitSet_zero]
      omega
    · have := (two_pow_dvd_iff hD).mp hdvd
      omega
  rw [CompactMerkleTree.pushSubtree, hfull, hB, countBitsSet_two_pow, lowestBitSet_two_pow]
  simp only [ne_eq, not_true_eq_false, if_false, if_neg hfit, except_ok_bind]
  exact h.pushSubtreeHash hB hdvd

theorem Represents.append (h : Represents th t D) (newLeaf : ByteString) :
    ∃ t', t.append th newLeaf = .ok t' ∧ Represents th t' (D ++ [newLeaf]) :=
  h.pushSubtree (j := 0) rfl (Nat.one_dvd _)

theorem Represents.extendLoop (newLeaves : List ByteString) {idx : Nat}
    (h : Represents th t (D ++ newLeaves.take idx)) (hidx : idx ≤ newLeaves.length) :
    ∃ t' idx', t.extendLoop th newLeaves idx = .ok (t', idx') ∧ idx' ≤ newLeaves.length ∧
      Represents th t' (D ++ newLeaves.take idx') ∧
      (t'.mintreeHeight = 0 ∨ newLeaves.length - idx' < 2 ^ (t'.mintreeHeight - 1)) := by
  induction hn : newLeaves.length - idx using Nat.strong_induction_on generalizing t idx with
  | _ n ih =>
      subst hn
      rw [CompactMerkleTree.extendLoop]
      by_cases hpos : t.mintreeHeight > 0
      · have hmax : (if t.mintreeHeight > 0 then 1 <<< (t.mintreeHeight - 1) else 0) =
            2 ^ (t.mintreeHeight - 1) := by
          rw [if_pos hpos, Nat.one_shiftLeft]
        rw [hmax]
        by_cases hfits : newLeaves.length - idx ≥ 2 ^ (t.mintreeHeight - 1)
        · -- push the next subtree, as large as the smallest one
          rw [if_pos ⟨hpos, hfits⟩]
          have hslice : ((newLeaves.drop idx).take (2 ^ (t.mintreeHeight - 1))).length =
              2 ^ (t.mintreeHeight - 1) := by
            rw [List.length_take, List.length_drop]
            omega
          have hne : (D ++ newLeaves.take idx).length ≠ 0 := by
            intro h0
            have := h.mintreeHeight_eq
            rw [h0, lowestBitSet_zero] at this
            omega
          have hdvd : 2 ^ (t.mintreeHeight - 1) ∣ (D ++ newLeaves.take idx).length := by
            rw [two_pow_dvd_iff hne, ← h.mintreeHeight_eq]
            omega
          obtain ⟨t₁, hpush, hrep⟩ := h.pushSubtree hslice hdvd
          rw [List.append_assoc, ← List.take_add] at hrep
          rw [hpush, except_ok_bind]
          have hpow := Nat.two_pow_pos (t.mintreeHeight - 1)
          exact ih _ (by omega) hrep (by omega) rfl
        · -- fewer leaves left than the smallest subtree has
          rw [if_neg (fun hc => hfits hc.2)]
          exact ⟨t, idx, rfl, hidx, h, Or.inr (by omega)⟩
      · -- the empty tree
        rw [if_neg (fun hc => hpos hc.1)]
        exact ⟨t, idx, rfl, hidx, h, Or.inl (by omega)⟩

theorem Represents.extend (h : Represents th t D) (newLeaves : List ByteString) :
    ∃ t', t.extend th newLeaves = .ok t' ∧ Represents th t' (D ++ newLeaves) := by
  have h₀ : Represents th t (D ++ newLeaves.take 0) := by rwa [List.take_zero, List.append_nil]
  obtain ⟨t₁, idx, hloop, hidx, hrep, hstop⟩ := h₀.extendLoop newLeaves (Nat.zero_le _)
  have hsize : t.treeSize + newLeaves.length = (D ++ newLeaves).length := by
    rw [h.treeSize_eq, List.length_append]
  rw [CompactMerkleTree.extend, hloop, except_ok_bind]
  dsimp only
  rw [hsize]
  by_cases hrest : idx < newLeaves.length
  · -- the leaves left add their own subtrees after the others
    have hfull := hashFull_eq th newLeaves hidx le_rfl
    rw [List.take_of_length_le (by rw [List.length_drop])] at hfull
    have happ : t₁.hashes ++ fullSubtreeHashes th (newLeaves.drop idx) =
        fullSubtreeHashes th (D ++ newLeaves) := by
      rw [hrep.hashes_eq, ← List.take_append_drop idx newLeaves, ← List.append_assoc,
        List.take_append_drop]
      by_cases hP : (D ++ newLeaves.take idx).length = 0
      · rw [List.eq_nil_of_length_eq_zero hP, fullSubtreeHashes_nil, List.nil_append,
          List.nil_append]
      · have hpos : 0 < t₁.mintreeHeight := by
          rw [hrep.mintreeHeight_eq, ← two_pow_dvd_iff hP]
          exact Nat.one_dvd _
        have hfew := hstop.resolve_left (by omega)
        refine (fullSubtreeHashes_append th _ (j := t₁.mintreeHeight - 1) ?_ ?_).symm
        · rw [two_pow_dvd_iff hP, ← hrep.mintreeHeight_eq]
          omega
        · rwa [List.length_drop]
    rw [if_pos hrest, hfull, except_ok_bind]
    dsimp only
    rw [happ, update_fullSubtreeHashes, except_ok_bind, ofLeaves_treeSize,
      if_neg (not_not_intro rfl)]
    exact ⟨_, rfl, represents_ofLeaves _⟩
  · -- every leaf went into a pushed subtree
    have hall : newLeaves.take idx = newLeaves := List.take_of_length_le (by omega)
    rw [hall] at hrep
    rw [if_neg hrest, pure_bind, hrep.treeSize_eq, if_neg (not_not_intro rfl)]
    exact ⟨t₁, rfl, hrep⟩

theorem Represents.load_save (h : Represents th t D) : load (save t) = .ok (ofLeaves th D) := by
  rw [load, save]
  dsimp only
  rw [h.treeSize_eq, h.hashes_eq]
  exact update_fullSubtreeHashes D

theorem Represents.extended (h : Represents th t D) (newLeaves : List ByteString) :
    ∃ t', t.extended th newLeaves = .ok t' ∧ Represents th t' (D ++ newLeaves) := by
  have hcopy : new t.treeSize t.hashes = .ok (ofLeaves th D) := h.load_save
  rw [CompactMerkleTree.extended, hcopy, except_ok_bind]
  exact (represents_ofLeaves D).extend newLeaves

theorem addedLeaves_cons (op : Op) (ops : List Op) :
    addedLeaves (op :: ops) = addedLeaves [op] ++ addedLeaves ops := by
  cases op <;> simp [addedLeaves]

theorem Represents.step (h : Represents th t D) (op : Op) :
    ∃ t', step th t op = .ok t' ∧ Represents th t' (D ++ addedLeaves [op]) := by
  cases op with
  | append newLeaf =>
      simpa [CompactMerkleTree.step, addedLeaves] using h.append newLeaf
  | extend newLeaves =>
      simpa [CompactMerkleTree.step, addedLeaves] using h.extend newLeaves
  | rootHash =>
      obtain ⟨t', hroot, hrep⟩ := h.rootHash
      refine ⟨t', ?_, by simpa [addedLeaves] using hrep⟩
      rw [CompactMerkleTree.step, hroot]
      rfl

theorem Represents.run (h : Represents th t D) (ops : List Op) :
    ∃ t', run th t ops = .ok t' ∧ Represents th t' (D ++ addedLeaves ops) := by
  induction ops generalizing t D with
  | nil => exact ⟨t, rfl, by simpa [addedLeaves] using h⟩
  | cons op ops ih =>
      obtain ⟨t₁, hstep, hrep₁⟩ := h.step op
      obtain ⟨t', hrun, hrep'⟩ := ih hrep₁
      refine ⟨t', ?_, ?_⟩
      · rw [CompactMerkleTree.run, List.foldlM_cons, hstep, except_ok_bind]
        exact hrun
      · rwa [addedLeaves_cons, ← List.append_assoc]

end Invariant

/-- From the empty tree, or one loaded with the hashes of the maximal full
subtrees of any leaves, every sequence of calls succeeds.  The tree then keeps
one hash per set bit of its size, those of the maximal full subtrees of all
the leaves, and `root_hash()` is what `hash_full_tree` gives for them: the
RFC 6962 tree hash. -/
theorem run_refines_hashFullTree (L : List ByteString) (ops : List Op) :
    ∃ t₀ t, new L.length (fullSubtreeHashes th L) = .ok t₀ ∧ run th t₀ ops = .ok t ∧
      t.treeSize = (L ++ addedLeaves ops).length ∧
      t.hashes = fullSubtreeHashes th (L ++ addedLeaves ops) ∧
      t.hashes.length = countBitsSet t.treeSize ∧
      (∃ t', t.rootHash th = .ok (th.mth (L ++ addedLeaves ops), t')) ∧
      hashFullTree th (L ++ addedLeaves ops) = .ok (th.mth (L ++ addedLeaves ops)) := by
  have hloaded : Represents th (ofLeaves th L) L := represents_ofLeaves L
  obtain ⟨t, hrun, hrep⟩ := hloaded.run ops
  obtain ⟨t', hroot, -⟩ := hrep.rootHash
  exact ⟨ofLeaves th L, t, update_fullSubtreeHashes L, hrun, hrep.treeSize_eq, hrep.hashes_eq,
    hrep.length_hashes, ⟨t', hroot⟩, hashFullTree_eq th _⟩

end CompactMerkleTree

end CertTrans.Python.Merkle
