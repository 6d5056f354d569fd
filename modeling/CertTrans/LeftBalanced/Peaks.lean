import CertTrans.LeftBalanced.Root

/-!
The peaks of a left-balanced tree: its leaves cut into blocks of decreasing
powers of two, one for each set bit of their number, and the root of each
block.  These are the maximal full subtrees, which a compact tree keeps in
place of the leaves.

Folded from the right, the peaks give the root of the whole tree.  Leaves that
fit below the smallest block add their own peaks after the others, as in a
binary addition without carry; a block as large as the smallest one is the
carry case, where the two last blocks combine into one.
-/

namespace CertTrans.LeftBalanced

variable {α : Type*} (node : α → α → α) (empty : α)

def blockSize (n : Nat) : Nat := 2 ^ Nat.log2 n

theorem blockSize_pos (n : Nat) : 0 < blockSize n := Nat.two_pow_pos _

theorem blockSize_le {n : Nat} (hn : n ≠ 0) : blockSize n ≤ n := Nat.log2_self_le hn

theorem lt_two_mul_blockSize (n : Nat) : n < 2 * blockSize n := by
  have h := Nat.lt_log2_self (n := n)
  rw [Nat.pow_succ] at h
  unfold blockSize
  omega

theorem blockSize_two_pow (j : Nat) : blockSize (2 ^ j) = 2 ^ j := by
  rw [blockSize, Nat.log2_two_pow]

theorem blockSize_eq_split {n : Nat} (hlt : blockSize n < n) : blockSize n = split n :=
  (split_eq hlt (lt_two_mul_blockSize n).le).symm

theorem blockSize_of_lt_two_mul_split {n : Nat} (h2 : 2 ≤ n) (hlt : n < 2 * split n) :
    blockSize n = split n := by
  obtain ⟨k, hk⟩ := split_eq_pow n
  have hle := split_lt h2
  rw [hk] at hlt hle
  have hlog : Nat.log2 n = k := by
    rw [Nat.log2_eq_iff (by omega), Nat.pow_succ]
    omega
  rw [blockSize, hk, hlog]

theorem blockSize_add {n m j : Nat} (hn : n ≠ 0) (hdvd : 2 ^ j ∣ n) (hm : m < 2 ^ j) :
    blockSize (n + m) = blockSize n := by
  have hle : 2 ^ j ≤ 2 ^ Nat.log2 n := by
    apply Nat.pow_le_pow_right (by decide)
    exact (Nat.le_log2 hn).mpr (Nat.le_of_dvd (Nat.pos_of_ne_zero hn) hdvd)
  obtain ⟨a, ha⟩ := hdvd
  obtain ⟨b, hb⟩ : 2 ^ j ∣ 2 * 2 ^ Nat.log2 n :=
    Dvd.dvd.mul_left (Nat.pow_dvd_pow 2 ((Nat.pow_le_pow_iff_right (by decide)).mp hle)) 2
  have hab : a < b := by
    have := lt_two_mul_blockSize n
    rw [blockSize, hb, ha] at this
    exact Nat.lt_of_mul_lt_mul_left this
  have hstep : 2 ^ j * (a + 1) ≤ 2 ^ j * b := Nat.mul_le_mul_left _ hab
  rw [Nat.mul_succ] at hstep
  have hlog : Nat.log2 (n + m) = Nat.log2 n := by
    rw [Nat.log2_eq_iff (by omega), Nat.pow_succ]
    have := Nat.log2_self_le hn
    omega
  rw [blockSize, blockSize, hlog]

theorem length_drop_blockSize_lt {xs : List α} (hpos : xs.length ≠ 0) :
    (xs.drop (blockSize xs.length)).length < xs.length := by
  have := blockSize_pos xs.length
  simp only [List.length_drop]
  omega

def peaks (xs : List α) : List α :=
  if xs.length = 0 then []
  else root node empty (xs.take (blockSize xs.length)) :: peaks (xs.drop (blockSize xs.length))
termination_by xs.length
decreasing_by exact length_drop_blockSize_lt (by assumption)

@[simp] theorem peaks_nil : peaks node empty ([] : List α) = [] := by
  rw [peaks, if_pos List.length_nil]

theorem peaks_of_ne_nil {xs : List α} (hxs : xs ≠ []) :
    peaks node empty xs =
      root node empty (xs.take (blockSize xs.length)) ::
        peaks node empty (xs.drop (blockSize xs.length)) := by
  rw [peaks, if_neg (by simpa using hxs)]

theorem peaks_of_length_eq_two_pow {xs : List α} {j : Nat} (h : xs.length = 2 ^ j) :
    peaks node empty xs = [root node empty xs] := by
  have hxs : xs ≠ [] := List.ne_nil_of_length_pos (by rw [h]; exact Nat.two_pow_pos j)
  rw [peaks_of_ne_nil node empty hxs, h, blockSize_two_pow, ← h, List.take_length,
    List.drop_length, peaks_nil]

theorem length_peaks_pos {xs : List α} (hxs : xs ≠ []) : 0 < (peaks node empty xs).length := by
  rw [peaks_of_ne_nil node empty hxs, List.length_cons]
  exact Nat.succ_pos _

def foldPeaks : List α → α
  | [] => empty
  | [p] => p
  | p :: q :: ps => node p (foldPeaks (q :: ps))

theorem foldPeaks_cons {p : α} {ps : List α} (hps : ps ≠ []) :
    foldPeaks node empty (p :: ps) = node p (foldPeaks node empty ps) := by
  obtain ⟨q, qs, rfl⟩ := List.exists_cons_of_ne_nil hps
  rfl

theorem foldPeaks_append_singleton (ps : List α) (p : α) :
    foldPeaks node empty (ps ++ [p]) = ps.foldr node p := by
  induction ps with
  | nil => rfl
  | cons q qs ih =>
      rw [List.cons_append, foldPeaks_cons node empty (by simp), ih, List.foldr_cons]

theorem foldPeaks_peaks (xs : List α) :
    foldPeaks node empty (peaks node empty xs) = root node empty xs := by
  induction hn : xs.length using Nat.strong_induction_on generalizing xs with
  | _ n ih =>
      subst hn
      by_cases hxs : xs = []
      · subst hxs
        rw [peaks_nil, root_nil]
        rfl
      have hpos : xs.length ≠ 0 := by simpa using hxs
      rw [peaks_of_ne_nil node empty hxs]
      rcases Nat.lt_or_eq_of_le (blockSize_le hpos) with hlt | heq
      · -- a proper first block is the left subtree, and the rest is nonempty
        have hrest : xs.drop (blockSize xs.length) ≠ [] := by
          simp only [ne_eq, List.drop_eq_nil_iff, not_le]
          exact hlt
        rw [foldPeaks_cons node empty ((List.ne_nil_of_length_pos
            (length_peaks_pos node empty hrest))), ih _ (length_drop_blockSize_lt hpos) _ rfl,
          root_of_two_le node empty xs (by have := blockSize_pos xs.length; omega),
          blockSize_eq_split hlt]
      · -- a single full block
        rw [heq, List.take_length, List.drop_length, peaks_nil]
        rfl

theorem peaks_append {xs : List α} (ys : List α) {j : Nat} (hxs : 2 ^ j ∣ xs.length)
    (hys : ys.length < 2 ^ j) :
    peaks node empty (xs ++ ys) = peaks node empty xs ++ peaks node empty ys := by
  induction hn : xs.length using Nat.strong_induction_on generalizing xs with
  | _ n ih =>
      subst hn
      by_cases hxs0 : xs = []
      · subst hxs0
        rw [peaks_nil, List.nil_append, List.nil_append]
      have hpos : xs.length ≠ 0 := by simpa using hxs0
      have hblock := blockSize_add hpos hxs hys
      have hk := blockSize_le hpos
      have hkdvd : 2 ^ j ∣ blockSize xs.length := by
        apply Nat.pow_dvd_pow
        exact (Nat.le_log2 hpos).mpr (Nat.le_of_dvd (Nat.pos_of_ne_zero hpos) hxs)
      have hrest : 2 ^ j ∣ (xs.drop (blockSize xs.length)).length := by
        rw [List.length_drop]
        exact Nat.dvd_sub hxs hkdvd
      rw [peaks_of_ne_nil node empty (by simp [hxs0]), List.length_append, hblock,
        List.take_append_of_le_length hk, List.drop_append_of_le_length hk,
        ih _ (length_drop_blockSize_lt hpos) hrest rfl, peaks_of_ne_nil node empty hxs0, List.cons_append]

theorem peaks_append_block {xs block : List α} {j : Nat} (hxs : 2 ^ (j + 1) ∣ xs.length)
    (hblock : block.length = 2 ^ j) :
    peaks node empty (xs ++ block) = peaks node empty xs ++ [root node empty block] := by
  have hlt : block.length < 2 ^ (j + 1) := by
    rw [hblock, Nat.pow_succ]
    have := Nat.two_pow_pos j
    omega
  rw [peaks_append node empty block hxs hlt, peaks_of_length_eq_two_pow node empty hblock]

theorem root_append_of_length_eq {left right : List α} {j : Nat} (hleft : left.length = 2 ^ j)
    (hright : right.length = 2 ^ j) :
    root node empty (left ++ right) = node (root node empty left) (root node empty right) := by
  have hlen : (left ++ right).length = 2 * 2 ^ j := by
    rw [List.length_append, hleft, hright]
    omega
  have hsplit : split (left ++ right).length = 2 ^ j := by
    rw [hlen]
    exact split_eq (by have := Nat.two_pow_pos j; omega) le_rfl
  rw [root_of_two_le node empty _ (by rw [hlen]; have := Nat.two_pow_pos j; omega), hsplit,
    ← hleft, List.take_left, List.drop_left]

end CertTrans.LeftBalanced
