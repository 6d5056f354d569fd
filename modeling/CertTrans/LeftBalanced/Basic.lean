import Mathlib

/-!
Left-balanced binary trees over an arbitrary combining function.

A left-balanced tree on `n ≥ 2` leaves puts the largest power of two strictly
below `n` into its left subtree.  Computed bottom up, the same tree is obtained
by repeatedly combining adjacent pairs of a level and carrying an unpaired last
node up unchanged.  This module develops the bottom-up view: the split point,
one level step `pairUp`, and how iterated levels behave on prefixes and
suffixes of the leaves.
-/

namespace CertTrans.LeftBalanced

variable {α : Type*}

def split (n : Nat) : Nat := 2 ^ Nat.log2 (n - 1)

theorem split_pos (n : Nat) : 0 < split n := Nat.two_pow_pos _

theorem split_lt {n : Nat} (hn : 2 ≤ n) : split n < n := by
  have h := Nat.log2_self_le (n := n - 1) (by omega)
  unfold split
  omega

theorem le_two_mul_split {n : Nat} (hn : 2 ≤ n) : n ≤ 2 * split n := by
  have h := Nat.lt_log2_self (n := n - 1)
  unfold split
  rw [Nat.pow_succ] at h
  omega

theorem split_eq {n j : Nat} (hlt : 2 ^ j < n) (hle : n ≤ 2 * 2 ^ j) :
    split n = 2 ^ j := by
  have hlog : Nat.log2 (n - 1) = j := by
    rw [Nat.log2_eq_iff (by omega), Nat.pow_succ]
    omega
  rw [split, hlog]

theorem split_eq_pow (n : Nat) : ∃ j, split n = 2 ^ j := ⟨_, rfl⟩

theorem two_dvd_split {n : Nat} (hn : 3 ≤ n) : 2 ∣ split n := by
  have hsplit : 2 ≤ split n := by
    have := le_two_mul_split (n := n) (by omega)
    omega
  obtain ⟨j, hj⟩ := split_eq_pow n
  rcases j with _ | j
  · simp at hj
    omega
  · exact ⟨2 ^ j, by rw [hj, Nat.pow_succ, Nat.mul_comm]⟩

theorem split_half {n : Nat} (hn : 3 ≤ n) : split ((n + 1) / 2) = split n / 2 := by
  obtain ⟨j, hj⟩ := split_eq_pow n
  have hlt := split_lt (n := n) (by omega)
  have hle := le_two_mul_split (n := n) (by omega)
  have heven := two_dvd_split hn
  rw [hj] at hlt hle heven ⊢
  rcases j with _ | j
  · simp at heven
  · rw [Nat.pow_succ] at hlt hle ⊢
    rw [Nat.mul_div_cancel _ (by decide)]
    apply split_eq <;> omega

section PairUp

variable (node : α → α → α)

def pairUp : List α → List α
  | [] => []
  | [a] => [a]
  | a :: b :: rest => node a b :: pairUp rest

@[simp] theorem pairUp_nil : pairUp node ([] : List α) = [] := rfl

@[simp] theorem pairUp_singleton (a : α) : pairUp node [a] = [a] := rfl

@[simp] theorem pairUp_cons_cons (a b : α) (rest : List α) :
    pairUp node (a :: b :: rest) = node a b :: pairUp node rest := rfl

@[simp] theorem length_pairUp (xs : List α) :
    (pairUp node xs).length = (xs.length + 1) / 2 := by
  induction xs using pairUp.induct with
  | case1 => simp
  | case2 a => simp
  | case3 a b rest ih =>
      simp only [pairUp_cons_cons, List.length_cons, ih]
      omega

theorem forall_mem_pairUp {P : α → Prop} (hnode : ∀ a b, P (node a b)) {xs : List α}
    (h : ∀ x ∈ xs, P x) : ∀ y ∈ pairUp node xs, P y := by
  induction xs using pairUp.induct with
  | case1 => simp
  | case2 a => simpa using h
  | case3 a b rest ih =>
      intro y hy
      rw [pairUp_cons_cons, List.mem_cons] at hy
      rcases hy with rfl | hy
      · exact hnode a b
      · exact ih (fun x hx => h x (by simp [hx])) y hy

theorem pairUp_eq_nil_iff (xs : List α) : pairUp node xs = [] ↔ xs = [] := by
  rw [← List.length_eq_zero_iff, ← List.length_eq_zero_iff, length_pairUp]
  omega

theorem pairUp_append {xs : List α} (ys : List α) (heven : xs.length % 2 = 0) :
    pairUp node (xs ++ ys) = pairUp node xs ++ pairUp node ys := by
  induction xs using pairUp.induct with
  | case1 => rfl
  | case2 a => simp at heven
  | case3 a b rest ih =>
      simp only [List.length_cons] at heven
      simp only [List.cons_append, pairUp_cons_cons, ih (by omega)]

theorem pairUp_take (xs : List α) (q : Nat) :
    pairUp node (xs.take (2 * q)) = (pairUp node xs).take q := by
  induction xs using pairUp.induct generalizing q with
  | case1 => simp
  | case2 a => rcases q with _ | q <;> simp [Nat.mul_succ]
  | case3 a b rest ih =>
      rcases q with _ | q
      · simp
      · simp [Nat.mul_succ, ih]

theorem pairUp_drop (xs : List α) (q : Nat) :
    pairUp node (xs.drop (2 * q)) = (pairUp node xs).drop q := by
  induction xs using pairUp.induct generalizing q with
  | case1 => simp
  | case2 a => rcases q with _ | q <;> simp [Nat.mul_succ]
  | case3 a b rest ih =>
      rcases q with _ | q
      · simp
      · simp [Nat.mul_succ, ih]

theorem getD_pairUp (xs : List α) (d : α) (i : Nat) :
    (pairUp node xs).getD i d =
      if 2 * i + 1 < xs.length then node (xs.getD (2 * i) d) (xs.getD (2 * i + 1) d)
      else xs.getD (2 * i) d := by
  induction xs using pairUp.induct generalizing i with
  | case1 => simp
  | case2 a => rcases i with _ | i <;> simp
  | case3 a b rest ih =>
      rcases i with _ | i
      · simp
      · have h2 : 2 * (i + 1) = 2 * i + 1 + 1 := by ring
        simp only [pairUp_cons_cons, List.getD_cons_succ, ih, h2, List.length_cons]
        split_ifs <;> first | omega | rfl

theorem getD_pairUp_last {xs : List α} {i : Nat} (hlen : xs.length = i + 1) (d : α) :
    (pairUp node xs).getD (i / 2) d =
      if i % 2 = 1 then node (xs.getD (i - 1) d) (xs.getD i d) else xs.getD i d := by
  rw [getD_pairUp]
  by_cases hodd : i % 2 = 1
  · rw [if_pos (by omega), if_pos hodd, show 2 * (i / 2) = i - 1 by omega,
      show i - 1 + 1 = i by omega]
  · rw [if_neg (by omega), if_neg hodd, show 2 * (i / 2) = i by omega]

theorem getD_pairUp_of_odd {xs : List α} {i : Nat} (hi : i < xs.length) (hodd : i % 2 = 1)
    (d : α) : (pairUp node xs).getD (i / 2) d = node (xs.getD (i - 1) d) (xs.getD i d) := by
  rw [getD_pairUp, if_pos (by omega), show 2 * (i / 2) = i - 1 by omega,
    show i - 1 + 1 = i by omega]

theorem getD_pairUp_of_even {xs : List α} {i : Nat} (hi : i + 1 < xs.length)
    (heven : i % 2 = 0) (d : α) :
    (pairUp node xs).getD (i / 2) d = node (xs.getD i d) (xs.getD (i + 1) d) := by
  rw [getD_pairUp, if_pos (by omega), show 2 * (i / 2) = i by omega]

theorem getD_pairUp_of_last {xs : List α} {i : Nat} (hi : i + 1 = xs.length)
    (heven : i % 2 = 0) (d : α) : (pairUp node xs).getD (i / 2) d = xs.getD i d := by
  rw [getD_pairUp, if_neg (by omega), show 2 * (i / 2) = i by omega]

theorem pairUp_drop_take_append {xs : List α} {last j : Nat} (hlast : last < xs.length)
    (hj : j % 2 = 0) (hjl : j ≤ last) (d : α) :
    pairUp node ((xs.take (2 * ((last + 1) / 2))).drop j) ++
        (if last % 2 = 0 then [xs.getD last d] else []) =
      (pairUp node (xs.take (last + 1))).drop (j / 2) := by
  have htake : xs.take (last + 1) =
      xs.take (2 * ((last + 1) / 2)) ++ (if last % 2 = 0 then [xs.getD last d] else []) := by
    split_ifs with hpar
    · rw [show 2 * ((last + 1) / 2) = last by omega, List.take_add_one,
        List.getElem?_eq_getElem hlast, List.getD_eq_getElem _ _ hlast]
      rfl
    · rw [show 2 * ((last + 1) / 2) = last + 1 by omega, List.append_nil]
  have hlen : j / 2 ≤ (pairUp node (xs.take (2 * ((last + 1) / 2)))).length := by
    rw [length_pairUp, List.length_take]
    omega
  rw [htake, pairUp_append node _ (by simp only [List.length_take]; omega),
    List.drop_append_of_le_length hlen, ← pairUp_drop node _ (j / 2),
    show 2 * (j / 2) = j by omega]
  split_ifs <;> rfl

theorem pairUp_take_split {xs : List α} (h3 : 3 ≤ xs.length) :
    (pairUp node xs).take (split (pairUp node xs).length) =
      pairUp node (xs.take (split xs.length)) := by
  obtain ⟨q, hq⟩ := two_dvd_split h3
  rw [length_pairUp, split_half h3, hq, Nat.mul_div_cancel_left _ (by decide), pairUp_take]

theorem pairUp_drop_split {xs : List α} (h3 : 3 ≤ xs.length) :
    (pairUp node xs).drop (split (pairUp node xs).length) =
      pairUp node (xs.drop (split xs.length)) := by
  obtain ⟨q, hq⟩ := two_dvd_split h3
  rw [length_pairUp, split_half h3, hq, Nat.mul_div_cancel_left _ (by decide), pairUp_drop]

end PairUp

section Levels

variable (node : α → α → α)

def level (xs : List α) (l : Nat) : List α := (pairUp node)^[l] xs

@[simp] theorem level_zero (xs : List α) : level node xs 0 = xs := rfl

theorem level_succ (xs : List α) (l : Nat) :
    level node xs (l + 1) = pairUp node (level node xs l) :=
  Function.iterate_succ_apply' _ _ _

theorem level_succ' (xs : List α) (l : Nat) :
    level node xs (l + 1) = level node (pairUp node xs) l :=
  Function.iterate_succ_apply _ _ _

theorem forall_mem_level {P : α → Prop} (hnode : ∀ a b, P (node a b)) {xs : List α}
    (h : ∀ x ∈ xs, P x) (l : Nat) : ∀ y ∈ level node xs l, P y := by
  induction l with
  | zero => exact h
  | succ l ih =>
      rw [level_succ]
      exact forall_mem_pairUp node hnode ih

theorem level_eq_nil_iff (xs : List α) (l : Nat) : level node xs l = [] ↔ xs = [] := by
  induction l with
  | zero => rfl
  | succ l ih => rw [level_succ, pairUp_eq_nil_iff, ih]

theorem length_level (xs : List α) (hxs : xs ≠ []) (l : Nat) :
    (level node xs l).length = (xs.length - 1) >>> l + 1 := by
  induction l with
  | zero =>
      have := List.length_pos_iff.mpr hxs
      simp only [level_zero, Nat.shiftRight_zero]
      omega
  | succ l ih =>
      rw [level_succ, length_pairUp, ih, Nat.shiftRight_succ]
      omega

theorem level_take (xs : List α) (l q : Nat) :
    level node (xs.take (2 ^ l * q)) l = (level node xs l).take q := by
  induction l generalizing q with
  | zero => simp
  | succ l ih =>
      rw [level_succ, level_succ, ← pairUp_take, ← ih, Nat.pow_succ,
        Nat.mul_assoc, Nat.mul_comm 2 q]

theorem length_level_le_one (xs : List α) (l : Nat) (hxs : xs.length ≤ 2 ^ l) :
    (level node xs l).length ≤ 1 := by
  by_cases hne : xs = []
  · subst hne
    simp [level, Function.iterate_fixed (pairUp_nil node)]
  · rw [length_level node xs hne, Nat.shiftRight_eq_div_pow]
    have hpos : 0 < 2 ^ l := Nat.two_pow_pos _
    have : (xs.length - 1) / 2 ^ l = 0 := Nat.div_eq_of_lt (by omega)
    omega

theorem level_take_take (xs : List α) {l q p : Nat} (h : 2 ^ l * q ≤ p) :
    (level node (xs.take p) l).take q = (level node xs l).take q := by
  rw [← level_take, ← level_take, List.take_take, Nat.min_eq_left h]

theorem getD_level_take (xs : List α) {l i p : Nat} (h : 2 ^ l * (i + 1) ≤ p) (d : α) :
    (level node (xs.take p) l).getD i d = (level node xs l).getD i d := by
  rw [List.getD_eq_getElem?_getD, List.getD_eq_getElem?_getD, ← List.getElem?_take_of_succ,
    level_take_take node xs h, List.getElem?_take_of_succ]

theorem lt_length_level {xs : List α} {l i : Nat} (h : 2 ^ l * (i + 1) ≤ xs.length) :
    i < (level node xs l).length := by
  have hpos := Nat.two_pow_pos l
  have hlen : 0 < xs.length := lt_of_lt_of_le (Nat.mul_pos hpos (Nat.succ_pos i)) h
  have hle : i * 2 ^ l ≤ xs.length - 1 := by
    have hsucc : (i + 1) * 2 ^ l = i * 2 ^ l + 2 ^ l := Nat.succ_mul i (2 ^ l)
    rw [Nat.mul_comm] at h
    omega
  rw [length_level node xs (List.ne_nil_of_length_pos hlen), Nat.shiftRight_eq_div_pow]
  exact Nat.lt_succ_of_le ((Nat.le_div_iff_mul_le hpos).mpr hle)

theorem getD_level_append (xs ys : List α) {l i : Nat} (h : 2 ^ l * (i + 1) ≤ xs.length)
    (d : α) : (level node (xs ++ ys) l).getD i d = (level node xs l).getD i d := by
  rw [← getD_level_take node (xs ++ ys) h, List.take_left]

end Levels

end CertTrans.LeftBalanced
