import CertTrans.LeftBalanced.Root

/-!
Audit paths and consistency proofs of left-balanced trees, defined top down
by the split, and how they look one level at a time.  The level-by-level
equations are what bottom-up generators and verifiers compute: an audit path
is the sibling of the leaf followed by the audit path of its parent, and a
consistency proof for an even prefix is the consistency proof one level up.
-/

namespace CertTrans.LeftBalanced

variable {α : Type*} (node : α → α → α) (empty : α)

def sibling (xs : List α) (m : Nat) : List α :=
  if m % 2 = 1 then xs[m - 1]?.toList else xs[m + 1]?.toList

theorem sibling_of_odd {xs : List α} {m : Nat} (hm : m < xs.length) (hodd : m % 2 = 1)
    (d : α) : sibling xs m = [xs.getD (m - 1) d] := by
  rw [sibling, if_pos hodd, List.getElem?_eq_getElem (by omega), List.getD_eq_getElem _ _ (by omega)]
  rfl

theorem sibling_of_even {xs : List α} {m : Nat} (hm : m + 1 < xs.length) (heven : m % 2 = 0)
    (d : α) : sibling xs m = [xs.getD (m + 1) d] := by
  rw [sibling, if_neg (by omega), List.getElem?_eq_getElem hm, List.getD_eq_getElem _ _ hm]
  rfl

theorem sibling_of_last {xs : List α} {m : Nat} (hm : m + 1 = xs.length) (heven : m % 2 = 0) :
    sibling xs m = [] := by
  rw [sibling, if_neg (by omega), List.getElem?_eq_none (by omega)]
  rfl

theorem sibling_take {xs : List α} {m k : Nat} (hm : m < k) (hk : 2 ∣ k) :
    sibling (xs.take k) m = sibling xs m := by
  obtain ⟨q, rfl⟩ := hk
  unfold sibling
  split_ifs with hodd
  · rw [List.getElem?_take_of_lt (by omega)]
  · rw [List.getElem?_take_of_lt (by omega)]

theorem sibling_drop {xs : List α} {m k : Nat} (hm : k ≤ m) (hk : 2 ∣ k) :
    sibling (xs.drop k) (m - k) = sibling xs m := by
  obtain ⟨q, rfl⟩ := hk
  unfold sibling
  have hpar : (m - 2 * q) % 2 = m % 2 := by omega
  rw [hpar]
  split_ifs with hodd
  · rw [List.getElem?_drop, show 2 * q + (m - 2 * q - 1) = m - 1 by omega]
  · rw [List.getElem?_drop, show 2 * q + (m - 2 * q + 1) = m + 1 by omega]

def path (m : Nat) (xs : List α) : List α :=
  if xs.length ≤ 1 ∨ xs.length ≤ m then []
  else if m < split xs.length then
    path m (xs.take (split xs.length)) ++ [root node empty (xs.drop (split xs.length))]
  else
    path (m - split xs.length) (xs.drop (split xs.length)) ++
      [root node empty (xs.take (split xs.length))]
termination_by xs.length
decreasing_by
  · rw [take_split_length (by omega)]
    exact split_lt (by omega)
  · have := split_pos xs.length
    simp only [List.length_drop]
    omega

theorem path_of_length_le (m : Nat) {xs : List α} (h : xs.length ≤ 1 ∨ xs.length ≤ m) :
    path node empty m xs = [] := by
  rw [path, if_pos h]

theorem path_of_lt_split (m : Nat) (xs : List α) (h2 : 2 ≤ xs.length)
    (hm : m < split xs.length) :
    path node empty m xs =
      path node empty m (xs.take (split xs.length)) ++
        [root node empty (xs.drop (split xs.length))] := by
  have := split_lt h2
  rw [path, if_neg (by omega), if_pos hm]

theorem path_of_split_le (m : Nat) (xs : List α) (hm : m < xs.length)
    (hk : split xs.length ≤ m) :
    path node empty m xs =
      path node empty (m - split xs.length) (xs.drop (split xs.length)) ++
        [root node empty (xs.take (split xs.length))] := by
  have := split_pos xs.length
  rw [path, if_neg (by omega), if_neg (by omega)]

theorem path_ne_nil {m : Nat} {xs : List α} (h2 : 2 ≤ xs.length) (hm : m < xs.length) :
    path node empty m xs ≠ [] := by
  by_cases hleft : m < split xs.length
  · rw [path_of_lt_split node empty m xs h2 hleft]
    simp
  · rw [path_of_split_le node empty m xs hm (by omega)]
    simp

theorem path_eq_sibling_append {m : Nat} {xs : List α} (hm : m < xs.length) :
    path node empty m xs =
      sibling xs m ++ path node empty (m / 2) (pairUp node xs) := by
  induction hn : xs.length using Nat.strong_induction_on generalizing xs m with
  | _ n ih =>
      by_cases h2 : xs.length ≤ 2
      · have hsplit : split 2 = 1 := by decide
        match xs, h2, hm with
        | [a], _, hm =>
            obtain rfl : m = 0 := by simpa using hm
            simp [path_of_length_le, sibling]
        | [a, b], _, hm =>
            have hm' : m = 0 ∨ m = 1 := by simp at hm; omega
            rcases hm' with rfl | rfl
            · rw [path_of_lt_split node empty 0 [a, b] (by simp) (by simp [hsplit])]
              simp [path_of_length_le, sibling, hsplit]
            · rw [path_of_split_le node empty 1 [a, b] (by simp) (by simp [hsplit])]
              simp [path_of_length_le, sibling, hsplit]
      · have h3 : 3 ≤ xs.length := by omega
        have hk := split_lt (n := xs.length) (by omega)
        have hpos := split_pos xs.length
        have heven := two_dvd_split h3
        have hhalf := split_half h3
        have hlen : (pairUp node xs).length = (xs.length + 1) / 2 := length_pairUp node xs
        by_cases hleft : m < split xs.length
        · -- the leaf is in the left subtree, whose sibling root is the right subtree
          have hrec := @ih (xs.take (split xs.length)).length
            (by simp only [List.length_take]; omega) m (xs.take (split xs.length))
            (by simp only [List.length_take]; omega) rfl
          have hup : m / 2 < split (pairUp node xs).length := by
            rw [hlen, hhalf]
            obtain ⟨q, hq⟩ := heven
            omega
          rw [path_of_lt_split node empty m xs (by omega) hleft, hrec,
            sibling_take hleft heven, path_of_lt_split node empty _ _ (by omega) hup,
            pairUp_take_split node h3, pairUp_drop_split node h3, root_pairUp,
            List.append_assoc]
        · -- the leaf is in the right subtree, whose sibling root is the left subtree
          have hrec := @ih (xs.drop (split xs.length)).length
            (by simp only [List.length_drop]; omega) (m - split xs.length)
            (xs.drop (split xs.length)) (by simp only [List.length_drop]; omega) rfl
          have hup : split (pairUp node xs).length ≤ m / 2 := by
            rw [hlen, hhalf]
            obtain ⟨q, hq⟩ := heven
            omega
          have hshift : (m - split xs.length) / 2 = m / 2 - split (pairUp node xs).length := by
            rw [hlen, hhalf]
            obtain ⟨q, hq⟩ := heven
            omega
          rw [path_of_split_le node empty m xs hm (by omega), hrec,
            sibling_drop (by omega) heven,
            path_of_split_le node empty _ _ (by rw [hlen]; omega) hup, hshift,
            pairUp_drop_split node h3, pairUp_take_split node h3, root_pairUp,
            List.append_assoc]

def subproof (m : Nat) (xs : List α) (haveRoot : Bool) : List α :=
  if m = 0 ∨ xs.length < m then []
  else if m = xs.length then (if haveRoot then [] else [root node empty xs])
  else if m ≤ split xs.length then
    subproof m (xs.take (split xs.length)) haveRoot ++
      [root node empty (xs.drop (split xs.length))]
  else
    subproof (m - split xs.length) (xs.drop (split xs.length)) false ++
      [root node empty (xs.take (split xs.length))]
termination_by xs.length
decreasing_by
  · rw [take_split_length (by omega)]
    exact split_lt (by omega)
  · have := split_pos xs.length
    simp only [List.length_drop]
    omega

def consistencyProof (m : Nat) (xs : List α) : List α := subproof node empty m xs true

theorem subproof_of_eq_length (xs : List α) (haveRoot : Bool) (hm : 0 < xs.length) :
    subproof node empty xs.length xs haveRoot =
      if haveRoot then [] else [root node empty xs] := by
  rw [subproof, if_neg (by omega), if_pos rfl]

theorem subproof_of_le_split (m : Nat) (xs : List α) (haveRoot : Bool) (hm0 : 0 < m)
    (hmn : m < xs.length) (hk : m ≤ split xs.length) :
    subproof node empty m xs haveRoot =
      subproof node empty m (xs.take (split xs.length)) haveRoot ++
        [root node empty (xs.drop (split xs.length))] := by
  rw [subproof, if_neg (by omega), if_neg (by omega), if_pos hk]

theorem subproof_of_split_lt (m : Nat) (xs : List α) (haveRoot : Bool)
    (hmn : m < xs.length) (hk : split xs.length < m) :
    subproof node empty m xs haveRoot =
      subproof node empty (m - split xs.length) (xs.drop (split xs.length)) false ++
        [root node empty (xs.take (split xs.length))] := by
  rw [subproof, if_neg (by omega), if_neg (by omega), if_neg (by omega)]

theorem subproof_pairUp {q : Nat} {xs : List α} (haveRoot : Bool) (hq : 0 < q)
    (hqn : 2 * q ≤ xs.length) :
    subproof node empty (2 * q) xs haveRoot =
      subproof node empty q (pairUp node xs) haveRoot := by
  induction hn : xs.length using Nat.strong_induction_on
    generalizing xs q haveRoot with
  | _ n ih =>
      have hlen : (pairUp node xs).length = (xs.length + 1) / 2 := length_pairUp node xs
      by_cases heq : 2 * q = xs.length
      · have hq' : q = (pairUp node xs).length := by omega
        rw [heq, subproof_of_eq_length node empty xs haveRoot (by omega), hq',
          subproof_of_eq_length node empty _ haveRoot (by omega), root_pairUp]
      · have h3 : 3 ≤ xs.length := by omega
        have hk := split_lt (n := xs.length) (by omega)
        have hpos := split_pos xs.length
        have hhalf := split_half h3
        obtain ⟨r, hr⟩ := two_dvd_split h3
        by_cases hleft : 2 * q ≤ split xs.length
        · have hrec := @ih (xs.take (split xs.length)).length
            (by simp only [List.length_take]; omega) q (xs.take (split xs.length)) haveRoot
            hq (by simp only [List.length_take]; omega) rfl
          rw [subproof_of_le_split node empty _ xs haveRoot (by omega) (by omega) hleft, hrec,
            subproof_of_le_split node empty q (pairUp node xs) haveRoot hq (by omega)
              (by rw [hlen, hhalf]; omega),
            pairUp_take_split node h3, pairUp_drop_split node h3, root_pairUp]
        · have hrec := @ih (xs.drop (split xs.length)).length
            (by simp only [List.length_drop]; omega) (q - r) (xs.drop (split xs.length))
            false (by omega) (by simp only [List.length_drop]; omega) rfl
          have hshift : 2 * q - split xs.length = 2 * (q - r) := by omega
          have hshift' : q - split (pairUp node xs).length = q - r := by
            rw [hlen, hhalf]
            omega
          rw [subproof_of_split_lt node empty _ xs haveRoot (by omega) (by omega), hshift,
            hrec, subproof_of_split_lt node empty q (pairUp node xs) haveRoot (by omega)
              (by rw [hlen, hhalf]; omega),
            hshift', pairUp_drop_split node h3, pairUp_take_split node h3, root_pairUp]

theorem subproof_level {m : Nat} {xs : List α} (haveRoot : Bool) (l : Nat)
    (hm : 0 < m) (hmn : 2 ^ l * m ≤ xs.length) :
    subproof node empty (2 ^ l * m) xs haveRoot =
      subproof node empty m (level node xs l) haveRoot := by
  induction l generalizing xs with
  | zero => simp
  | succ l ih =>
      have hpow : 2 ^ (l + 1) * m = 2 * (2 ^ l * m) := by
        rw [Nat.pow_succ]
        ring
      have hpos : 0 < 2 ^ l * m := Nat.mul_pos (Nat.two_pow_pos l) hm
      rw [hpow, subproof_pairUp node empty haveRoot hpos (by omega),
        ih (by rw [length_pairUp]; omega), level_succ']

theorem subproof_of_odd {m : Nat} {xs : List α} (haveRoot : Bool) (hodd : m % 2 = 1)
    (hmn : m < xs.length) :
    subproof node empty m xs haveRoot =
      (if haveRoot ∧ m = 1 then [] else xs[m - 1]?.toList) ++
        path node empty (m - 1) xs := by
  induction hn : xs.length using Nat.strong_induction_on
    generalizing xs m haveRoot with
  | _ n ih =>
      have h2 : 2 ≤ xs.length := by omega
      have hk := split_lt h2
      have hpos := split_pos xs.length
      by_cases hleft : m ≤ split xs.length
      · by_cases hsplit1 : split xs.length = 1
        · -- two leaves: the prefix is the left leaf, the proof ends with the right one
          have hlen2 : xs.length = 2 := by
            have := le_two_mul_split h2
            omega
          obtain rfl : m = 1 := by omega
          have hsplit : split 2 = 1 := by decide
          match xs, hlen2 with
          | [a, b], _ =>
              have hone : subproof node empty 1 [a] haveRoot =
                  if haveRoot then [] else [a] := by
                simpa using subproof_of_eq_length node empty [a] haveRoot (by simp)
              rw [subproof_of_le_split node empty 1 [a, b] haveRoot (by omega) (by simp)
                  (by simp [hsplit]),
                path_of_lt_split node empty 0 [a, b] (by simp) (by simp [hsplit])]
              simp only [List.length_cons, List.length_nil, hsplit]
              cases haveRoot <;> simp [hone, path_of_length_le]
        · have hlt : m < split xs.length := by
            have := two_dvd_split (n := xs.length) (by
              have := le_two_mul_split h2
              omega)
            omega
          have hrec := @ih (xs.take (split xs.length)).length
            (by simp only [List.length_take]; omega) m (xs.take (split xs.length)) haveRoot
            hodd (by simp only [List.length_take]; omega) rfl
          rw [subproof_of_le_split node empty m xs haveRoot (by omega) hmn hleft, hrec,
            List.getElem?_take_of_lt (by omega),
            path_of_lt_split node empty (m - 1) xs h2 (by omega), List.append_assoc]
      · obtain ⟨r, hr⟩ := two_dvd_split (n := xs.length) (by omega)
        have hrec := @ih (xs.drop (split xs.length)).length
          (by simp only [List.length_drop]; omega) (m - split xs.length)
          (xs.drop (split xs.length)) false (by omega)
          (by simp only [List.length_drop]; omega) rfl
        rw [subproof_of_split_lt node empty m xs haveRoot hmn (by omega), hrec,
          path_of_split_le node empty (m - 1) xs (by omega) (by omega), List.getElem?_drop,
          show split xs.length + (m - split xs.length - 1) = m - 1 by omega,
          show m - split xs.length - 1 = m - 1 - split xs.length by omega,
          if_neg (by simp), if_neg (by omega), List.append_assoc]

theorem consistencyProof_eq_path {m k i : Nat} {xs : List α} (hm : m = 2 ^ k * (i + 1))
    (heven : i % 2 = 0) (hmn : m < xs.length) :
    consistencyProof node empty m xs =
      (if i = 0 then [] else (level node xs k)[i]?.toList) ++
        path node empty i (level node xs k) := by
  have hlen := length_level node xs (List.ne_nil_of_length_pos (by omega)) k
  have hlt : i + 1 < (level node xs k).length := by
    have hle : (i + 1) * 2 ^ k ≤ xs.length - 1 := by
      rw [Nat.mul_comm]
      omega
    rw [hlen, Nat.shiftRight_eq_div_pow]
    exact Nat.succ_lt_succ (Nat.lt_of_lt_of_le (Nat.lt_succ_self i)
      ((Nat.le_div_iff_mul_le (Nat.two_pow_pos k)).mpr hle))
  have hfit : 2 ^ k * (i + 1) ≤ xs.length := by omega
  rw [consistencyProof, hm, subproof_level node empty true k (by omega : 0 < i + 1) hfit,
    subproof_of_odd node empty true (by omega : (i + 1) % 2 = 1) hlt, Nat.add_sub_cancel]
  by_cases hi : i = 0
  · rw [if_pos ⟨rfl, by omega⟩, if_pos hi]
  · rw [if_neg (by omega), if_neg hi]

end CertTrans.LeftBalanced
