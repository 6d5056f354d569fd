import CertTrans.LeftBalanced.Basic

/-!
The root of a left-balanced tree, defined top down by splitting at the
largest power of two, and its agreement with the bottom-up levels: one level
step does not change the root, the last level is the root, and every node of
a level is the root of the block of leaves below it.
-/

namespace CertTrans.LeftBalanced

variable {α : Type*} (node : α → α → α) (empty : α)

theorem take_split_length {xs : List α} (h : 2 ≤ xs.length) :
    (xs.take (split xs.length)).length = split xs.length := by
  have := split_lt h
  simp only [List.length_take]
  omega

def root (xs : List α) : α :=
  if xs.length ≤ 1 then xs.headD empty
  else
    node (root (xs.take (split xs.length))) (root (xs.drop (split xs.length)))
termination_by xs.length
decreasing_by
  · rw [take_split_length (by omega)]
    exact split_lt (by omega)
  · have := split_pos xs.length
    simp only [List.length_drop]
    omega

@[simp] theorem root_nil : root node empty [] = empty := by
  rw [root, if_pos (by simp)]
  rfl

@[simp] theorem root_singleton (a : α) : root node empty [a] = a := by
  rw [root, if_pos (by simp)]
  rfl

theorem root_of_two_le (xs : List α) (h : 2 ≤ xs.length) :
    root node empty xs =
      node (root node empty (xs.take (split xs.length)))
        (root node empty (xs.drop (split xs.length))) := by
  rw [root, if_neg (by omega)]

theorem root_of_forall {P : α → Prop} (hnode : ∀ a b, P (node a b)) {xs : List α}
    (hne : xs ≠ []) (hleaves : ∀ x ∈ xs, P x) : P (root node empty xs) := by
  by_cases h2 : 2 ≤ xs.length
  · rw [root_of_two_le node empty xs h2]
    exact hnode _ _
  · obtain ⟨x, rest, rfl⟩ := List.exists_cons_of_ne_nil hne
    obtain rfl : rest = [] :=
      List.eq_nil_of_length_eq_zero (by simp only [List.length_cons] at h2; omega)
    rw [root_singleton]
    exact hleaves x (by simp)

theorem root_pairUp (xs : List α) : root node empty (pairUp node xs) = root node empty xs := by
  induction hn : xs.length using Nat.strong_induction_on generalizing xs with
  | _ n ih =>
      by_cases h2 : xs.length ≤ 2
      · match xs, h2 with
        | [], _ => rfl
        | [a], _ => rfl
        | [a, b], _ =>
            have hsplit : split 2 = 1 := by decide
            rw [root_of_two_le node empty [a, b] (by simp)]
            simp [hsplit]
        | _ :: _ :: _ :: _, h => simp at h
      · have h3 : 3 ≤ xs.length := by omega
        have hk := split_lt (n := xs.length) (by omega)
        have hpos := split_pos xs.length
        have hlen : 2 ≤ (pairUp node xs).length := by
          rw [length_pairUp]
          omega
        have hleft := ih (xs.take (split xs.length)).length
          (by simp only [List.length_take]; omega) _ rfl
        have hright := ih (xs.drop (split xs.length)).length
          (by simp only [List.length_drop]; omega) _ rfl
        rw [root_of_two_le node empty _ hlen, pairUp_take_split node h3,
          pairUp_drop_split node h3, hleft, hright, root_of_two_le node empty xs (by omega)]

theorem root_level (xs : List α) (l : Nat) :
    root node empty (level node xs l) = root node empty xs := by
  induction l with
  | zero => rfl
  | succ l ih => rw [level_succ, root_pairUp, ih]

theorem level_eq_singleton_root {xs : List α} (hxs : xs ≠ []) {l : Nat}
    (hl : xs.length ≤ 2 ^ l) : level node xs l = [root node empty xs] := by
  have hle := length_level_le_one node xs l hl
  have hne : level node xs l ≠ [] := (level_eq_nil_iff node xs l).not.mpr hxs
  rw [← root_level node empty xs l]
  match hlev : level node xs l, hle, hne with
  | [a], _, _ => simp

theorem root_injective (hnode : ∀ a b c d, node a b = node c d → a = c ∧ b = d)
    {xs ys : List α} (hlen : xs.length = ys.length)
    (h : root node empty xs = root node empty ys) : xs = ys := by
  induction hn : xs.length using Nat.strong_induction_on generalizing xs ys with
  | _ n ih =>
      by_cases h2 : 2 ≤ xs.length
      · rw [root_of_two_le node empty xs h2, root_of_two_le node empty ys (hlen ▸ h2), hlen] at h
        obtain ⟨hleft, hright⟩ := hnode _ _ _ _ h
        have hk := split_lt (hlen ▸ h2)
        have htake := ih (xs.take (split ys.length)).length
          (by simp only [List.length_take]; omega) (by simp only [List.length_take, hlen]) hleft rfl
        have hdrop := ih (xs.drop (split ys.length)).length
          (by have := split_pos ys.length; simp only [List.length_drop]; omega)
          (by simp only [List.length_drop, hlen]) hright rfl
        rw [← List.take_append_drop (split ys.length) xs, htake, hdrop, List.take_append_drop]
      · -- no split: the root is the only leaf, or the empty value for both
        match xs, ys, hlen with
        | [], [], _ => rfl
        | [a], [b], _ => simpa using h
        | _ :: _ :: _, _, _ => simp at h2

end CertTrans.LeftBalanced
