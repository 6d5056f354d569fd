import Mathlib.Data.Rat.Floor
import Mathlib.Algebra.Order.Field.Power

/-!
IEEE 754 binary64 rounding of a non-negative rational, to nearest with ties to
an even significand.  A double of the binade `[2 ^ b, 2 ^ (b + 1))` is a
multiple of `2 ^ (b - 52)`, and every double below `2 ^ -1022` a multiple of
`2 ^ -1074`; rounding is rounding to the nearest multiple of that spacing.
The one property the rest of the development needs is that rounding is
monotone (`toNearest_mono`).
-/

namespace CertTrans.Binary64

def roundHalfEven (x : ℚ) : ℤ :=
  if x - ⌊x⌋ < 1 / 2 then ⌊x⌋
  else if 1 / 2 < x - ⌊x⌋ then ⌊x⌋ + 1
  else if ⌊x⌋ % 2 = 0 then ⌊x⌋ else ⌊x⌋ + 1

/-- `⌊log₂ x⌋` for `0 < x`, from the bit lengths of its numerator and
denominator, which put it at `k` or `k - 1`. -/
def binade (x : ℚ) : ℤ :=
  let k : ℤ := (x.num.natAbs.log2 : ℤ) - x.den.log2
  if (2 : ℚ) ^ k ≤ x then k else k - 1

def ulpExponent (x : ℚ) : ℤ := max (binade x - 52) (-1074)

/-- `x ≥ 0`, below the largest finite double, rounded to the nearest double. -/
def toNearest (x : ℚ) : ℚ := roundHalfEven (x / 2 ^ ulpExponent x) * 2 ^ ulpExponent x

section RoundHalfEven

theorem floor_le_roundHalfEven (x : ℚ) : ⌊x⌋ ≤ roundHalfEven x := by
  unfold roundHalfEven
  split_ifs <;> omega

theorem roundHalfEven_le_floor_add_one (x : ℚ) : roundHalfEven x ≤ ⌊x⌋ + 1 := by
  unfold roundHalfEven
  split_ifs <;> omega

@[simp] theorem roundHalfEven_intCast (n : ℤ) : roundHalfEven n = n := by
  simp [roundHalfEven]

@[simp] theorem roundHalfEven_zero : roundHalfEven 0 = 0 := by
  simpa using roundHalfEven_intCast 0

theorem roundHalfEven_mono {x y : ℚ} (h : x ≤ y) : roundHalfEven x ≤ roundHalfEven y := by
  have hfloor : ⌊x⌋ ≤ ⌊y⌋ := Int.floor_mono h
  rcases hfloor.lt_or_eq with hlt | heq
  · -- a whole unit apart: `x` rounds to at most `⌊x⌋ + 1 ≤ ⌊y⌋`
    have := roundHalfEven_le_floor_add_one x
    have := floor_le_roundHalfEven y
    omega
  · -- the same floor: the fractional part of `y` is the larger
    have hfrac : x - ⌊x⌋ ≤ y - ⌊y⌋ := by rw [heq]; linarith
    unfold roundHalfEven
    rw [← heq]
    split_ifs <;> first | omega | linarith

theorem roundHalfEven_nonneg {x : ℚ} (h : 0 ≤ x) : 0 ≤ roundHalfEven x := by
  have := roundHalfEven_mono h
  rwa [roundHalfEven_zero] at this

end RoundHalfEven

section Binade

variable {x y : ℚ}

theorem zpow_log2_sub_bounds {n d : ℕ} (hn : n ≠ 0) (hd : d ≠ 0) :
    (2 : ℚ) ^ ((n.log2 : ℤ) - d.log2 - 1) < n / d ∧ (n / d : ℚ) < 2 ^ ((n.log2 : ℤ) - d.log2 + 1) := by
  have hn₁ : ((2 ^ n.log2 : ℕ) : ℚ) ≤ n := by exact_mod_cast Nat.log2_self_le hn
  have hn₂ : (n : ℚ) < ((2 ^ (n.log2 + 1) : ℕ) : ℚ) := by exact_mod_cast Nat.lt_log2_self
  have hd₁ : ((2 ^ d.log2 : ℕ) : ℚ) ≤ d := by exact_mod_cast Nat.log2_self_le hd
  have hd₂ : (d : ℚ) < ((2 ^ (d.log2 + 1) : ℕ) : ℚ) := by exact_mod_cast Nat.lt_log2_self
  have hdpos : (0 : ℚ) < d := by exact_mod_cast Nat.pos_of_ne_zero hd
  push_cast at hn₁ hn₂ hd₁ hd₂
  have hsplit : ∀ a b : ℕ, ∀ c : ℤ, (2 : ℚ) ^ ((a : ℤ) - b + c) = 2 ^ a * 2 ^ c / 2 ^ b := by
    intro a b c
    rw [sub_add_eq_add_sub, zpow_sub₀ two_ne_zero, zpow_add₀ two_ne_zero, zpow_natCast, zpow_natCast]
  constructor
  · rw [sub_eq_add_neg _ (1 : ℤ), hsplit, lt_div_iff₀ hdpos, div_mul_eq_mul_div,
      div_lt_iff₀ (by positivity)]
    have : (2 : ℚ) ^ (-1 : ℤ) = 1 / 2 := by norm_num
    rw [this, pow_succ] at *
    nlinarith
  · rw [hsplit, div_lt_iff₀ hdpos, div_mul_eq_mul_div, lt_div_iff₀ (by positivity)]
    rw [pow_succ] at hn₂
    simp only [zpow_one]
    nlinarith

theorem zpow_binade_le (hx : 0 < x) : (2 : ℚ) ^ binade x ≤ x := by
  unfold binade
  dsimp only
  split_ifs with h
  · exact h
  · have hn : x.num.natAbs ≠ 0 := by simpa using (Rat.num_pos.mpr hx).ne'
    have hbound := (zpow_log2_sub_bounds hn x.den_nz).1
    rw [Nat.cast_natAbs, Int.cast_abs, abs_of_pos (Rat.num_pos.mpr hx |> Int.cast_pos.mpr),
      Rat.num_div_den] at hbound
    exact hbound.le

theorem lt_zpow_binade_add_one (hx : 0 < x) : x < (2 : ℚ) ^ (binade x + 1) := by
  unfold binade
  dsimp only
  split_ifs with h
  · have hn : x.num.natAbs ≠ 0 := by simpa using (Rat.num_pos.mpr hx).ne'
    have hbound := (zpow_log2_sub_bounds hn x.den_nz).2
    rwa [Nat.cast_natAbs, Int.cast_abs, abs_of_pos (Rat.num_pos.mpr hx |> Int.cast_pos.mpr),
      Rat.num_div_den] at hbound
  · rw [sub_add_cancel]
    exact not_le.mp h

theorem binade_mono (hx : 0 < x) (h : x ≤ y) : binade x ≤ binade y := by
  have hlt : (2 : ℚ) ^ binade x < 2 ^ (binade y + 1) :=
    (zpow_binade_le hx).trans_lt (h.trans_lt (lt_zpow_binade_add_one (hx.trans_le h)))
  have := (zpow_lt_zpow_iff_right₀ (by norm_num : (1 : ℚ) < 2)).mp hlt
  omega

end Binade

section ToNearest

variable {x y : ℚ}

theorem toNearest_nonneg (hx : 0 ≤ x) : 0 ≤ toNearest x := by
  unfold toNearest
  have := roundHalfEven_nonneg (div_nonneg hx (zpow_nonneg zero_le_two (ulpExponent x)))
  positivity

theorem two_pow_le_toNearest (hx : 0 < x) (hnormal : ulpExponent x = binade x - 52) :
    (2 : ℚ) ^ (ulpExponent x + 52) ≤ toNearest x := by
  have hpow : (0 : ℚ) < 2 ^ ulpExponent x := zpow_pos two_pos _
  have hsplit : (2 : ℚ) ^ (ulpExponent x + 52) = ((2 ^ 52 : ℤ) : ℚ) * 2 ^ ulpExponent x := by
    rw [zpow_add₀ two_ne_zero, mul_comm]
    norm_num
  have hscaled : ((2 ^ 52 : ℤ) : ℚ) ≤ x / 2 ^ ulpExponent x := by
    rw [le_div_iff₀ hpow, ← hsplit, hnormal, sub_add_cancel]
    exact zpow_binade_le hx
  have hround := roundHalfEven_mono hscaled
  rw [roundHalfEven_intCast] at hround
  unfold toNearest
  rw [hsplit]
  exact mul_le_mul_of_nonneg_right (by exact_mod_cast hround) hpow.le

theorem toNearest_le_two_pow (hx : 0 < x) :
    toNearest x ≤ (2 : ℚ) ^ (ulpExponent x + 53) := by
  have hpow : (0 : ℚ) < 2 ^ ulpExponent x := zpow_pos two_pos _
  have hbinade : binade x + 1 ≤ ulpExponent x + 53 := by unfold ulpExponent; omega
  have hsplit : (2 : ℚ) ^ (ulpExponent x + 53) = ((2 ^ 53 : ℤ) : ℚ) * 2 ^ ulpExponent x := by
    rw [zpow_add₀ two_ne_zero, mul_comm]
    norm_num
  have hscaled : x / 2 ^ ulpExponent x ≤ ((2 ^ 53 : ℤ) : ℚ) := by
    rw [div_le_iff₀ hpow, ← hsplit]
    exact (lt_zpow_binade_add_one hx).le.trans (zpow_le_zpow_right₀ one_le_two hbinade)
  have hround := roundHalfEven_mono hscaled
  rw [roundHalfEven_intCast] at hround
  unfold toNearest
  rw [hsplit]
  exact mul_le_mul_of_nonneg_right (by exact_mod_cast hround) hpow.le

theorem toNearest_mono (hx : 0 ≤ x) (h : x ≤ y) : toNearest x ≤ toNearest y := by
  rcases hx.lt_or_eq with hpos | hzero
  · have hexp : ulpExponent x ≤ ulpExponent y := by
      unfold ulpExponent
      have := binade_mono hpos h
      omega
    rcases hexp.lt_or_eq with hlt | heq
    · -- `y` is normal, in a binade above that of `x`
      have hnormal : ulpExponent y = binade y - 52 := by
        unfold ulpExponent at hlt ⊢
        omega
      calc toNearest x ≤ 2 ^ (ulpExponent x + 53) := toNearest_le_two_pow hpos
        _ ≤ 2 ^ (ulpExponent y + 52) := zpow_le_zpow_right₀ one_le_two (by omega)
        _ ≤ toNearest y := two_pow_le_toNearest (hpos.trans_le h) hnormal
    · unfold toNearest
      rw [heq]
      have hpow : (0 : ℚ) < 2 ^ ulpExponent y := zpow_pos two_pos _
      have hround := roundHalfEven_mono (div_le_div_of_nonneg_right h hpow.le)
      exact mul_le_mul_of_nonneg_right (by exact_mod_cast hround) hpow.le
  · subst hzero
    have h0 : toNearest 0 = 0 := by simp [toNearest]
    rw [h0]
    exact toNearest_nonneg h

end ToNearest

end CertTrans.Binary64
