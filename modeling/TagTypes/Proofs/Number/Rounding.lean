import Mathlib.Algebra.Order.Floor.Semifield
import Mathlib.Data.Int.Log
import Mathlib.Data.Rat.Floor
import Mathlib.Tactic
import TagTypes.Number.Binary64
import TagTypes.Proofs.Text.Digit

/-!
# Rounding as a function of the exact value

The arithmetic of binary floating point numbers works on quotients of whole numbers. What comes out depends only on the rational number that the quotient stands for: `ofRatio` and `ofDecimal` are both `nearest` of that number. So two spellings of one number round alike, and a number close enough to a floating point number rounds to it.
-/

namespace TagTypes.Binary64

/-- `x` rounded to a whole number, a tie to the even one. -/
def roundEven (x : ℚ) : ℕ :=
  if 2 * (x - ⌊x⌋₊) < 1 then ⌊x⌋₊
  else if 1 < 2 * (x - ⌊x⌋₊) then ⌊x⌋₊ + 1
  else if ⌊x⌋₊ % 2 = 0 then ⌊x⌋₊ else ⌊x⌋₊ + 1

theorem roundDiv_eq_roundEven (num : ℕ) {den : ℕ} (hden : 0 < den) :
    roundDiv num den = roundEven ((num : ℚ) / den) := by
  have hden' : (0 : ℚ) < den := by exact_mod_cast hden
  have hfloor : ⌊(num : ℚ) / den⌋₊ = num / den := Nat.floor_div_eq_div num den
  have hsplit : (num : ℚ) = den * (num / den : ℕ) + (num % den : ℕ) := by
    exact_mod_cast (Nat.div_add_mod num den).symm
  have hpart : 2 * ((num : ℚ) / den - (num / den : ℕ)) = (2 * (num % den) : ℕ) / den := by
    rw [eq_div_iff hden'.ne', mul_assoc, sub_mul, div_mul_cancel₀ _ hden'.ne']
    push_cast
    linarith
  have hlow : 2 * (num % den) < den ↔ 2 * ((num : ℚ) / den - (num / den : ℕ)) < 1 := by
    rw [hpart, div_lt_one hden', Nat.cast_lt]
  have hhigh : den < 2 * (num % den) ↔ 1 < 2 * ((num : ℚ) / den - (num / den : ℕ)) := by
    rw [hpart, one_lt_div hden', Nat.cast_lt]
  simp only [roundDiv, roundEven, hfloor, hlow, hhigh]

theorem abs_roundEven_sub_le {x : ℚ} (hx : 0 ≤ x) : |(roundEven x : ℚ) - x| ≤ 1 / 2 := by
  have hlow := Nat.floor_le hx
  have hhigh := Nat.lt_floor_add_one x
  unfold roundEven
  split_ifs <;> push_cast <;> rw [abs_le] <;> constructor <;> linarith

theorem roundEven_eq_of_near {x : ℚ} (hx : 0 ≤ x) {q : ℕ} (hq : |x - q| < 1 / 2) : roundEven x = q := by
  have hround := abs_le.1 (abs_roundEven_sub_le hx)
  have hnear := abs_lt.1 hq
  have hlow : (roundEven x : ℚ) < (q + 1 : ℕ) := by
    push_cast
    linarith
  have hhigh : (q : ℚ) < (roundEven x + 1 : ℕ) := by
    push_cast
    linarith
  have := Nat.cast_lt.1 hlow
  have := Nat.cast_lt.1 hhigh
  omega

/-- Counted in steps of `g`, a number rounds to the multiple of `g` that is less than half a step away. -/
theorem roundEven_div_eq_of_near {x g : ℚ} (hx : 0 ≤ x) (hg : 0 < g) {q : ℕ} (hq : |x - q * g| < g / 2) :
    roundEven (x / g) = q := by
  refine roundEven_eq_of_near (by positivity) ?_
  rw [show x / g - q = (x - q * g) / g by field_simp, abs_div, abs_of_pos hg, div_lt_iff₀ hg]
  linarith

/-! ### Scaling -/

theorem zpow_eq_pow_toNat (b : ℚ) {e : ℤ} (he : 0 ≤ e) : b ^ e = b ^ e.toNat := by
  rw [← zpow_natCast, Int.toNat_of_nonneg he]

theorem zpow_eq_inv_pow_toNat (b : ℚ) {e : ℤ} (he : e < 0) : b ^ e = (b ^ (-e).toNat)⁻¹ := by
  rw [← zpow_natCast, Int.toNat_of_nonneg (by omega), zpow_neg, inv_inv]

theorem scaleDown_pos (num : ℕ) {den : ℕ} (hden : 0 < den) (e : ℤ) : 0 < (scaleDown num den e).2 := by
  unfold scaleDown
  split
  · positivity
  · exact hden

theorem scaleDown_ratio (num den : ℕ) (e : ℤ) :
    ((scaleDown num den e).1 : ℚ) / (scaleDown num den e).2 = (num : ℚ) / den / 2 ^ e := by
  unfold scaleDown
  split
  · rename_i he
    rw [zpow_eq_pow_toNat 2 he, div_div]
    push_cast
    rfl
  · rename_i he
    rw [zpow_eq_inv_pow_toNat 2 (not_le.1 he), div_inv_eq_mul, div_mul_eq_mul_div]
    push_cast
    rfl

theorem ratio_pos (mantissa : ℕ) (exponent : ℤ) : 0 < (ratio mantissa exponent).2 := by
  unfold ratio
  split
  · exact Nat.one_pos
  · positivity

theorem ratio_eq (mantissa : ℕ) (exponent : ℤ) :
    ((ratio mantissa exponent).1 : ℚ) / (ratio mantissa exponent).2 = mantissa * 2 ^ exponent := by
  unfold ratio
  split
  · rename_i he
    rw [zpow_eq_pow_toNat 2 he]
    push_cast
    rw [div_one]
  · rename_i he
    rw [zpow_eq_inv_pow_toNat 2 (not_le.1 he), ← div_eq_mul_inv]
    push_cast
    rfl

/-! ### The exponent -/

/-- A number between two neighbouring powers of two. -/
theorem log_two_eq {x : ℚ} {k : ℤ} (hlow : 2 ^ k ≤ x) (hhigh : x < 2 ^ (k + 1)) : Int.log 2 x = k := by
  have hx : 0 < x := lt_of_lt_of_le (by positivity) hlow
  have hle : k ≤ Int.log 2 x := (Int.zpow_le_iff_le_log Nat.one_lt_two hx).1 (by exact_mod_cast hlow)
  have hlt : Int.log 2 x < k + 1 := (Int.lt_zpow_iff_log_lt Nat.one_lt_two hx).1 (by exact_mod_cast hhigh)
  omega

/-- The exponent that the floating point numbers around `x` have. -/
def exponentAt (x : ℚ) : ℤ := max (Int.log 2 x - 52) minExponent

theorem zpow_log2_le {n : ℕ} (hn : 0 < n) : (2 : ℚ) ^ (n.log2 : ℤ) ≤ n := by
  rw [zpow_natCast]
  exact_mod_cast Nat.log2_self_le hn.ne'

theorem lt_zpow_log2 (n : ℕ) : (n : ℚ) < 2 ^ ((n.log2 : ℤ) + 1) := by
  exact_mod_cast Nat.lt_log2_self (n := n)

/-- The lengths of two numbers in bits say between which powers of two their quotient lies. -/
theorem zpow_le_ratio {num den : ℕ} (hnum : 0 < num) (hden : 0 < den) :
    (2 : ℚ) ^ ((num.log2 : ℤ) - den.log2 - 1) ≤ (num : ℚ) / den := by
  have hden' : (0 : ℚ) < den := by exact_mod_cast hden
  rw [le_div_iff₀ hden']
  calc (2 : ℚ) ^ ((num.log2 : ℤ) - den.log2 - 1) * den
      ≤ 2 ^ ((num.log2 : ℤ) - den.log2 - 1) * 2 ^ ((den.log2 : ℤ) + 1) := by
        gcongr
        exact (lt_zpow_log2 den).le
    _ = 2 ^ (num.log2 : ℤ) := by
        rw [← zpow_add₀ two_ne_zero]
        congr 1
        omega
    _ ≤ num := zpow_log2_le hnum

theorem ratio_lt_zpow {num den : ℕ} (hden : 0 < den) :
    (num : ℚ) / den < 2 ^ ((num.log2 : ℤ) - den.log2 + 1) := by
  have hden' : (0 : ℚ) < den := by exact_mod_cast hden
  rw [div_lt_iff₀ hden']
  calc (num : ℚ) < 2 ^ ((num.log2 : ℤ) + 1) := lt_zpow_log2 num
    _ = 2 ^ ((num.log2 : ℤ) - den.log2 + 1) * 2 ^ (den.log2 : ℤ) := by
        rw [← zpow_add₀ two_ne_zero]
        congr 1
        omega
    _ ≤ 2 ^ ((num.log2 : ℤ) - den.log2 + 1) * den := by
        gcongr
        exact zpow_log2_le hden

/-- The quotient of whole numbers after scaling decides the comparison with a power of two. -/
theorem scaleDown_div_lt_iff (num : ℕ) {den : ℕ} (hden : 0 < den) (e : ℤ) :
    (scaleDown num den e).1 / (scaleDown num den e).2 < 2 ^ 52 ↔ (num : ℚ) / den < 2 ^ (e + 52) := by
  have hpos := scaleDown_pos num hden e
  have hcast : (scaleDown num den e).1 < 2 ^ 52 * (scaleDown num den e).2 ↔
      ((scaleDown num den e).1 : ℚ) < 2 ^ 52 * (scaleDown num den e).2 := by
    exact_mod_cast Iff.rfl
  have hpow : (2 : ℚ) ^ (e + 52) = 2 ^ 52 * 2 ^ e := by
    rw [zpow_add₀ two_ne_zero, mul_comm]
    norm_num
  rw [Nat.div_lt_iff_lt_mul hpos, hcast, ← div_lt_iff₀ (by exact_mod_cast hpos), scaleDown_ratio,
    div_lt_iff₀ (by positivity), hpow]

theorem fittingExponent_eq {num den : ℕ} (hnum : 0 < num) (hden : 0 < den) :
    fittingExponent num den = exponentAt ((num : ℚ) / den) := by
  set e : ℤ := (num.log2 : ℤ) - (den.log2 : ℤ) - 52 with he
  have hlow : (2 : ℚ) ^ (e + 51) ≤ (num : ℚ) / den := by
    rw [show e + 51 = (num.log2 : ℤ) - den.log2 - 1 by omega]
    exact zpow_le_ratio hnum hden
  have hhigh : (num : ℚ) / den < 2 ^ (e + 53) := by
    rw [show e + 53 = (num.log2 : ℤ) - den.log2 + 1 by omega]
    exact ratio_lt_zpow hden
  have hlog : (if (scaleDown num den e).1 / (scaleDown num den e).2 < 2 ^ 52 then e - 1 else e)
      = Int.log 2 ((num : ℚ) / den) - 52 := by
    split
    · rename_i hsmall
      rw [log_two_eq hlow (by rw [add_assoc]; exact (scaleDown_div_lt_iff num hden e).1 hsmall)]
      ring
    · rename_i hlarge
      rw [log_two_eq (not_lt.1 ((scaleDown_div_lt_iff num hden e).not.1 hlarge)) (by rw [add_assoc]; exact hhigh)]
      ring
  change max (if (scaleDown num den e).1 / (scaleDown num den e).2 < 2 ^ 52 then e - 1 else e) minExponent = _
  rw [hlog, exponentAt]

theorem exponentAt_eq_of_normal {x : ℚ} (hx : minExponent < exponentAt x) : exponentAt x = Int.log 2 x - 52 := by
  unfold exponentAt at *
  omega

theorem div_exponentAt_lt (x : ℚ) : x / 2 ^ exponentAt x < 2 ^ 53 := by
  rw [div_lt_iff₀ (by positivity)]
  calc x < 2 ^ (Int.log 2 x + 1) := by exact_mod_cast Int.lt_zpow_succ_log_self Nat.one_lt_two x
    _ ≤ 2 ^ (53 + exponentAt x) := zpow_le_zpow_right₀ (by norm_num) (by unfold exponentAt; omega)
    _ = 2 ^ 53 * 2 ^ exponentAt x := by
      rw [zpow_add₀ two_ne_zero]
      norm_num

theorem le_div_exponentAt {x : ℚ} (hpos : 0 < x) (hnormal : minExponent < exponentAt x) :
    2 ^ 52 ≤ x / 2 ^ exponentAt x := by
  rw [le_div_iff₀ (by positivity), exponentAt_eq_of_normal hnormal]
  calc (2 : ℚ) ^ 52 * 2 ^ (Int.log 2 x - 52) = 2 ^ Int.log 2 x := by
        rw [zpow_sub₀ two_ne_zero]
        norm_num
        ring
    _ ≤ x := by exact_mod_cast Int.zpow_log_le_self Nat.one_lt_two hpos

/-! ### Rounding to a floating point number -/

/-- The floating point number with an exponent and a mantissa that may have come out as `2 ^ 53`. -/
def ofMantissa (negative : Bool) (mantissa : ℕ) (exponent : ℤ) : Binary64 :=
  let (q, e) := if mantissa = 2 ^ 53 then (2 ^ 52, exponent + 1) else (mantissa, exponent)
  if maxExponent < e then .infinite negative else .finite negative q e

theorem ofMantissa_carry (negative : Bool) (exponent : ℤ) :
    ofMantissa negative (2 ^ 53) exponent =
      if maxExponent < exponent + 1 then .infinite negative else .finite negative (2 ^ 52) (exponent + 1) := by
  simp only [ofMantissa, if_pos]

theorem ofMantissa_of_ne (negative : Bool) {mantissa : ℕ} (hmantissa : mantissa ≠ 2 ^ 53) (exponent : ℤ) :
    ofMantissa negative mantissa exponent =
      if maxExponent < exponent then .infinite negative else .finite negative mantissa exponent := by
  simp only [ofMantissa, if_neg hmantissa]

/-- The floating point number nearest to `x`, which must not be negative. -/
def nearest (negative : Bool) (x : ℚ) : Binary64 :=
  if x = 0 then zero negative
  else ofMantissa negative (roundEven (x / 2 ^ exponentAt x)) (exponentAt x)

theorem ofRatio_eq_nearest (negative : Bool) (num : ℕ) {den : ℕ} (hden : 0 < den) :
    ofRatio negative num den = nearest negative ((num : ℚ) / den) := by
  have hden' : (den : ℚ) ≠ 0 := by exact_mod_cast hden.ne'
  unfold ofRatio nearest
  by_cases hnum : num = 0
  · simp [hnum]
  · have hne : (num : ℚ) / den ≠ 0 := div_ne_zero (by exact_mod_cast hnum) hden'
    rw [if_neg hnum, if_neg hne, fittingExponent_eq (Nat.pos_of_ne_zero hnum) hden]
    simp only [roundDiv_eq_roundEven _ (scaleDown_pos num hden _), scaleDown_ratio]
    rfl

theorem two_zpow_le_ten_zpow : (2 : ℚ) ^ (1200 : ℤ) ≤ 10 ^ (400 : ℤ) := by
  calc (2 : ℚ) ^ ((3 : ℤ) * 400) = ((2 : ℚ) ^ (3 : ℤ)) ^ (400 : ℤ) := zpow_mul 2 3 400
    _ ≤ 10 ^ (400 : ℤ) := zpow_le_zpow_left₀ (by norm_num) (by positivity) (by norm_num)

/-- A number too large for any mantissa rounds to infinity. -/
theorem nearest_of_huge (negative : Bool) {x : ℚ} (hx : 10 ^ (400 : ℤ) ≤ x) : nearest negative x = .infinite negative := by
  have hpos : 0 < x := lt_of_lt_of_le (by positivity) hx
  have hpow : (2 : ℚ) ^ (1024 : ℤ) ≤ x :=
    le_trans (zpow_le_zpow_right₀ (by norm_num) (by norm_num)) (two_zpow_le_ten_zpow.trans hx)
  have hlog : 1024 ≤ Int.log 2 x := (Int.zpow_le_iff_le_log Nat.one_lt_two hpos).1 (by exact_mod_cast hpow)
  have hexponent : maxExponent < exponentAt x := by
    unfold exponentAt maxExponent
    omega
  rw [nearest, if_neg hpos.ne']
  by_cases hcarry : roundEven (x / 2 ^ exponentAt x) = 2 ^ 53
  · rw [hcarry, ofMantissa_carry, if_pos (lt_trans hexponent (lt_add_one _))]
  · rw [ofMantissa_of_ne negative hcarry, if_pos hexponent]

/-- A number far below the least mantissa rounds to zero. -/
theorem nearest_of_tiny (negative : Bool) {x : ℚ} (hpos : 0 < x) (hx : x < 10 ^ (-400 : ℤ)) :
    nearest negative x = zero negative := by
  have hpow : x < 2 ^ (-1075 : ℤ) := by
    calc x < 10 ^ (-400 : ℤ) := hx
      _ ≤ 2 ^ (-1200 : ℤ) := by
        rw [zpow_neg, zpow_neg]
        exact inv_anti₀ (by positivity) two_zpow_le_ten_zpow
      _ ≤ 2 ^ (-1075 : ℤ) := zpow_le_zpow_right₀ (by norm_num) (by norm_num)
  have hlog : Int.log 2 x < -1075 := (Int.lt_zpow_iff_log_lt Nat.one_lt_two hpos).1 (by exact_mod_cast hpow)
  have hexponent : exponentAt x = minExponent := by
    unfold exponentAt minExponent
    omega
  have hround : roundEven (x / 2 ^ minExponent) = 0 := by
    refine roundEven_div_eq_of_near hpos.le (by positivity) ?_
    rw [Nat.cast_zero, zero_mul, sub_zero, abs_of_pos hpos]
    calc x < 2 ^ (-1075 : ℤ) := hpow
      _ = 2 ^ minExponent / 2 := by
        rw [minExponent, show (-1075 : ℤ) = -1074 - 1 by norm_num, zpow_sub_one₀ two_ne_zero, div_eq_mul_inv]
  rw [nearest, if_neg hpos.ne', hexponent, hround]
  rfl

theorem zpow_length_natDigits_le {n : ℕ} (hn : 0 < n) : (10 : ℚ) ^ (((Nat.toDigits 10 n).length : ℤ) - 1) ≤ n := by
  have hlength : 0 < (Nat.toDigits 10 n).length := Nat.length_toDigits_pos
  rw [show ((Nat.toDigits 10 n).length : ℤ) - 1 = ((Nat.toDigits 10 n).length - 1 : ℕ) by omega, zpow_natCast]
  exact_mod_cast Text.pow_pred_length_natDigits_le hn

theorem lt_zpow_length_natDigits (n : ℕ) : (n : ℚ) < 10 ^ ((Nat.toDigits 10 n).length : ℤ) := by
  rw [zpow_natCast]
  exact_mod_cast Text.lt_pow_length_natDigits n

theorem ofDecimal_eq_nearest (negative : Bool) (digits : ℕ) (exponent : ℤ) :
    ofDecimal negative digits exponent = nearest negative (digits * 10 ^ exponent) := by
  unfold ofDecimal
  by_cases hzero : digits = 0
  · simp [hzero, nearest]
  rw [if_neg hzero]
  have hdigits : 0 < digits := Nat.pos_of_ne_zero hzero
  have hlow := zpow_length_natDigits_le hdigits
  have hhigh := lt_zpow_length_natDigits digits
  simp only
  split
  · rename_i hmagnitude
    refine (nearest_of_huge negative ?_).symm
    calc (10 : ℚ) ^ (400 : ℤ) ≤ 10 ^ (((Nat.toDigits 10 digits).length : ℤ) - 1 + exponent) :=
          zpow_le_zpow_right₀ (by norm_num) (by omega)
      _ = 10 ^ (((Nat.toDigits 10 digits).length : ℤ) - 1) * 10 ^ exponent := zpow_add₀ (by norm_num) _ _
      _ ≤ digits * 10 ^ exponent := by gcongr
  · split
    · rename_i hmagnitude
      refine (nearest_of_tiny negative (by positivity) ?_).symm
      calc (digits : ℚ) * 10 ^ exponent < 10 ^ ((Nat.toDigits 10 digits).length : ℤ) * 10 ^ exponent := by gcongr
        _ = 10 ^ (((Nat.toDigits 10 digits).length : ℤ) + exponent) := (zpow_add₀ (by norm_num) _ _).symm
        _ ≤ 10 ^ (-400 : ℤ) := zpow_le_zpow_right₀ (by norm_num) (by omega)
    · split
      · rename_i hexponent
        rw [ofRatio_eq_nearest negative _ Nat.one_pos, zpow_eq_pow_toNat 10 hexponent]
        push_cast
        rw [div_one]
      · rename_i hexponent
        rw [ofRatio_eq_nearest negative _ (by positivity), zpow_eq_inv_pow_toNat 10 (not_le.1 hexponent),
          ← div_eq_mul_inv]
        push_cast
        rfl

/-! ### Numbers in their one form -/

/-- The form in which each number stands once: a mantissa of 53 bits, or the least exponent. -/
def IsCanonical : Binary64 → Prop
  | .nan | .infinite _ => True
  | .finite _ mantissa exponent =>
    mantissa < 2 ^ 53 ∧ minExponent ≤ exponent ∧ exponent ≤ maxExponent ∧
      (2 ^ 52 ≤ mantissa ∨ exponent = minExponent)

theorem isCanonical_zero (negative : Bool) : (zero negative).IsCanonical := by
  refine ⟨by norm_num, le_rfl, by decide, Or.inr rfl⟩

theorem isCanonical_ofMantissa (negative : Bool) {mantissa : ℕ} {exponent : ℤ} (hmantissa : mantissa ≤ 2 ^ 53)
    (hexponent : minExponent ≤ exponent) (hform : 2 ^ 52 ≤ mantissa ∨ exponent = minExponent) :
    (ofMantissa negative mantissa exponent).IsCanonical := by
  by_cases hcarry : mantissa = 2 ^ 53
  · rw [hcarry, ofMantissa_carry]
    split
    · trivial
    · rename_i hmax
      exact ⟨by norm_num, by omega, not_lt.1 hmax, Or.inl le_rfl⟩
  · rw [ofMantissa_of_ne negative hcarry]
    split
    · trivial
    · rename_i hmax
      exact ⟨by omega, hexponent, not_lt.1 hmax, hform⟩

theorem isCanonical_nearest (negative : Bool) {x : ℚ} (hx : 0 ≤ x) : (nearest negative x).IsCanonical := by
  unfold nearest
  split
  · exact isCanonical_zero negative
  rename_i hne
  have hpos : 0 < x := lt_of_le_of_ne hx (Ne.symm hne)
  have hround := abs_le.1 (abs_roundEven_sub_le (x := x / 2 ^ exponentAt x) (by positivity))
  refine isCanonical_ofMantissa negative ?_ (le_max_right _ _) ?_
  · have hscaled := div_exponentAt_lt x
    have hlt : (roundEven (x / 2 ^ exponentAt x) : ℚ) < (2 ^ 53 + 1 : ℕ) := by
      push_cast
      linarith
    have := Nat.cast_lt.1 hlt
    omega
  · by_cases hmin : exponentAt x = minExponent
    · exact Or.inr hmin
    · left
      have hscaled := le_div_exponentAt hpos (lt_of_le_of_ne (le_max_right _ _) (Ne.symm hmin))
      by_contra hsmall
      have hle : (roundEven (x / 2 ^ exponentAt x) : ℚ) + 1 ≤ 2 ^ 52 := by exact_mod_cast not_le.1 hsmall
      linarith

theorem isCanonical_ofDecimal (negative : Bool) (digits : ℕ) (exponent : ℤ) :
    (ofDecimal negative digits exponent).IsCanonical := by
  rw [ofDecimal_eq_nearest]
  exact isCanonical_nearest negative (by positivity)

/-! ### Numbers near to a floating point number -/

section Near

variable {mantissa : ℕ} {exponent : ℤ} {y : ℚ}

/-- Near to a number of the same exponent. -/
theorem nearest_eq_of_near_of_exponentAt (negative : Bool) (hy : 0 < y) (hbits : mantissa < 2 ^ 53)
    (hmax : exponent ≤ maxExponent) (hsame : exponentAt y = exponent)
    (hnear : |y - mantissa * 2 ^ exponent| < 2 ^ exponent / 2) :
    nearest negative y = .finite negative mantissa exponent := by
  have hround : roundEven (y / 2 ^ exponentAt y) = mantissa := by
    rw [hsame]
    exact roundEven_div_eq_of_near hy.le (by positivity) hnear
  rw [nearest, if_neg hy.ne', hround, hsame, ofMantissa_of_ne negative hbits.ne, if_neg (not_lt.2 hmax)]

/-- Near to a power of two but below it, where numbers have the next smaller exponent: the mantissa is rounded up to the power. -/
theorem nearest_eq_of_near_below (negative : Bool) (hmin : minExponent < exponent) (hmax : exponent ≤ maxExponent)
    (hbelow : y < 2 ^ 52 * 2 ^ exponent) (hnear : |y - 2 ^ 52 * 2 ^ exponent| < 2 ^ exponent / 4) :
    nearest negative y = .finite negative (2 ^ 52) exponent := by
  have hgap : (0 : ℚ) < 2 ^ exponent := by positivity
  have hclose := (abs_lt.1 hnear).1
  have hlow : (2 : ℚ) ^ (exponent + 51) ≤ y := by
    rw [zpow_add₀ two_ne_zero]
    norm_num at hclose ⊢
    linarith
  have hhigh : y < 2 ^ (exponent + 51 + 1) := by
    rw [add_assoc, zpow_add₀ two_ne_zero, mul_comm]
    exact_mod_cast hbelow
  have hpos : 0 < y := lt_of_lt_of_le (by positivity) hlow
  have hexponent : exponentAt y = exponent - 1 := by
    unfold exponentAt
    rw [log_two_eq hlow hhigh]
    omega
  have hhalf : (2 : ℚ) ^ (exponent - 1) = 2 ^ exponent / 2 := by
    rw [zpow_sub_one₀ two_ne_zero, div_eq_mul_inv]
  have hround : roundEven (y / 2 ^ (exponent - 1)) = 2 ^ 53 := by
    refine roundEven_div_eq_of_near hpos.le (by positivity) ?_
    rw [hhalf, show ((2 ^ 53 : ℕ) : ℚ) * (2 ^ exponent / 2) = 2 ^ 52 * 2 ^ exponent by push_cast; ring]
    linarith
  rw [nearest, if_neg hpos.ne', hexponent, hround, ofMantissa_carry, sub_add_cancel, if_neg (not_lt.2 hmax)]

/-- What lies nearer to a floating point number than half the gap to its neighbours rounds to it. Below a power of two the gap is half as wide as above it. -/
theorem nearest_eq_of_near (negative : Bool) (hmantissa : 0 < mantissa)
    (hcanonical : (Binary64.finite negative mantissa exponent).IsCanonical)
    (hnear : |y - mantissa * 2 ^ exponent| < 2 ^ exponent / 2)
    (hpower : mantissa = 2 ^ 52 → |y - mantissa * 2 ^ exponent| < 2 ^ exponent / 4) :
    nearest negative y = .finite negative mantissa exponent := by
  obtain ⟨hbits, hmin, hmax, hform⟩ := hcanonical
  have hgap : (0 : ℚ) < 2 ^ exponent := by positivity
  have hone : (1 : ℚ) ≤ mantissa := by exact_mod_cast hmantissa
  have hbits' : (mantissa : ℚ) + 1 ≤ 2 ^ 53 := by exact_mod_cast hbits
  obtain ⟨hlow, hhigh⟩ := abs_lt.1 hnear
  have hy : 0 < y := by nlinarith
  have hylog : y < 2 ^ (exponent + 53) := by
    rw [zpow_add₀ two_ne_zero]
    norm_num at hbits' ⊢
    nlinarith
  have hlogLt : Int.log 2 y < exponent + 53 := (Int.lt_zpow_iff_log_lt Nat.one_lt_two hy).1 (by exact_mod_cast hylog)
  by_cases hsame : exponentAt y = exponent
  · exact nearest_eq_of_near_of_exponentAt negative hy hbits hmax hsame hnear
  · -- The exponent differs only for a number just below a power of two.
    have hbelow : Int.log 2 y < exponent + 52 ∧ minExponent < exponent := by
      unfold exponentAt at hsame
      omega
    have hybelow : y < 2 ^ 52 * 2 ^ exponent := by
      have := (Int.lt_zpow_iff_log_lt Nat.one_lt_two hy).2 hbelow.1
      rw [add_comm, zpow_add₀ (by norm_num)] at this
      exact_mod_cast this
    have hleast : mantissa = 2 ^ 52 := by
      have hge : 2 ^ 52 ≤ mantissa := hform.resolve_right (by omega)
      by_contra hne
      have hgt : (2 : ℚ) ^ 52 + 1 ≤ mantissa := by exact_mod_cast lt_of_le_of_ne hge (Ne.symm hne)
      have : ((2 : ℚ) ^ 52 + 1) * 2 ^ exponent ≤ mantissa * 2 ^ exponent := by gcongr
      linarith
    subst hleast
    refine nearest_eq_of_near_below negative hbelow.2 hmax hybelow ?_
    exact_mod_cast hpower rfl

end Near

end TagTypes.Binary64
