import Mathlib.Tactic
import TagTypes.Number.Shortest
import TagTypes.Proofs.Number.Rounding

/-!
# The shortest decimal reads back

The search for the shortest decimal stops at the latest with seventeen digits: a grid of that many digits is finer than half the gap between neighbouring floating point numbers, so the point of the grid next to a number lies nearer to it than to any other.
-/

namespace TagTypes.Binary64

/-- The number that a decimal stands for. -/
def Decimal.value (x : Decimal) : ℚ := x.digits * 10 ^ x.exponent

theorem Decimal.value_dropZeros (fuel : ℕ) (x : Decimal) : (x.dropZeros fuel).value = x.value := by
  induction fuel generalizing x with
  | zero => rfl
  | succ fuel ih =>
    rw [Decimal.dropZeros]
    split
    · rename_i hzero
      rw [ih]
      simp only [Bool.and_eq_true, decide_eq_true_eq] at hzero
      obtain ⟨n, hn⟩ : 10 ∣ x.digits := Nat.dvd_of_mod_eq_zero hzero.2
      simp only [Decimal.value, hn, Nat.mul_div_cancel_left n (show 0 < 10 by norm_num)]
      rw [zpow_add₀ (by norm_num)]
      push_cast
      ring
    · rfl

theorem Decimal.digits_dropZeros_pos (fuel : ℕ) {x : Decimal} (hx : 0 < x.digits) : 0 < (x.dropZeros fuel).digits := by
  induction fuel generalizing x with
  | zero => exact hx
  | succ fuel ih =>
    rw [Decimal.dropZeros]
    split
    · rename_i hzero
      simp only [Bool.and_eq_true, decide_eq_true_eq] at hzero
      exact ih (by simp only; omega)
    · exact hx

/-! ### Grids -/

theorem onGrid_pos (num : ℕ) {den : ℕ} (hden : 0 < den) (k : ℤ) : 0 < (onGrid num den k).2 := by
  unfold onGrid
  split
  · positivity
  · exact hden

theorem onGrid_ratio (num den : ℕ) (k : ℤ) :
    ((onGrid num den k).1 : ℚ) / (onGrid num den k).2 = (num : ℚ) / den / 10 ^ k := by
  unfold onGrid
  split
  · rename_i hk
    obtain ⟨n, rfl⟩ := Int.eq_ofNat_of_zero_le hk
    push_cast
    rw [Int.toNat_natCast, zpow_natCast, div_div]
  · rename_i hk
    obtain ⟨n, hn⟩ := Int.eq_ofNat_of_zero_le (show 0 ≤ -k by omega)
    rw [show k = -(n : ℤ) by omega, neg_neg, Int.toNat_natCast, zpow_neg, zpow_natCast]
    push_cast
    rw [div_inv_eq_mul, div_mul_eq_mul_div]

/-- The point of the grid of `10 ^ k` next to a number. -/
def gridPoint (num den : ℕ) (k : ℤ) : ℕ := roundDiv (onGrid num den k).1 (onGrid num den k).2

theorem gridPoint_eq (num : ℕ) {den : ℕ} (hden : 0 < den) (k : ℤ) :
    gridPoint num den k = roundEven ((num : ℚ) / den / 10 ^ k) := by
  rw [gridPoint, roundDiv_eq_roundEven _ (onGrid_pos num hden k), onGrid_ratio]

theorem abs_gridPoint_sub_le (num : ℕ) {den : ℕ} (hden : 0 < den) (k : ℤ) :
    |(gridPoint num den k : ℚ) * 10 ^ k - (num : ℚ) / den| ≤ 10 ^ k / 2 := by
  have hk : (0 : ℚ) < 10 ^ k := by positivity
  have hround := abs_roundEven_sub_le (x := (num : ℚ) / den / 10 ^ k) (by positivity)
  rw [gridPoint_eq num hden]
  set n : ℚ := (roundEven ((num : ℚ) / den / 10 ^ k) : ℚ)
  calc |n * 10 ^ k - (num : ℚ) / den| = |n - (num : ℚ) / den / 10 ^ k| * 10 ^ k := by
        rw [← abs_of_pos hk, ← abs_mul, abs_of_pos hk, sub_mul, div_mul_cancel₀ _ hk.ne']
    _ ≤ 1 / 2 * 10 ^ k := by gcongr
    _ = 10 ^ k / 2 := by ring

theorem gridPoint_mem_neighbours (num den : ℕ) (k : ℤ) : gridPoint num den k ∈ neighbours num den k := by
  have hcases : gridPoint num den k = (onGrid num den k).1 / (onGrid num den k).2 ∨
      gridPoint num den k = (onGrid num den k).1 / (onGrid num den k).2 + 1 := by
    unfold gridPoint roundDiv
    simp only
    split_ifs <;> simp
  unfold neighbours
  simp only
  split
  · rename_i hlow
    change gridPoint num den k = _ at hlow
    rw [hlow]
    exact List.mem_cons_self
  · rcases hcases with hlow | hhigh
    · rw [hlow]
      exact List.mem_cons_of_mem _ List.mem_cons_self
    · rw [hhigh]
      exact List.mem_cons_self

/-- The decimal exponent of a number is not too large. -/
theorem ten_pow_decimalExponent_le {num den : ℕ} (hnum : 0 < num) (hden : 0 < den) :
    (10 : ℚ) ^ decimalExponent num den ≤ (num : ℚ) / den := by
  have hden' : (0 : ℚ) < den := by exact_mod_cast hden
  have hnum' : (0 : ℚ) < num := by exact_mod_cast hnum
  unfold decimalExponent
  split
  · rename_i hle
    have hlength : 0 < (Nat.toDigits 10 (num / den)).length := Nat.length_toDigits_pos
    have hpow := Text.pow_pred_length_natDigits_le (Nat.div_pos hle hden)
    rw [show ((Nat.toDigits 10 (num / den)).length : ℤ) - 1 = ((Nat.toDigits 10 (num / den)).length - 1 : ℕ) by omega,
      zpow_natCast]
    calc (10 : ℚ) ^ ((Nat.toDigits 10 (num / den)).length - 1) ≤ (num / den : ℕ) := by exact_mod_cast hpow
      _ ≤ (num : ℚ) / den := Nat.cast_div_le
  · simp only
    split
    · rename_i hle
      rw [zpow_neg, zpow_natCast, le_div_iff₀ hden', inv_mul_le_iff₀ (by positivity), mul_comm]
      exact_mod_cast hle
    · have hlt : den / num < 10 ^ (Nat.toDigits 10 (den / num)).length := Text.lt_pow_length_natDigits _
      rw [Nat.div_lt_iff_lt_mul hnum] at hlt
      rw [zpow_neg, zpow_natCast, le_div_iff₀ hden', inv_mul_le_iff₀ (by positivity)]
      exact_mod_cast hlt.le

/-! ### The search -/

section Search

variable {mantissa : ℕ} {exponent : ℤ}

/-- Seventeen digits are enough to tell a number from its neighbours. -/
theorem nearest_gridPoint (hmantissa : 0 < mantissa)
    (hcanonical : (Binary64.finite false mantissa exponent).IsCanonical) {num den : ℕ} (hden : 0 < den)
    (hvalue : (num : ℚ) / den = mantissa * 2 ^ exponent) {k : ℤ} (hk : (10 : ℚ) ^ (k + 16) ≤ (num : ℚ) / den) :
    nearest false (gridPoint num den k * 10 ^ k) = .finite false mantissa exponent := by
  have hg : (0 : ℚ) < 2 ^ exponent := by positivity
  have hgap := abs_gridPoint_sub_le num hden k
  rw [zpow_add₀ (by norm_num), hvalue] at hk
  rw [hvalue] at hgap
  norm_num at hk
  have hbits : (mantissa : ℚ) < 2 ^ 53 := by exact_mod_cast hcanonical.1
  have hsize : (mantissa : ℚ) * 2 ^ exponent ≤ 2 ^ 53 * 2 ^ exponent := by gcongr
  norm_num at hsize
  refine nearest_eq_of_near false hmantissa hcanonical ?_ ?_
  · linarith
  · intro heq
    subst heq
    push_cast at hk hgap ⊢
    linarith

theorem ofDecimal_search (hmantissa : 0 < mantissa)
    (hcanonical : (Binary64.finite false mantissa exponent).IsCanonical) {num den : ℕ} (hden : 0 < den)
    (hvalue : (num : ℚ) / den = mantissa * 2 ^ exponent) {top : ℤ} (htop : (10 : ℚ) ^ top ≤ (num : ℚ) / den)
    (more count : ℕ) (hmore : 0 < more) (hcount : count + more = 18) :
    nearest false (search mantissa exponent num den top more count).value = .finite false mantissa exponent := by
  induction more generalizing count with
  | zero => omega
  | succ more ih =>
    rw [search]
    split
    · rename_i n hn
      rw [Decimal.value_dropZeros, Decimal.value, ← ofDecimal_eq_nearest]
      simpa using List.find?_some hn
    · rename_i hnone
      by_cases hlast : more = 0
      · exfalso
        have hmem := gridPoint_mem_neighbours num den (top - count + 1)
        refine (List.find?_eq_none.1 hnone _ hmem) ?_
        rw [decide_eq_true_eq, ofDecimal_eq_nearest]
        refine nearest_gridPoint hmantissa hcanonical hden hvalue ?_
        rw [show top - (count : ℤ) + 1 + 16 = top by omega]
        exact htop
      · exact ih (count + 1) (by omega) (by omega)

theorem digits_search_pos (hmantissa : 0 < mantissa) {num den : ℕ} (hden : 0 < den) {top : ℤ}
    (htop : (10 : ℚ) ^ top ≤ (num : ℚ) / den) (more count : ℕ) (hcount : count + more = 18) :
    0 < (search mantissa exponent num den top more count).digits := by
  induction more generalizing count with
  | zero =>
    have hk : (0 : ℚ) < 10 ^ (top - count + 1) := by positivity
    have hgap := (abs_le.1 (abs_gridPoint_sub_le num hden (top - count + 1))).1
    have hsplit : (10 : ℚ) ^ top = 10 ^ (17 : ℤ) * 10 ^ (top - count + 1) := by
      rw [← zpow_add₀ (by norm_num)]
      congr 1
      omega
    rw [hsplit] at htop
    norm_num at htop
    have hpos : (0 : ℚ) < gridPoint num den (top - count + 1) * 10 ^ (top - count + 1) := by linarith
    have hpoint := (pos_iff_pos_of_mul_pos hpos).2 hk
    exact_mod_cast hpoint
  | succ more ih =>
    rw [search]
    split
    · rename_i n hn
      refine Decimal.digits_dropZeros_pos 400 (Nat.pos_of_ne_zero ?_)
      intro heq
      subst heq
      have hzero := List.find?_some hn
      simp [ofDecimal, zero] at hzero
      omega
    · exact ih (count + 1) (by omega)

theorem ratio_num_pos (hmantissa : 0 < mantissa) : 0 < (ratio mantissa exponent).1 := by
  unfold ratio
  split
  · positivity
  · exact hmantissa

theorem digits_shortest_pos (hmantissa : 0 < mantissa) : 0 < (shortest mantissa exponent).digits :=
  digits_search_pos hmantissa (ratio_pos mantissa exponent)
    (ten_pow_decimalExponent_le (ratio_num_pos hmantissa) (ratio_pos mantissa exponent)) 17 1 rfl

/-- The shortest decimal of a floating point number reads back as this number. -/
theorem nearest_shortest (hmantissa : 0 < mantissa)
    (hcanonical : (Binary64.finite false mantissa exponent).IsCanonical) :
    nearest false (shortest mantissa exponent).value = .finite false mantissa exponent := by
  have hden := ratio_pos mantissa exponent
  exact ofDecimal_search hmantissa hcanonical hden (ratio_eq mantissa exponent)
    (ten_pow_decimalExponent_le (ratio_num_pos hmantissa) hden) 17 1 (by norm_num) rfl

end Search

end TagTypes.Binary64
