import Mathlib.Tactic
import TagTypes.Text.Digit

/-!
# Decimal digits back to numbers

The digits of a number give the number back, there are as many of them as its size asks for, and the first of them is no zero.
-/

namespace TagTypes.Text

/-- The number that a list of decimal digits stands for. -/
def decimalValue (ds : List Char) : ℕ := ofDigits 10 (ds.map fun d => d.toNat - 48)

theorem ofDigits_append_singleton (base : ℕ) (ds : List ℕ) (d : ℕ) :
    ofDigits base (ds ++ [d]) = ofDigits base ds * base + d := by
  rw [ofDigits, List.foldl_append]
  rfl

theorem decimalValue_append (xs ys : List Char) :
    decimalValue (xs ++ ys) = decimalValue xs * 10 ^ ys.length + decimalValue ys := by
  induction ys using List.reverseRecOn with
  | nil => simp [decimalValue, ofDigits]
  | append_singleton ys y ih =>
    have hsnoc : ∀ zs : List Char, decimalValue (zs ++ [y]) = decimalValue zs * 10 + (y.toNat - 48) := by
      intro zs
      simp only [decimalValue, List.map_append, List.map_cons, List.map_nil, ofDigits_append_singleton]
    rw [← List.append_assoc, hsnoc, hsnoc, ih, List.length_append, List.length_singleton, pow_succ]
    ring

theorem decimalValue_replicate_zero (n : ℕ) : decimalValue (List.replicate n '0') = 0 := by
  induction n with
  | zero => rfl
  | succ n ih =>
    rw [List.replicate_succ', decimalValue_append, ih]
    rfl

theorem digit_value_lt {c : Char} (hc : c.isDigit = true) : c.toNat - 48 < 10 := by
  simp only [Char.isDigit, Bool.and_eq_true, decide_eq_true_eq] at hc
  have : c.toNat ≤ 57 := UInt32.le_iff_toNat_le.1 hc.2
  omega

theorem decimalValue_lt {ds : List Char} (hds : ∀ c ∈ ds, c.isDigit = true) :
    decimalValue ds < 10 ^ ds.length := by
  induction ds using List.reverseRecOn with
  | nil => simp [decimalValue, ofDigits]
  | append_singleton ds d ih =>
    have hrest := ih fun c hc => hds c (List.mem_append_left _ hc)
    have hd := digit_value_lt (hds d (by simp))
    have hlast : decimalValue [d] = d.toNat - 48 := by simp [decimalValue, ofDigits]
    rw [decimalValue_append, hlast, List.length_append, List.length_singleton, pow_one, pow_succ]
    omega

/-! ### The digits of a number -/

theorem natDigits_ne_nil (n : ℕ) : natDigits n ≠ [] := Nat.toDigits_ne_nil

theorem isDigit_of_mem_natDigits {n : ℕ} {c : Char} (hc : c ∈ natDigits n) : c.isDigit = true :=
  Nat.isDigit_of_mem_toDigits (by omega) (by omega) hc

theorem decimalValue_natDigits (n : ℕ) : decimalValue (natDigits n) = n := by
  have hfold : ∀ (ds : List Char) (start : ℕ),
      (ds.map fun d => d.toNat - 48).foldl (fun n d => n * 10 + d) start = Nat.ofDigitChars 10 ds start := by
    intro ds
    induction ds with
    | nil => intro start; rfl
    | cons d ds ih =>
      intro start
      rw [List.map_cons, List.foldl_cons, ih, Nat.ofDigitChars_cons, Nat.mul_comm 10 start]
      rfl
  rw [decimalValue, ofDigits, hfold]
  exact Nat.ofDigitChars_ten_toDigits

theorem lt_pow_length_natDigits (n : ℕ) : n < 10 ^ (natDigits n).length :=
  (Nat.length_toDigits_le_iff (by omega) Nat.length_toDigits_pos).1 le_rfl

theorem length_natDigits_le_iff {n k : ℕ} (hk : 0 < k) : (natDigits n).length ≤ k ↔ n < 10 ^ k :=
  Nat.length_toDigits_le_iff (by omega) hk

theorem pow_pred_length_natDigits_le {n : ℕ} (hn : 0 < n) : 10 ^ ((natDigits n).length - 1) ≤ n := by
  by_contra hlt
  by_cases hone : (natDigits n).length = 1
  · rw [hone] at hlt
    simp at hlt
    omega
  · have hlen : 0 < (natDigits n).length := Nat.length_toDigits_pos
    have := (length_natDigits_le_iff (n := n) (by omega)).2 (not_le.1 hlt)
    omega

theorem head_natDigits_ne_zero {n : ℕ} (hn : 0 < n) {ds : List Char} : natDigits n ≠ '0' :: ds := by
  intro h
  have hvalue : decimalValue ds = n := by
    have hcons : decimalValue (['0'] ++ ds) = decimalValue ds := by
      rw [decimalValue_append]
      simp [decimalValue, ofDigits]
    rw [← hcons, List.singleton_append, ← h, decimalValue_natDigits]
  have hlt : decimalValue ds < 10 ^ ds.length :=
    decimalValue_lt fun c hc => isDigit_of_mem_natDigits (n := n) (h ▸ List.mem_cons_of_mem _ hc)
  have hle := pow_pred_length_natDigits_le hn
  rw [h, List.length_cons, Nat.add_sub_cancel] at hle
  omega

end TagTypes.Text
