import Mathlib.Tactic
import TagTypes.Proofs.Number.Shortest
import TagTypes.Proofs.Text.Span

/-!
# Written numbers

A numeral is a whole part, the digits behind the point and an exponent. Every finite number is printed as a numeral of the value of its shortest decimal, and a numeral is read as the number nearest to its value; so a printed number is read back as itself.
-/

namespace TagTypes.Binary64

open Text (decimalValue natDigits StopsAt)

/-- The parts of a written number: digits in front of the point and behind it, and an exponent with its sign. -/
structure Numeral where
  whole : List Char
  fraction : List Char
  exponent : Option (Bool × List Char)

namespace Numeral

def fractionText (n : Numeral) : List Char := if n.fraction = [] then [] else '.' :: n.fraction

def exponentText (n : Numeral) : List Char :=
  match n.exponent with
  | some (negative, ds) => 'e' :: (if negative then '-' else '+') :: ds
  | none => []

def text (n : Numeral) : List Char := n.whole ++ (n.fractionText ++ n.exponentText)

def exponentValue (n : Numeral) : ℤ := n.exponent.elim 0 fun e => Text.signed e.1 (decimalValue e.2)

def value (n : Numeral) : ℚ :=
  decimalValue (n.whole ++ n.fraction) * 10 ^ (n.exponentValue - (n.fraction.length : ℤ))

/-- The whole part is a zero alone or does not begin with a zero, and there are digits wherever digits must be. -/
structure WellFormed (n : Numeral) : Prop where
  whole_ne_nil : n.whole ≠ []
  whole_lead : n.whole = ['0'] ∨ n.whole.head? ≠ some '0'
  whole_digits : ∀ c ∈ n.whole, c.isDigit = true
  fraction_digits : ∀ c ∈ n.fraction, c.isDigit = true
  exponent_ne_nil : ∀ e ∈ n.exponent, e.2 ≠ []
  exponent_digits : ∀ e ∈ n.exponent, ∀ c ∈ e.2, c.isDigit = true

end Numeral

/-! ### Printing -/

section Printing

variable {x : Decimal}

theorem head_natDigits_ne {n : ℕ} (hn : 0 < n) : (natDigits n).head? ≠ some '0' := by
  intro h
  obtain ⟨ds, hds⟩ := List.head?_eq_some_iff.1 h
  exact Text.head_natDigits_ne_zero hn hds

theorem decimalValue_append_zeros (ds : List Char) (n : ℕ) :
    decimalValue (ds ++ List.replicate n '0') = decimalValue ds * 10 ^ n := by
  rw [Text.decimalValue_append, Text.decimalValue_replicate_zero, List.length_replicate, add_zero]

theorem decimalValue_zeros_append (n : ℕ) (ds : List Char) :
    decimalValue (List.replicate n '0' ++ ds) = decimalValue ds := by
  rw [Text.decimalValue_append, Text.decimalValue_replicate_zero, zero_mul, zero_add]

theorem isDigit_of_mem_replicate_append {n : ℕ} {ds : List Char} (hds : ∀ c ∈ ds, c.isDigit = true) :
    ∀ c ∈ List.replicate n '0' ++ ds, c.isDigit = true := by
  intro c hc
  rcases List.mem_append.1 hc with hc | hc
  · rw [List.eq_of_mem_replicate hc]
    rfl
  · exact hds c hc

theorem isDigit_of_mem_append_replicate {n : ℕ} {ds : List Char} (hds : ∀ c ∈ ds, c.isDigit = true) :
    ∀ c ∈ ds ++ List.replicate n '0', c.isDigit = true := fun c hc =>
  isDigit_of_mem_replicate_append hds c (List.mem_append.2 (List.mem_append.1 hc).symm)

/-- Below one: `k` zeros between the point and the digits. -/
theorem exists_numeral_below {k : ℕ} (hk : -(x.exponent + (natDigits x.digits).length) = k) :
    ∃ n : Numeral, n.WellFormed ∧ n.fraction ≠ [] ∧ n.value = x.value ∧
      '0' :: '.' :: (List.replicate k '0' ++ natDigits x.digits) = n.text := by
  have hdigits : ∀ c ∈ natDigits x.digits, c.isDigit = true := fun c => Text.isDigit_of_mem_natDigits
  have hne := Text.natDigits_ne_nil x.digits
  refine ⟨⟨['0'], List.replicate k '0' ++ natDigits x.digits, none⟩,
    ⟨by simp, Or.inl rfl, by simp, isDigit_of_mem_replicate_append hdigits, by simp, by simp⟩, by simp [hne], ?_, ?_⟩
  · rw [Numeral.value, ← List.replicate_one, ← List.append_assoc, ← List.replicate_add, decimalValue_zeros_append,
      Text.decimalValue_natDigits, List.length_append, List.length_replicate, Decimal.value]
    congr 2
    simp only [Numeral.exponentValue, Option.elim_none]
    omega
  · simp [Numeral.text, Numeral.fractionText, Numeral.exponentText, hne]

/-- A whole number: zeros behind the digits and a zero behind the point. -/
theorem exists_numeral_whole (hx : 0 < x.digits) {k : ℕ} (hk : x.exponent + (natDigits x.digits).length = k)
    (hle : (natDigits x.digits).length ≤ k) :
    ∃ n : Numeral, n.WellFormed ∧ n.fraction ≠ [] ∧ n.value = x.value ∧
      natDigits x.digits ++ List.replicate (k - (natDigits x.digits).length) '0' ++ ['.', '0'] = n.text := by
  have hdigits : ∀ c ∈ natDigits x.digits, c.isDigit = true := fun c => Text.isDigit_of_mem_natDigits
  have hne := Text.natDigits_ne_nil x.digits
  refine ⟨⟨natDigits x.digits ++ List.replicate (k - (natDigits x.digits).length) '0', ['0'], none⟩,
    ⟨by simp [hne], Or.inr ?_, isDigit_of_mem_append_replicate hdigits, by simp, by simp, by simp⟩, by simp, ?_, ?_⟩
  · rw [List.head?_append_of_ne_nil _ hne]
    exact head_natDigits_ne hx
  · rw [Numeral.value, ← List.replicate_one, List.append_assoc, ← List.replicate_add, decimalValue_append_zeros,
      Text.decimalValue_natDigits, Decimal.value]
    simp only [Numeral.exponentValue, Option.elim_none, List.length_replicate]
    push_cast
    rw [mul_assoc, ← zpow_natCast, ← zpow_add₀ (by norm_num)]
    congr 2
    push_cast
    omega
  · simp [Numeral.text, Numeral.fractionText, Numeral.exponentText]

/-- The point stands inside the digits, after `k` of them. -/
theorem exists_numeral_inside (hx : 0 < x.digits) {k : ℕ} (hk : x.exponent + (natDigits x.digits).length = k)
    (hpos : k ≠ 0) (hlt : k < (natDigits x.digits).length) :
    ∃ n : Numeral, n.WellFormed ∧ n.fraction ≠ [] ∧ n.value = x.value ∧
      (natDigits x.digits).take k ++ '.' :: (natDigits x.digits).drop k = n.text := by
  have hdigits : ∀ c ∈ natDigits x.digits, c.isDigit = true := fun c => Text.isDigit_of_mem_natDigits
  have hfraction : (natDigits x.digits).drop k ≠ [] := by
    rw [ne_eq, List.drop_eq_nil_iff]
    omega
  refine ⟨⟨(natDigits x.digits).take k, (natDigits x.digits).drop k, none⟩,
    ⟨by simp [Text.natDigits_ne_nil, hpos], Or.inr ?_, fun c hc => hdigits c (List.mem_of_mem_take hc),
      fun c hc => hdigits c (List.mem_of_mem_drop hc), by simp, by simp⟩, hfraction, ?_, ?_⟩
  · rw [List.head?_take, if_neg hpos]
    exact head_natDigits_ne hx
  · rw [Numeral.value, List.take_append_drop, Text.decimalValue_natDigits, Decimal.value]
    congr 2
    simp only [Numeral.exponentValue, Option.elim_none, List.length_drop]
    omega
  · rw [Numeral.text, Numeral.fractionText, Numeral.exponentText, List.append_nil, if_neg hfraction]

theorem exists_numeral_positional (hx : 0 < x.digits) :
    ∃ n : Numeral, n.WellFormed ∧ n.fraction ≠ [] ∧ n.value = x.value ∧
      positional (natDigits x.digits) (x.exponent + (natDigits x.digits).length) = n.text := by
  unfold positional
  split
  · rename_i hpoint
    obtain ⟨k, hk⟩ := Int.eq_ofNat_of_zero_le (show 0 ≤ -(x.exponent + (natDigits x.digits).length) by omega)
    rw [hk, Int.toNat_natCast]
    exact exists_numeral_below hk
  · rename_i hpoint
    obtain ⟨k, hk⟩ := Int.eq_ofNat_of_zero_le (not_le.1 hpoint).le
    rw [hk, Int.toNat_natCast]
    simp only
    split
    · rename_i hle
      exact exists_numeral_whole hx hk hle
    · rename_i hlt
      exact exists_numeral_inside hx hk (by omega) (not_le.1 hlt)

theorem decimalValue_pad (n : ℕ) :
    decimalValue (if (natDigits n).length < 2 then '0' :: natDigits n else natDigits n) = n := by
  split
  · rw [← List.singleton_append, ← List.replicate_one, decimalValue_zeros_append, Text.decimalValue_natDigits]
  · exact Text.decimalValue_natDigits n

theorem isDigit_of_mem_pad {n : ℕ} {c : Char}
    (hc : c ∈ if (natDigits n).length < 2 then '0' :: natDigits n else natDigits n) : c.isDigit = true := by
  split at hc
  · rcases List.mem_cons.1 hc with rfl | hc
    · rfl
    · exact Text.isDigit_of_mem_natDigits hc
  · exact Text.isDigit_of_mem_natDigits hc

theorem signed_natAbs (e : ℤ) : Text.signed (decide (e < 0)) e.natAbs = e := by
  unfold Text.signed
  by_cases he : e < 0
  · rw [if_pos (by simpa using he)]
    omega
  · rw [if_neg (by simpa using he)]
    omega

theorem exists_numeral_scientific (hx : 0 < x.digits) :
    ∃ n : Numeral, n.WellFormed ∧ n.exponent ≠ none ∧ n.value = x.value ∧
      scientific (natDigits x.digits) (x.exponent + (natDigits x.digits).length - 1) = n.text := by
  set e : ℤ := x.exponent + (natDigits x.digits).length - 1 with he
  set pad := if (natDigits e.natAbs).length < 2 then '0' :: natDigits e.natAbs else natDigits e.natAbs with hpad
  have hpadNe : pad ≠ [] := by
    rw [hpad]
    split
    · simp
    · exact Text.natDigits_ne_nil _
  cases hds : natDigits x.digits with
  | nil => exact absurd hds (Text.natDigits_ne_nil _)
  | cons d ds =>
    have hdigits : ∀ c ∈ d :: ds, c.isDigit = true := by
      rw [← hds]
      exact fun c => Text.isDigit_of_mem_natDigits
    have hd : d ≠ '0' := by
      intro heq
      subst heq
      exact Text.head_natDigits_ne_zero hx hds
    refine ⟨⟨[d], ds, some (decide (e < 0), pad)⟩,
      ⟨by simp, Or.inr (by simpa using hd), by simpa using hdigits d, fun c hc => hdigits c (by simp [hc]),
        by simpa using hpadNe, ?_⟩, by simp, ?_, ?_⟩
    · simp only [Option.mem_def, Option.some.injEq, forall_eq']
      intro c hc
      exact isDigit_of_mem_pad hc
    · rw [Numeral.value, List.singleton_append, ← hds, Text.decimalValue_natDigits, Decimal.value]
      simp only [Numeral.exponentValue, Option.elim_some, hpad, decimalValue_pad, signed_natAbs]
      congr 2
      rw [he, hds, List.length_cons]
      push_cast
      ring
    · have htext : exponentText e = (if decide (e < 0) = true then '-' else '+') :: pad := by
        simp [exponentText, hpad]
      cases ds with
      | nil => simp [scientific, Numeral.text, Numeral.fractionText, Numeral.exponentText, htext]
      | cons d' ds => simp [scientific, Numeral.text, Numeral.fractionText, Numeral.exponentText, htext]

/-- A decimal is printed as a numeral of its value, with a point or an exponent. -/
theorem Decimal.exists_numeral (style : PrintStyle) (hx : 0 < x.digits) :
    ∃ n : Numeral, n.WellFormed ∧ (n.fraction ≠ [] ∨ n.exponent ≠ none) ∧ n.value = x.value ∧ x.text style = n.text := by
  unfold Decimal.text
  simp only
  split
  · obtain ⟨n, hwell, hfraction, hvalue, htext⟩ := exists_numeral_positional hx
    rw [sub_add_cancel]
    exact ⟨n, hwell, Or.inl hfraction, hvalue, htext⟩
  · obtain ⟨n, hwell, hexponent, hvalue, htext⟩ := exists_numeral_scientific hx
    exact ⟨n, hwell, Or.inr hexponent, hvalue, htext⟩

end Printing

/-! ### Reading -/

section Reading

variable {n : Numeral}

theorem Numeral.exists_whole_cons (hn : n.WellFormed) : ∃ c cs, n.whole = c :: cs ∧ c.isDigit = true := by
  obtain ⟨c, cs, hwhole⟩ := List.exists_cons_of_ne_nil hn.whole_ne_nil
  exact ⟨c, cs, hwhole, hn.whole_digits c (by simp [hwhole])⟩

theorem isDigit_ne {c d : Char} (hc : c.isDigit = true) (hd : d.isDigit = false) : c ≠ d := by
  intro heq
  subst heq
  rw [hc] at hd
  exact Bool.noConfusion hd

/-- A numeral begins with a digit, with its sign before it if there is one. -/
theorem exists_lead_signed (negative : Bool) (hn : n.WellFormed) :
    ∃ c cs, sign negative ++ n.text = c :: cs ∧ (c = '-' ∨ c.isDigit = true) := by
  obtain ⟨c, cs, hwhole, hc⟩ := Numeral.exists_whole_cons hn
  cases negative with
  | true => exact ⟨'-', n.text, rfl, Or.inl rfl⟩
  | false =>
    refine ⟨c, cs ++ (n.fractionText ++ n.exponentText), ?_, Or.inr hc⟩
    rw [sign, if_neg (by simp), List.nil_append, Numeral.text, hwhole, List.cons_append]

theorem splitSign_of_isDigit {c : Char} (hc : c.isDigit = true) (cs : List Char) :
    Text.splitSign (c :: cs) = (false, c :: cs) := by
  have hminus : c ≠ '-' := isDigit_ne hc (by decide)
  have hplus : c ≠ '+' := isDigit_ne hc (by decide)
  unfold Text.splitSign
  split
  · rename_i heq
    exact absurd (List.cons.inj heq).1 hminus
  · rename_i heq
    exact absurd (List.cons.inj heq).1 hplus
  · rfl

theorem splitSign_sign_append (negative : Bool) (hn : n.WellFormed) :
    Text.splitSign (sign negative ++ n.text) = (negative, n.text) := by
  obtain ⟨c, cs, hwhole, hc⟩ := Numeral.exists_whole_cons hn
  cases negative with
  | true => rfl
  | false =>
    rw [sign, if_neg (by simp), List.nil_append, Numeral.text, hwhole, List.cons_append]
    exact splitSign_of_isDigit hc _

theorem notMark_of_isDigit {c : Char} (hc : c.isDigit = true) : (!(c = 'e' || c = 'E' : Bool)) = true := by
  simp [isDigit_ne hc (show ('e' : Char).isDigit = false by decide),
    isDigit_ne hc (show ('E' : Char).isDigit = false by decide)]

namespace Numeral

/-- No mark of an exponent stands in front of the exponent. -/
theorem notMark_of_mem_significand (hn : n.WellFormed) {c : Char} (hc : c ∈ n.whole ++ n.fractionText) :
    (!(c = 'e' || c = 'E' : Bool)) = true := by
  rcases List.mem_append.1 hc with hc | hc
  · exact notMark_of_isDigit (hn.whole_digits c hc)
  · unfold fractionText at hc
    split at hc
    · simp at hc
    · rcases List.mem_cons.1 hc with rfl | hc
      · rfl
      · exact notMark_of_isDigit (hn.fraction_digits c hc)

theorem stopsAt_exponentText (n : Numeral) : StopsAt (fun c => !(c = 'e' || c = 'E' : Bool)) n.exponentText := by
  unfold exponentText
  split
  · simp
  · exact Text.stopsAt_nil _

theorem stopsAt_fractionText (n : Numeral) : StopsAt (fun c => decide (c ≠ '.')) n.fractionText := by
  unfold fractionText
  split
  · exact Text.stopsAt_nil _
  · simp

theorem tail_fractionText (n : Numeral) : n.fractionText.tail = n.fraction := by
  unfold fractionText
  split
  · simp_all
  · rfl

theorem splitSign_tail_exponentText (n : Numeral) :
    Text.splitSign n.exponentText.tail = (n.exponent.elim false Prod.fst, n.exponent.elim [] Prod.snd) := by
  unfold exponentText
  cases n.exponent with
  | none => rfl
  | some e =>
    obtain ⟨negative, ds⟩ := e
    cases negative <;> rfl

theorem signed_exponent (n : Numeral) :
    Text.signed (n.exponent.elim false Prod.fst) (decimalValue (n.exponent.elim [] Prod.snd)) = n.exponentValue := by
  cases hexp : n.exponent with
  | none => simp [exponentValue, hexp, decimalValue, Text.ofDigits, Text.signed]
  | some e => simp [exponentValue, hexp]

end Numeral

/-- A numeral is read as the number nearest to its value. -/
theorem readDecimal_text (negative : Bool) (hn : n.WellFormed) :
    readDecimal (sign negative ++ n.text) = nearest negative n.value := by
  have hsignificand : ∀ c ∈ n.whole ++ n.fractionText, (!(c = 'e' || c = 'E' : Bool)) = true := fun c hc =>
    Numeral.notMark_of_mem_significand hn hc
  have hwhole : ∀ c ∈ n.whole, decide (c ≠ '.') = true := fun c hc =>
    decide_eq_true (isDigit_ne (hn.whole_digits c hc) (by decide))
  unfold readDecimal
  simp only [splitSign_sign_append negative hn]
  rw [Numeral.text, ← List.append_assoc]
  rw [Text.takeWhile_append_of_stopsAt hsignificand n.stopsAt_exponentText,
    Text.dropWhile_append_of_stopsAt hsignificand n.stopsAt_exponentText,
    Text.takeWhile_append_of_stopsAt hwhole n.stopsAt_fractionText,
    Text.dropWhile_append_of_stopsAt hwhole n.stopsAt_fractionText, n.tail_fractionText,
    n.splitSign_tail_exponentText, ofDecimal_eq_nearest]
  change nearest negative (decimalValue (n.whole ++ n.fraction) *
    10 ^ (Text.signed (n.exponent.elim false Prod.fst) (decimalValue (n.exponent.elim [] Prod.snd)) - _)) = _
  rw [n.signed_exponent, Numeral.value]

end Reading

/-! ### Printed numbers -/

theorem isCanonical_neg {negative : Bool} {mantissa : ℕ} {exponent : ℤ} :
    (Binary64.finite negative mantissa exponent).IsCanonical ↔ (Binary64.finite false mantissa exponent).IsCanonical :=
  Iff.rfl

/-- The sign takes no part in rounding. -/
theorem nearest_eq_finite_iff (negative : Bool) {x : ℚ} {mantissa : ℕ} {exponent : ℤ} :
    nearest negative x = .finite negative mantissa exponent ↔ nearest false x = .finite false mantissa exponent := by
  unfold nearest ofMantissa zero
  simp only
  split_ifs <;> simp

/-- Every finite number is printed as a numeral with a point or an exponent. If the number is in its one form, then the numeral is read as that number. -/
theorem exists_numeral_print (style : PrintStyle) (negative : Bool) (mantissa : ℕ) (exponent : ℤ) :
    ∃ n : Numeral, n.WellFormed ∧ (n.fraction ≠ [] ∨ n.exponent ≠ none) ∧
      print style (.finite negative mantissa exponent) = sign negative ++ n.text ∧
      ((Binary64.finite negative mantissa exponent).IsCanonical →
        nearest negative n.value = .finite negative mantissa exponent) := by
  by_cases hzero : mantissa = 0
  · refine ⟨⟨['0'], ['0'], none⟩, ⟨by simp, Or.inl rfl, by simp, by simp, by simp, by simp⟩, Or.inl (by simp), ?_, ?_⟩
    · simp [print, hzero, Numeral.text, Numeral.fractionText, Numeral.exponentText]
    · intro hfound
      obtain ⟨-, -, -, hform⟩ := hfound
      have hvalue : Numeral.value ⟨['0'], ['0'], none⟩ = 0 := by
        simp [Numeral.value, decimalValue, Text.ofDigits]
      have hexponent : exponent = minExponent := by
        rcases hform with hform | hform
        · omega
        · exact hform
      rw [hvalue, hzero, hexponent, nearest, if_pos rfl, zero]
  · have hpos := Nat.pos_of_ne_zero hzero
    obtain ⟨n, hwell, hreal, hvalue, htext⟩ :=
      (shortest mantissa exponent).exists_numeral style (digits_shortest_pos hpos)
    refine ⟨n, hwell, hreal, ?_, fun hcanonical => ?_⟩
    · rw [print, if_neg hzero, htext]
    · rw [hvalue, nearest_eq_finite_iff]
      exact nearest_shortest hpos (isCanonical_neg.1 hcanonical)

/-- A printed number reads back as itself. -/
theorem readDecimal_print (style : PrintStyle) {negative : Bool} {mantissa : ℕ} {exponent : ℤ}
    (hcanonical : (Binary64.finite negative mantissa exponent).IsCanonical) :
    readDecimal (print style (.finite negative mantissa exponent)) = .finite negative mantissa exponent := by
  obtain ⟨n, hwell, -, htext, hvalue⟩ := exists_numeral_print style negative mantissa exponent
  rw [htext, readDecimal_text negative hwell, hvalue hcanonical]

end TagTypes.Binary64
