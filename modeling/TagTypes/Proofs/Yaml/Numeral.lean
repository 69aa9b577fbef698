import Mathlib.Data.List.TakeWhile
import Mathlib.Tactic
import TagTypes.Proofs.Json.Token
import TagTypes.Proofs.Yaml.Plain
import TagTypes.Yaml.Meaning

/-!
# Whole numbers and truth values

A whole number is written by its digits in base 10, with a minus in front if it is negative, and a truth value by a word. Their form gives them their tags, and they are read back, the number only if it has no more digits than a numeral may have.
-/

namespace TagTypes.Yaml

open Binary64 (sign isDigit_ne)
open Text (natDigits isDigit_of_mem_natDigits natDigits_ne_nil)
open Writer (IsWord isPrintable)

variable {ds : List Char} {c : Char}

/-! ### Digits -/

/-- The digits of a whole number: the first of several is no zero. -/
theorem natDigits_cases (n : Nat) : natDigits n = ['0'] ∨ ∃ c cs, natDigits n = c :: cs ∧ c ≠ '0' := by
  by_cases hn : n = 0
  · rw [hn]
    exact .inl rfl
  · obtain ⟨c, cs, hcons⟩ := List.exists_cons_of_ne_nil (natDigits_ne_nil n)
    refine .inr ⟨c, cs, hcons, ?_⟩
    rintro rfl
    exact Text.head_natDigits_ne_zero (Nat.pos_of_ne_zero hn) hcons

theorem toNat_of_isDigit (hc : c.isDigit = true) : 48 ≤ c.toNat ∧ c.toNat ≤ 57 := by
  simp only [Char.isDigit, Bool.and_eq_true, decide_eq_true_eq] at hc
  exact ⟨UInt32.le_iff_toNat_le.1 hc.1, UInt32.le_iff_toNat_le.1 hc.2⟩

theorem isNumeralBlank_of_isDigit (hc : c.isDigit = true) : Text.isNumeralBlank c = false := by
  obtain ⟨hlow, hhigh⟩ := toNat_of_isDigit hc
  have hspace : c ≠ ' ' := isDigit_ne hc (by decide)
  simp only [Text.isNumeralBlank, Text.isAsciiBlank, hspace, decide_false, Bool.false_or, Bool.or_eq_false_iff,
    Bool.and_eq_false_iff, decide_eq_false_iff_not]
  omega

theorem digitValue?_of_isDigit (hc : c.isDigit = true) : Text.digitValue? c = some (c.toNat - 48) := by
  obtain ⟨hlow, hhigh⟩ := toNat_of_isDigit hc
  have hfound : Text.digitZeros.find? (fun first => first ≤ c.toNat && c.toNat < first + 10) = some 48 := by
    refine List.find?_cons_of_pos ?_
    simp only [Bool.and_eq_true, decide_eq_true_eq]
    omega
  rw [Text.digitValue?, hfound]
  rfl

theorem numeralDigits?_digits (hne : ds ≠ []) (hds : ∀ c ∈ ds, c.isDigit = true) :
    Text.numeralDigits? Text.digitValue? ds = some (ds.map fun c => c.toNat - 48) := by
  induction ds with
  | nil => exact absurd rfl hne
  | cons c ds ih =>
    rw [List.forall_mem_cons] at hds
    cases ds with
    | nil => simp [Text.numeralDigits?, digitValue?_of_isDigit hds.1]
    | cons d ds =>
      have hd : d ≠ '_' := isDigit_ne (hds.2 d List.mem_cons_self) (by decide)
      have hrest := ih (List.cons_ne_nil _ _) hds.2
      rw [Text.numeralDigits?, digitValue?_of_isDigit hds.1, hrest]
      · rfl
      · exact fun heq => absurd heq (List.cons_ne_nil _ _)
      · exact fun rest heq => hd (List.cons.inj heq).1

theorem trimmed_digits (hds : ∀ c ∈ ds, c.isDigit = true) : Text.trimmed Text.isNumeralBlank ds = ds := by
  have hdrop : ∀ {cs : List Char}, (∀ c ∈ cs, c.isDigit = true) → cs.dropWhile Text.isNumeralBlank = cs := by
    intro cs hcs
    cases cs with
    | nil => rfl
    | cons c cs => rw [List.dropWhile_cons_of_neg (by simp [isNumeralBlank_of_isDigit (hcs c List.mem_cons_self)])]
  rw [Text.trimmed, hdrop hds, hdrop (by simpa using hds), List.reverse_reverse]

theorem splitSign_digits (hds : ∀ c ∈ ds, c.isDigit = true) (negative : Bool) :
    Text.splitSign (sign negative ++ ds) = (negative, ds) := by
  cases negative with
  | true => rfl
  | false =>
    cases ds with
    | nil => rfl
    | cons c ds => exact Binary64.splitSign_of_isDigit (hds c List.mem_cons_self) ds

/-! ### Whole numbers -/

theorem isDigit_natDigits (n : Nat) : ∀ c ∈ natDigits n, c.isDigit = true := fun _ hc => isDigit_of_mem_natDigits hc

theorem unsigned_intText (n : Int) : Numeral.unsigned (Text.intText n).toList = .ok (decide (n < 0), natDigits n.natAbs) := by
  have hsign := splitSign_digits (isDigit_natDigits n.natAbs) (decide (n < 0))
  rw [Json.intText_toList]
  have hbar : (sign (decide (n < 0)) ++ natDigits n.natAbs).filter (· ≠ '_') = sign (decide (n < 0)) ++ natDigits n.natAbs := by
    refine List.filter_eq_self.2 fun c hc => ?_
    rcases List.mem_append.1 hc with hc | hc
    · unfold sign at hc
      split at hc
      · cases List.mem_singleton.1 hc
        decide
      · cases hc
    · simpa using isDigit_ne (isDigit_of_mem_natDigits hc) (by decide)
  unfold Numeral.unsigned
  rw [hbar]
  split
  · rename_i hnil
    exact absurd (List.append_eq_nil_iff.1 hnil).2 (natDigits_ne_nil _)
  · rw [hsign]

theorem decimal_natDigits {n : Nat} (hn : (natDigits n).length ≤ Text.maxDigits) : Numeral.decimal (natDigits n) = .ok n := by
  have hdigits := isDigit_natDigits n
  have hread : Text.readInt (String.ofList (natDigits n)) = .ok n := by
    have hsign : Text.splitSign (natDigits n) = (false, natDigits n) := splitSign_digits hdigits false
    have hvalue : Text.ofDigits 10 ((natDigits n).map fun c => c.toNat - 48) = n := Text.decimalValue_natDigits n
    rw [Text.readInt, String.toList_ofList, trimmed_digits hdigits, hsign]
    simp only [numeralDigits?_digits (natDigits_ne_nil n) hdigits, List.length_map, if_pos hn, hvalue]
    rfl
  rw [Numeral.decimal, hread]
  rfl

/-- A whole number is read from its digits, if a numeral may have that many. -/
theorem whole_intText {n : Int} (hn : (natDigits n.natAbs).length ≤ Text.maxDigits) : Numeral.whole (Text.intText n) = .ok n := by
  have hsigned : (if decide (n < 0) = true then -(n.natAbs : Int) else n.natAbs) = n := Binary64.signed_natAbs n
  unfold Numeral.whole
  rw [unsigned_intText]
  rcases natDigits_cases n.natAbs with hzero | ⟨c, cs, hcons, hc⟩
  · have hnone : n.natAbs = 0 := by
      have hvalue := Text.decimalValue_natDigits n.natAbs
      rw [hzero] at hvalue
      exact hvalue.symm
    obtain rfl : n = 0 := Int.natAbs_eq_zero.1 hnone
    rfl
  · have hcolon : (c :: cs).contains ':' = false := by
      rw [← hcons, ← Bool.not_eq_true, List.contains_iff_mem]
      exact fun hmem => absurd (isDigit_of_mem_natDigits hmem) (by decide)
    have hdecimal := decimal_natDigits hn
    rw [hcons] at hdecimal ⊢
    simp only [Bind.bind, Except.bind]
    split
    case h_6 =>
      simp only [hcolon, Bool.false_eq_true, if_false, hdecimal, hsigned]
      rfl
    case h_5 heq => exact absurd heq (List.cons_ne_nil _ _)
    all_goals
      rename_i heq
      exact absurd (List.cons.inj heq).1 hc

theorem dropLineEnd_of_notMem {cs : List Char} (hcs : '\n' ∉ cs) : dropLineEnd cs = cs := by
  rw [dropLineEnd, if_neg]
  exact fun hlast => hcs (List.mem_of_getLast? hlast)

/-- The text of a whole number is the digits of one, perhaps with a minus in front. -/
theorem intText_cases (n : Int) :
    (Text.intText n).toList = natDigits n.natAbs ∨ (Text.intText n).toList = '-' :: natDigits n.natAbs := by
  rw [Json.intText_toList, sign]
  split
  · exact .inr rfl
  · exact .inl rfl

theorem dropSign_digits {cs : List Char} {n : Nat} (hcs : cs = natDigits n ∨ cs = '-' :: natDigits n) :
    Tag.dropSign cs = natDigits n := by
  rcases hcs with rfl | rfl
  · obtain ⟨c, cs, hcons⟩ := List.exists_cons_of_ne_nil (natDigits_ne_nil n)
    have hc : c.isDigit = true := isDigit_natDigits n c (by simp [hcons])
    rw [hcons]
    unfold Tag.dropSign
    split
    · rename_i heq
      exact absurd (List.cons.inj heq).1 (isDigit_ne hc (by decide))
    · rename_i heq
      exact absurd (List.cons.inj heq).1 (isDigit_ne hc (by decide))
    · rfl
  · rfl

theorem afterNumeral?_digits (n : Nat) : Tag.afterNumeral? (natDigits n) = some [] := by
  obtain ⟨c, cs, hcons⟩ := List.exists_cons_of_ne_nil (natDigits_ne_nil n)
  have hdigits := isDigit_natDigits n
  rw [hcons, List.forall_mem_cons] at hdigits
  have hrest : cs.dropWhile Tag.isDigitOrBar = [] := by
    refine List.dropWhile_eq_nil_iff.2 fun d hd => ?_
    rw [Tag.isDigitOrBar, hdigits.2 d hd, Bool.true_or]
  rw [hcons, Tag.afterNumeral?, if_pos hdigits.1, hrest]

theorem isInt_digits {cs : List Char} {n : Nat} (hcs : cs = natDigits n ∨ cs = '-' :: natDigits n) : Tag.isInt cs = true := by
  have hafter := afterNumeral?_digits n
  unfold Tag.isInt
  rw [dropSign_digits hcs]
  rcases natDigits_cases n with hzero | ⟨c, cs, hcons, hc⟩
  · rw [hzero]
    rfl
  · rw [hcons] at hafter ⊢
    split
    case h_5 => rw [hafter]
    all_goals
      rename_i heq
      exact absurd (List.cons.inj heq).1 hc

theorem isReal_digits {cs : List Char} {n : Nat} (hcs : cs = natDigits n ∨ cs = '-' :: natDigits n) : Tag.isReal cs = false := by
  have hafter := afterNumeral?_digits n
  obtain ⟨c, ds, hcons⟩ := List.exists_cons_of_ne_nil (natDigits_ne_nil n)
  have hc : c.isDigit = true := isDigit_natDigits n c (by simp [hcons])
  obtain ⟨x, more, hx, hpoint⟩ : ∃ x more, cs = x :: more ∧ x ≠ '.' := by
    rcases hcs with rfl | rfl
    · exact ⟨c, ds, hcons, isDigit_ne hc (by decide)⟩
    · exact ⟨'-', natDigits n, rfl, by decide⟩
  have hsign := dropSign_digits hcs
  subst hx
  have hwords : ([".inf", ".Inf", ".INF"].any (·.toList = natDigits n) || [".nan", ".NaN", ".NAN"].any (·.toList = x :: more)) =
      false := by
    have hnumeral : c ≠ '.' := isDigit_ne hc (by decide)
    simp [hcons, hnumeral.symm, hpoint.symm]
  unfold Tag.isReal
  simp only [hsign, hafter, hwords, Bool.false_or]
  split
  · rename_i heq
    exact absurd (List.cons.inj heq).1 hpoint
  · rename_i heq _
    cases heq
  · rename_i heq _
    cases heq
    rfl
  · rfl

theorem isDigit_of_mem_intText {n : Int} (hc : c ∈ (Text.intText n).toList) : c.isDigit = true ∨ c = '-' := by
  rcases intText_cases n with hcs | hcs
  · rw [hcs] at hc
    exact .inl (isDigit_of_mem_natDigits hc)
  · rw [hcs] at hc
    rcases List.mem_cons.1 hc with rfl | hc
    · exact .inr rfl
    · exact .inl (isDigit_of_mem_natDigits hc)

theorem ne_of_mem_intText {n : Int} (hc : c ∈ (Text.intText n).toList) {d : Char} (hd : (d.isDigit || d = '-') = false) : c ≠ d := by
  rintro rfl
  rcases isDigit_of_mem_intText hc with hdigit | rfl
  · rw [hdigit] at hd
    cases hd
  · cases hd

theorem intText_ne_nil (n : Int) : (Text.intText n).toList ≠ [] := by
  rcases intText_cases n with hcs | hcs
  · rw [hcs]
    exact natDigits_ne_nil _
  · rw [hcs]
    exact List.cons_ne_nil _ _

/-- The digits of a whole number are no other plain scalar. -/
theorem ofPlain_intText (n : Int) : Tag.ofPlain (Text.intText n) = .int := by
  have hcs := intText_cases n
  have hne : Text.intText n ≠ "" := fun hempty => intText_ne_nil n (by rw [hempty]; rfl)
  have hline : dropLineEnd (Text.intText n).toList = (Text.intText n).toList :=
    dropLineEnd_of_notMem fun hmem => ne_of_mem_intText hmem (by decide) rfl
  have hbool : Tag.boolWords.any (·.toList = (Text.intText n).toList) = false := by
    have hletters : (Tag.boolWords.all fun word => word.toList.any fun d => !(d.isDigit || d = '-')) = true := by decide
    refine List.any_eq_false.2 fun word hword heq => ?_
    obtain ⟨d, hd, hletter⟩ := List.any_eq_true.1 (List.all_eq_true.1 hletters word hword)
    rw [of_decide_eq_true heq] at hd
    exact ne_of_mem_intText hd (by simpa using hletter) rfl
  rw [Tag.ofPlain, if_neg hne]
  simp only [hline, hbool, isReal_digits hcs, isInt_digits hcs, Bool.false_eq_true, if_false, if_true]

/-! ### As plain scalars -/

theorem isPlainChar_of_isDigit (hc : c.isDigit = true) : isPlainChar c = true := by
  simp [isPlainChar, Char.isAlphanum, hc]

theorem inline_intText (n : Int) : ∀ c ∈ (Text.intText n).toList, isPrintable c = true ∧ c ≠ ' ' := by
  intro c hc
  refine ⟨?_, ne_of_mem_intText hc (by decide)⟩
  rcases isDigit_of_mem_intText hc with hdigit | rfl
  · exact Writer.isPrintable_of_isPlainChar (isPlainChar_of_isDigit hdigit)
  · decide

theorem isWord_intText (n : Int) : IsWord (Text.intText n).toList := isWord_of_inline (intText_ne_nil n) (inline_intText n)

theorem isPlainWord_intText (n : Int) : IsPlainWord (Text.intText n).toList :=
  isPlainWord_of_notMem (fun c hc => (inline_intText n c hc).1) (fun hmem => ne_of_mem_intText hmem (by decide) rfl)
    fun hmem => ne_of_mem_intText hmem (by decide) rfl

theorem beginsPlain_intText (n : Int) : ∃ x more, (Text.intText n).toList = x :: more ∧ Scalar.BeginsPlain x more := by
  obtain ⟨c, cs, hcons⟩ := List.exists_cons_of_ne_nil (natDigits_ne_nil n.natAbs)
  have hc : c.isDigit = true := isDigit_natDigits n.natAbs c (by simp [hcons])
  rcases intText_cases n with hcs | hcs
  · exact ⟨c, cs, hcs.trans hcons, Scalar.beginsPlain_of_isPlainChar (isPlainChar_of_isDigit hc) cs⟩
  · refine ⟨'-', natDigits n.natAbs, hcs, by decide, by decide, by decide, fun _ => ?_⟩
    have hprintable := Writer.isPrintable_of_isPlainChar (isPlainChar_of_isDigit hc)
    rw [hcons, List.headD_cons, isGapOrEnd_of_isPrintable hprintable]
    exact decide_eq_false (isDigit_ne hc (by decide))

end TagTypes.Yaml
