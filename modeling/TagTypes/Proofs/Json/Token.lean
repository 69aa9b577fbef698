import Mathlib.Tactic
import TagTypes.Json.Printer
import TagTypes.Json.Reader
import TagTypes.Proofs.Number.Numeral

/-!
# Strings, numbers and words read back

The reader takes a written string, number or word from the front of a text and leaves what follows. A string may be written with any spelling of its characters; a number ends where no digit, point or exponent follows.
-/

namespace TagTypes.Json

open Reader Printer
open Text (StopsAt natDigits)

/-! ### Strings -/

/-- The reader takes `cs` inside a string for the character `c`, if the string goes on behind it. -/
def Spells (c : Char) (cs : List Char) : Prop :=
  ∃ units : List ℕ,
    (∀ start next rest, stringUnits start (cs ++ next :: rest) =
      (stringUnits start (next :: rest)).map fun found => (units ++ found.1, found.2)) ∧
    ∀ us, joinUnits (units ++ us) = c :: joinUnits us

theorem toNat_not_surrogate (c : Char) : c.toNat < 0xd800 ∨ 0xdfff < c.toNat := by
  have := c.valid
  simp only [UInt32.isValidChar, Nat.isValidChar] at this
  change c.toNat < 0xd800 ∨ 0xdfff < c.toNat ∧ c.toNat < 0x110000 at this
  omega

theorem toNat_lt (c : Char) : c.toNat < 0x110000 := by
  have := c.valid
  simp only [UInt32.isValidChar, Nat.isValidChar] at this
  change c.toNat < 0xd800 ∨ 0xdfff < c.toNat ∧ c.toNat < 0x110000 at this
  omega

theorem joinUnits_cons_toNat (c : Char) (us : List ℕ) : joinUnits (c.toNat :: us) = c :: joinUnits us := by
  have hchar := toNat_not_surrogate c
  cases us with
  | nil =>
    have hunit : joinUnits [c.toNat] = [if 0xd800 ≤ c.toNat && c.toNat < 0xe000 then '\ufffd' else Char.ofNat c.toNat] := rfl
    rw [hunit, if_neg (by simp; omega), Char.ofNat_toNat]
    rfl
  | cons u us =>
    have hhigh : isHighSurrogate c.toNat = false := by
      simp [isHighSurrogate]
      omega
    rw [joinUnits, hhigh, Bool.false_and, if_neg (by simp), if_neg (by simp; omega), Char.ofNat_toNat]

theorem joinUnits_surrogates {high low : ℕ} (hhigh : isHighSurrogate high = true) (hlow : isLowSurrogate low = true)
    (us : List ℕ) :
    joinUnits (high :: low :: us) = Char.ofNat (0x10000 + (high - 0xd800) * 0x400 + (low - 0xdc00)) :: joinUnits us := by
  simp only [joinUnits, hhigh, hlow, Bool.and_self, if_true]

/-- The two units of a character beyond the first plane join to it. -/
theorem joinUnits_pair {c : Char} (hc : 0x10000 ≤ c.toNat) (us : List ℕ) :
    joinUnits ((0xd800 + (c.toNat - 0x10000) / 0x400) :: (0xdc00 + (c.toNat - 0x10000) % 0x400) :: us) =
      c :: joinUnits us := by
  have hlt := toNat_lt c
  have hhigh : isHighSurrogate (0xd800 + (c.toNat - 0x10000) / 0x400) = true := by
    simp only [isHighSurrogate, Bool.and_eq_true, decide_eq_true_eq]
    omega
  have hlow : isLowSurrogate (0xdc00 + (c.toNat - 0x10000) % 0x400) = true := by
    simp only [isLowSurrogate, Bool.and_eq_true, decide_eq_true_eq]
    omega
  have hcode : 0x10000 + (0xd800 + (c.toNat - 0x10000) / 0x400 - 0xd800) * 0x400 +
      (0xdc00 + (c.toNat - 0x10000) % 0x400 - 0xdc00) = c.toNat := by
    omega
  rw [joinUnits_surrogates hhigh hlow, hcode, Char.ofNat_toNat]

theorem stringUnits_plain (start rest : List Char) {c : Char} (hquote : c ≠ '"') (hback : c ≠ '\\')
    (hcontrol : 32 ≤ c.toNat) :
    stringUnits start (c :: rest) = (stringUnits start rest).map fun found => (c.toNat :: found.1, found.2) := by
  rw [stringUnits.eq_def]
  split
  · contradiction
  · rename_i heq
    exact absurd (List.cons.inj heq).1 hquote
  · rename_i heq
    exact absurd (List.cons.inj heq).1 hback
  · rename_i heq
    exact absurd (List.cons.inj heq).1 hback
  · rename_i heq
    exact absurd (List.cons.inj heq).1 hback
  · rename_i heq
    exact absurd (List.cons.inj heq).1 hback
  · rename_i heq
    obtain ⟨rfl, rfl⟩ := List.cons.inj heq
    rw [if_neg (by omega)]
    rfl

theorem spells_plain {c : Char} (hquote : c ≠ '"') (hback : c ≠ '\\') (hcontrol : 32 ≤ c.toNat) : Spells c [c] :=
  ⟨[c.toNat], fun start next rest => stringUnits_plain start (next :: rest) hquote hback hcontrol,
    joinUnits_cons_toNat c⟩

theorem spells_short {c letter : Char} (hletter : shortEscape? c = some letter) : Spells c ['\\', letter] := by
  refine ⟨[c.toNat], fun start next rest => ?_, joinUnits_cons_toNat c⟩
  unfold shortEscape? at hletter
  split at hletter <;> simp at hletter <;> subst hletter <;> rw [List.cons_append, List.cons_append, stringUnits] <;>
    first | rfl | simp

theorem hexValue?_hexDigit : ∀ d < 16, hexValue? (hexDigit d) = some d := by decide

theorem hexUnit?_digits {n : ℕ} (hn : n < 0x10000) :
    hexUnit? (hexDigit (n / 4096 % 16)) (hexDigit (n / 256 % 16)) (hexDigit (n / 16 % 16)) (hexDigit (n % 16)) = some n := by
  simp only [hexUnit?, hexValue?_hexDigit _ (Nat.mod_lt _ (show 0 < 16 by norm_num))]
  congr 1
  omega

theorem stringUnits_unitEscape (start rest : List Char) (next : Char) {n : ℕ} (hn : n < 0x10000) :
    stringUnits start (unitEscape n ++ next :: rest) =
      (stringUnits start (next :: rest)).map fun found => (n :: found.1, found.2) := by
  rw [unitEscape, hexUnit]
  simp only [List.cons_append, List.nil_append]
  rw [stringUnits, hexUnit?_digits hn]
  rfl

theorem spells_unitEscape {c : Char} (hc : c.toNat < 0x10000) : Spells c (unitEscape c.toNat) :=
  ⟨[c.toNat], fun start next rest => stringUnits_unitEscape start rest next hc, joinUnits_cons_toNat c⟩

theorem spells_pair {c : Char} (hc : 0x10000 ≤ c.toNat) :
    Spells c (unitEscape (0xd800 + (c.toNat - 0x10000) / 0x400) ++ unitEscape (0xdc00 + (c.toNat - 0x10000) % 0x400)) := by
  have hlt := toNat_lt c
  refine ⟨[_, _], fun start next rest => ?_, joinUnits_pair hc⟩
  have hhead : unitEscape (0xdc00 + (c.toNat - 0x10000) % 0x400) ++ next :: rest =
      '\\' :: ('u' :: hexUnit (0xdc00 + (c.toNat - 0x10000) % 0x400) ++ next :: rest) := rfl
  rw [List.append_assoc, hhead, stringUnits_unitEscape _ _ _ (by omega), ← hhead, stringUnits_unitEscape _ _ _ (by omega)]
  cases stringUnits start (next :: rest) <;> rfl

theorem spells_asciiChar (c : Char) : Spells c (asciiChar c) := by
  unfold asciiChar
  split
  · rename_i letter hletter
    exact spells_short hletter
  · rename_i hnone
    split
    · rename_i hprintable
      simp only [Bool.and_eq_true, decide_eq_true_eq] at hprintable
      refine spells_plain ?_ ?_ hprintable.1
      · intro heq
        subst heq
        exact absurd hnone (by decide)
      · intro hsame
        subst hsame
        exact absurd hnone (by decide)
    · unfold escapeUnits
      simp only
      split
      · rename_i hc
        exact spells_unitEscape hc
      · rename_i hc
        exact spells_pair (not_lt.1 hc)

theorem spells_anyChar (c : Char) : Spells c (anyChar c) := by
  unfold anyChar
  split
  · rename_i letter hletter
    exact spells_short hletter
  · rename_i hnone
    split
    · rename_i hcontrol
      exact spells_unitEscape (by omega)
    · rename_i hcontrol
      refine spells_plain ?_ ?_ (not_lt.1 hcontrol)
      · intro heq
        subst heq
        exact absurd hnone (by decide)
      · intro hsame
        subst hsame
        exact absurd hnone (by decide)

/-- The characters of a string, each in some spelling, read back up to the closing quote. -/
theorem exists_stringUnits {char : Char → List Char} (hchar : ∀ c, Spells c (char c)) (start rest cs : List Char) :
    ∃ units, stringUnits start (cs.flatMap char ++ '"' :: rest) = .ok (units, rest) ∧ joinUnits units = cs := by
  induction cs with
  | nil => exact ⟨[], by rw [List.flatMap_nil, List.nil_append, stringUnits], rfl⟩
  | cons c cs ih =>
    obtain ⟨units, hunits, hjoin⟩ := ih
    obtain ⟨own, hown, hfront⟩ := hchar c
    refine ⟨own ++ units, ?_, by rw [hfront, hjoin]⟩
    rw [List.flatMap_cons, List.append_assoc]
    obtain ⟨next, tail, htail⟩ : ∃ next tail, cs.flatMap char ++ '"' :: rest = next :: tail :=
      List.exists_cons_of_ne_nil (by simp)
    rw [htail, hown, ← htail, hunits]
    rfl

theorem string_quoted {char : Char → List Char} (hchar : ∀ c, Spells c (char c)) (start rest : List Char) (s : String) :
    string start (s.toList.flatMap char ++ '"' :: rest) = .ok (s, rest) := by
  obtain ⟨units, hunits, hjoin⟩ := exists_stringUnits hchar start rest s.toList
  rw [string, hunits]
  change Except.ok (String.ofList (joinUnits units), rest) = _
  rw [hjoin, String.ofList_toList]

/-! ### Numbers -/

/-- The characters that may go on with a number. -/
def isNumberChar (c : Char) : Bool := c.isDigit || c = '.' || c = 'e' || c = 'E'

theorem digits_append {ds rest : List Char} (hds : ∀ c ∈ ds, c.isDigit = true) (hrest : StopsAt Char.isDigit rest) :
    digits (ds ++ rest) = (ds, rest) := by
  rw [digits, Text.takeWhile_append_of_stopsAt hds hrest, Text.dropWhile_append_of_stopsAt hds hrest]

section Numbers

variable {n : Binary64.Numeral} {rest : List Char}

theorem wholePart_append (hn : n.WellFormed) (hrest : StopsAt Char.isDigit rest) :
    wholePart (n.whole ++ rest) = some (n.whole, rest) := by
  rcases hn.whole_lead with hzero | hlead
  · rw [hzero]
    rfl
  · obtain ⟨c, cs, hwhole, hc⟩ := Binary64.Numeral.exists_whole_cons hn
    have hc0 : c ≠ '0' := by
      intro hsame
      subst hsame
      exact hlead (by rw [hwhole]; rfl)
    have hspan := digits_append hn.whole_digits hrest
    rw [hwhole] at hspan ⊢
    rw [List.cons_append] at hspan ⊢
    unfold wholePart
    split
    · rename_i heq
      exact absurd (List.cons.inj heq).1 hc0
    · rw [hspan]
      rfl

theorem stopsAt_isDigit (hrest : StopsAt isNumberChar rest) : StopsAt Char.isDigit rest :=
  hrest.mono fun c hc => by simp [isNumberChar, hc]

theorem stopsAt_exponentText (hrest : StopsAt isNumberChar rest) : StopsAt Char.isDigit (n.exponentText ++ rest) := by
  unfold Binary64.Numeral.exponentText
  split
  · simp
  · exact stopsAt_isDigit hrest

theorem fraction_append (hn : n.WellFormed) (hrest : StopsAt isNumberChar rest) :
    fraction (n.fractionText ++ (n.exponentText ++ rest)) = (n.fractionText, n.exponentText ++ rest) := by
  unfold Binary64.Numeral.fractionText
  split
  · rw [List.nil_append]
    unfold fraction
    split
    · rename_i tail heq
      exfalso
      unfold Binary64.Numeral.exponentText at heq
      split at heq
      · simp at heq
      · rw [List.nil_append] at heq
        rw [heq, Text.stopsAt_cons] at hrest
        simp [isNumberChar] at hrest
    · rfl
  · rename_i hfraction
    rw [List.cons_append, fraction, digits_append hn.fraction_digits (stopsAt_exponentText hrest)]
    simp [hfraction]

theorem exponent_append (hn : n.WellFormed) (hrest : StopsAt isNumberChar rest) :
    exponent (n.exponentText ++ rest) = (n.exponentText, rest) := by
  unfold Binary64.Numeral.exponentText
  cases hexp : n.exponent with
  | none =>
    simp only [List.nil_append]
    unfold exponent
    simp only
    split
    all_goals first
      | rfl
      | (rw [Text.stopsAt_cons] at hrest
         simp [isNumberChar] at hrest)
  | some e =>
    obtain ⟨negative, ds⟩ := e
    have hne : ds ≠ [] := hn.exponent_ne_nil (negative, ds) hexp
    have hspan := digits_append (hn.exponent_digits (negative, ds) hexp) (stopsAt_isDigit hrest)
    cases negative <;>
    · simp only [List.cons_append, Bool.false_eq_true, if_true, if_false]
      unfold exponent
      simp only [hspan]
      simp [hne]

theorem text_append (n : Binary64.Numeral) (rest : List Char) :
    n.text ++ rest = n.whole ++ (n.fractionText ++ (n.exponentText ++ rest)) := by
  simp [Binary64.Numeral.text]

theorem stopsAt_fractionText (hrest : StopsAt isNumberChar rest) :
    StopsAt Char.isDigit (n.fractionText ++ (n.exponentText ++ rest)) := by
  unfold Binary64.Numeral.fractionText
  split
  · exact stopsAt_exponentText hrest
  · simp

/-- What follows the sign of a number. -/
theorem number_sign (negative : Bool) {c : Char} (hc : c.isDigit = true) (cs : List Char) :
    number (Binary64.sign negative ++ c :: cs) =
      match wholePart (c :: cs) with
      | none => .error (.fault .expectingValue (Binary64.sign negative ++ c :: cs))
      | some (whole, rest) =>
        let (frac, rest) := fraction rest
        let (exp, rest) := exponent rest
        if frac.isEmpty && exp.isEmpty then
          if whole.length ≤ Text.maxDigits then .ok (.int (Text.signed negative (decimalValue whole)), rest)
          else .error (.tooManyDigits whole.length)
        else .ok (.real (Binary64.readDecimal (Binary64.sign negative ++ whole ++ frac ++ exp)), rest) := by
  have hminus : c ≠ '-' := Binary64.isDigit_ne hc (by decide)
  cases negative with
  | true => rfl
  | false =>
    change number (c :: cs) = _
    unfold number
    split
    · rename_i heq
      split at heq
      · rename_i hhead
        exact absurd (List.cons.inj hhead).1 hminus
      · cases heq
        rfl

/-- A numeral with a point or an exponent is a floating point number. -/
theorem number_real (negative : Bool) (hn : n.WellFormed) (hreal : n.fraction ≠ [] ∨ n.exponent ≠ none)
    (hrest : StopsAt isNumberChar rest) :
    number (Binary64.sign negative ++ n.text ++ rest) =
      .ok (.real (Binary64.readDecimal (Binary64.sign negative ++ n.text)), rest) := by
  obtain ⟨c, cs, hwhole, hc⟩ := Binary64.Numeral.exists_whole_cons hn
  have htext : n.text ++ rest = c :: (cs ++ (n.fractionText ++ (n.exponentText ++ rest))) := by
    rw [text_append, hwhole, List.cons_append]
  have hpart : wholePart (n.text ++ rest) = some (n.whole, n.fractionText ++ (n.exponentText ++ rest)) := by
    rw [text_append]
    exact wholePart_append hn (stopsAt_fractionText hrest)
  rw [htext] at hpart
  have hboth : (n.fractionText.isEmpty && n.exponentText.isEmpty) = false := by
    unfold Binary64.Numeral.fractionText Binary64.Numeral.exponentText
    rcases hreal with hfraction | hexponent
    · simp [hfraction]
    · obtain ⟨e, he⟩ := Option.ne_none_iff_exists'.1 hexponent
      simp [he]
  rw [List.append_assoc, htext, number_sign negative hc]
  simp only [hpart, fraction_append hn hrest, exponent_append hn hrest, hboth]
  simp [Binary64.Numeral.text]

/-- The digits of a whole number as a numeral. -/
def wholeNumeral (n : ℕ) : Binary64.Numeral := ⟨natDigits n, [], none⟩

theorem wholeNumeral_wellFormed (n : ℕ) : (wholeNumeral n).WellFormed := by
  refine ⟨Text.natDigits_ne_nil n, ?_, fun c => Text.isDigit_of_mem_natDigits, by simp [wholeNumeral],
    by simp [wholeNumeral], by simp [wholeNumeral]⟩
  by_cases hn : n = 0
  · left
    rw [hn]
    rfl
  · exact Or.inr (Binary64.head_natDigits_ne (Nat.pos_of_ne_zero hn))

theorem intText_toList (n : ℤ) : (Text.intText n).toList = Binary64.sign (decide (n < 0)) ++ natDigits n.natAbs := by
  cases n with
  | ofNat n =>
    rw [Text.intText, Text.natText, String.toList_ofList, Binary64.sign, if_neg (by simp)]
    rfl
  | negSucc n =>
    rw [Text.intText, String.toList_ofList, Binary64.sign, if_pos (by simp [Int.negSucc_lt_zero])]
    rfl

/-- A whole number reads back, unless it has too many digits. -/
theorem number_int (n : ℤ) (hrest : StopsAt isNumberChar rest) :
    number ((Text.intText n).toList ++ rest) =
      if (natDigits n.natAbs).length ≤ Text.maxDigits then .ok (.int n, rest)
      else .error (.tooManyDigits (natDigits n.natAbs).length) := by
  have hwell := wholeNumeral_wellFormed n.natAbs
  obtain ⟨c, cs, hwhole, hc⟩ := Binary64.Numeral.exists_whole_cons hwell
  have htext : natDigits n.natAbs ++ rest = c :: (cs ++ rest) := congrArg (· ++ rest) hwhole
  have hfraction := fraction_append hwell hrest
  have hexponent := exponent_append hwell hrest
  simp only [wholeNumeral, Binary64.Numeral.fractionText, Binary64.Numeral.exponentText, if_true, List.nil_append]
    at hfraction hexponent
  have hvalue : decimalValue (natDigits n.natAbs) = n.natAbs := Text.decimalValue_natDigits _
  have hpart : wholePart (natDigits n.natAbs ++ rest) = some (natDigits n.natAbs, rest) :=
    wholePart_append hwell (stopsAt_isDigit hrest)
  rw [htext] at hpart
  rw [intText_toList, List.append_assoc, htext, number_sign _ hc]
  simp only [hpart, hfraction, hexponent, hvalue, Binary64.signed_natAbs, List.isEmpty_nil, Bool.and_self, if_true]

end Numbers

/-! ### Words -/

theorem word?_of_isDigit {c : Char} (hc : c.isDigit = true) (negative : Bool) (cs : List Char) :
    word? (Binary64.sign negative ++ c :: cs) = none := by
  have hn := Binary64.isDigit_ne hc (show ('n' : Char).isDigit = false by decide)
  have ht := Binary64.isDigit_ne hc (show ('t' : Char).isDigit = false by decide)
  have hf := Binary64.isDigit_ne hc (show ('f' : Char).isDigit = false by decide)
  have hN := Binary64.isDigit_ne hc (show ('N' : Char).isDigit = false by decide)
  have hI := Binary64.isDigit_ne hc (show ('I' : Char).isDigit = false by decide)
  have hminus := Binary64.isDigit_ne hc (show ('-' : Char).isDigit = false by decide)
  cases negative <;>
    simp [word?, words, after?, Binary64.sign, hn.symm, ht.symm, hf.symm, hN.symm, hI.symm, hminus.symm]

theorem value_of_word {fuel depth : ℕ} {c : Char} {cs : List Char} (hquote : c ≠ '"') (hlist : c ≠ '[') (hobject : c ≠ '{') :
    value (fuel + 1) depth (c :: cs) = match word? (c :: cs) with
      | some found => .ok found
      | none => number (c :: cs) := by
  rw [value.eq_def]
  simp only
  split
  · rename_i heq
    exact absurd (List.cons.inj heq).1 hquote
  · rename_i heq
    exact absurd (List.cons.inj heq).1 hlist
  · rename_i heq
    exact absurd (List.cons.inj heq).1 hobject
  · rfl

/-- A text that begins like a number is read as one. -/
theorem value_of_isDigit {fuel depth : ℕ} {c : Char} (hc : c.isDigit = true) (negative : Bool) (cs : List Char) :
    value (fuel + 1) depth (Binary64.sign negative ++ c :: cs) = number (Binary64.sign negative ++ c :: cs) := by
  have hword := word?_of_isDigit hc negative cs
  cases negative with
  | true =>
    change value (fuel + 1) depth ('-' :: c :: cs) = number ('-' :: c :: cs)
    change word? ('-' :: c :: cs) = none at hword
    rw [value_of_word (by decide) (by decide) (by decide), hword]
  | false =>
    change value (fuel + 1) depth (c :: cs) = number (c :: cs)
    change word? (c :: cs) = none at hword
    rw [value_of_word (Binary64.isDigit_ne hc (by decide)) (Binary64.isDigit_ne hc (by decide))
      (Binary64.isDigit_ne hc (by decide)), hword]

end TagTypes.Json
