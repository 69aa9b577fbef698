import Mathlib.Tactic
import TagTypes.Proofs.Yaml.Cursor

/-!
# Escapes

Inside double quotes a character that is not written as it is stands as an escape, which gives it back: by a letter of its own, or by its code in base 16.
-/

namespace TagTypes.Yaml

open Writer (Inline inline_cons inline_upperHexDigits isPrintable upperHexDigits)

namespace Scalar

variable {c : Cursor} {rest : List Char}

theorem hexValue?_upper : ∀ d < 16, hexValue? (Text.lowerHexDigit d).toUpper = some d := by decide

theorem length_upperHexDigits (count n : Nat) : (upperHexDigits count n).length = count := by
  rw [upperHexDigits, List.length_map]
  induction count generalizing n with
  | zero => rfl
  | succ count ih => rw [Text.hexDigits, List.length_append, ih, List.length_singleton]

theorem hexNumber_append {cs : List Char} {x : Char} {n d : Nat} (hcs : hexNumber cs = some n) (hx : hexValue? x = some d) :
    hexNumber (cs ++ [x]) = some (n * 16 + d) := by
  obtain ⟨digits, hdigits, rfl⟩ := Option.map_eq_some_iff.1 hcs
  simp [hexNumber, List.mapM_append, hdigits, hx]

theorem hexNumber_upperHexDigits {count n : Nat} (hn : n < 16 ^ count) : hexNumber (upperHexDigits count n) = some n := by
  induction count generalizing n with
  | zero =>
    obtain rfl : n = 0 := by simpa using hn
    rfl
  | succ count ih =>
    have hlead : n / 16 < 16 ^ count := Nat.div_lt_of_lt_mul (by rwa [← pow_succ'])
    have hsplit : upperHexDigits (count + 1) n = upperHexDigits count (n / 16) ++ [(Text.lowerHexDigit (n % 16)).toUpper] := by
      simp [upperHexDigits, Text.hexDigits]
    rw [hsplit, hexNumber_append (ih hlead) (hexValue?_upper _ (Nat.mod_lt _ (by decide))), Nat.div_add_mod']

theorem character_toNat (x : Char) : character x.toNat = .ok x := by
  have hvalid : x.toNat < 0xd800 ∨ (0xdfff < x.toNat ∧ x.toNat < 0x110000) := x.valid
  have hsmall : ¬0x10ffff < x.toNat := by omega
  have hpair : ¬(0xd800 ≤ x.toNat ∧ x.toNat ≤ 0xdfff) := by omega
  rw [character, if_neg hsmall, if_neg (by simpa using hpair), Char.ofNat_toNat]

theorem escape_letter {mark x : Char} (hmark : shortEscape? mark = some x) (hprintable : isPrintable mark = true)
    (hrest : c.rest = mark :: rest) : Scalar.escape c = .ok ([x], c.after [mark] rest) := by
  unfold Scalar.escape
  simp only [Cursor.peek_eq hrest, hmark, Cursor.next_of_isPrintable hrest hprintable]

/-- A code is read, of the length that its mark tells. -/
theorem escape_code {mark x : Char} {length : Nat} (hshort : shortEscape? mark = none) (hmark : codeLength? mark = some length)
    (hprintable : isPrintable mark = true) (hx : x.toNat < 16 ^ length)
    (hrest : c.rest = mark :: upperHexDigits length x.toNat ++ rest) :
    Scalar.escape c = .ok ([x], c.after (mark :: upperHexDigits length x.toNat) rest) := by
  have hlength := length_upperHexDigits length x.toNat
  have hnext : c.next = c.after [mark] (upperHexDigits length x.toNat ++ rest) := Cursor.next_of_isPrintable hrest hprintable
  have hdigits : c.next.rest.take length = upperHexDigits length x.toNat := by
    rw [hnext]
    exact List.take_left' hlength
  have hskip : c.next.skip length = c.after (mark :: upperHexDigits length x.toNat) rest := by
    have hall := Cursor.skip_of_inline hrest (inline_cons.2 ⟨hprintable, inline_upperHexDigits length x.toNat⟩)
    rwa [List.length_cons, hlength, Cursor.skip] at hall
  unfold Scalar.escape
  simp only [Cursor.peek_eq hrest, hshort, hmark, hdigits, hlength, hskip, hexNumber_upperHexDigits hx, character_toNat, if_true,
    Except.map]

/-- The escape that is written for a character gives it back. -/
theorem escape_escape {x : Char} {body : List Char} (hbody : Writer.escape x = '\\' :: body) (hrest : c.rest = body ++ rest) :
    Scalar.escape c = .ok ([x], c.after body rest) := by
  unfold Writer.escape at hbody
  replace hbody := (List.cons.inj hbody).2
  split at hbody
  case h_16 =>
    split_ifs at hbody with hbyte hunit
    · subst hbody
      exact escape_code (by decide) (by rfl) (by decide) hbyte hrest
    · subst hbody
      exact escape_code (by decide) (by rfl) (by decide) hunit hrest
    · subst hbody
      have hlargest : x.toNat < 0x110000 := by
        rcases x.valid with h | h
        · exact h.trans (by decide)
        · exact h.2
      exact escape_code (by decide) (by rfl) (by decide) (hlargest.trans (by decide)) hrest
  all_goals
    subst hbody
    exact escape_letter (by rfl) (by decide) hrest

end Scalar

end TagTypes.Yaml
