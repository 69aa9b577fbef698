import Mathlib.Tactic
import TagTypes.Json.Halves
import TagTypes.Proofs.Json.Layout

/-!
# Written texts have no lone halves

A text that is whole on its own stays whole wherever it stands, since it ends in the middle of no escape. The spellings of characters are whole: the two halves of a pair are written together. Between them a layout puts characters that begin no escape.
-/

namespace TagTypes.Json

open Reader Printer

/-- A piece of text that is left as it is when the lone halves in a text are marked. -/
def IsWhole (cs : List Char) : Prop := ∀ rest, remark (pieces (cs ++ rest)) = cs ++ remark (pieces rest)

/-! ### Pieces -/

theorem remark_cons {unit : ℕ} (hunit : isHalf unit = false) (piece : List Char) (rest : List (List Char × ℕ)) :
    remark ((piece, unit) :: rest) = piece ++ remark rest := by
  have hhigh : isHighSurrogate unit = false := (Bool.or_eq_false_iff.1 hunit).1
  cases rest with
  | nil => simp [remark, hunit]
  | cons next rest => simp [remark, hunit, hhigh]

theorem remark_pair {high low : ℕ} (hhigh : isHighSurrogate high = true) (hlow : isLowSurrogate low = true)
    (piece next : List Char) (rest : List (List Char × ℕ)) :
    remark ((piece, high) :: (next, low) :: rest) = piece ++ next ++ remark rest := by
  simp [remark, hhigh, hlow]

theorem pieces_unitEscape {n : ℕ} (hn : n < 0x10000) (rest : List Char) :
    pieces (unitEscape n ++ rest) = (unitEscape n, n) :: pieces rest := by
  simp [unitEscape, hexUnit, pieces, hexUnit?_digits hn]

namespace IsWhole

variable {cs ds : List Char}

theorem nil : IsWhole [] := fun _ => rfl

theorem append (hcs : IsWhole cs) (hds : IsWhole ds) : IsWhole (cs ++ ds) := fun rest => by
  rw [List.append_assoc, hcs, hds, List.append_assoc]

theorem cons {c : Char} (hc : c ≠ '\\') (hcs : IsWhole cs) : IsWhole (c :: cs) := fun rest => by
  have hpieces : pieces (c :: (cs ++ rest)) = ([c], 0) :: pieces (cs ++ rest) := pieces.eq_3 c (cs ++ rest) (by simp [hc]) (by simp [hc])
  rw [List.cons_append, hpieces, remark_cons (by decide), hcs]
  rfl

theorem of_plain (hcs : '\\' ∉ cs) : IsWhole cs := by
  induction cs with
  | nil => exact nil
  | cons c cs ih =>
    rw [List.mem_cons, not_or] at hcs
    exact cons (Ne.symm hcs.1) (ih hcs.2)

theorem flatMap {char : Char → List Char} (hchar : ∀ c, IsWhole (char c)) (cs : List Char) : IsWhole (cs.flatMap char) := by
  induction cs with
  | nil => exact nil
  | cons c cs ih => exact (hchar c).append ih

end IsWhole

/-! ### Characters and numbers -/

theorem isWhole_unitEscape {n : ℕ} (hn : n < 0x10000) (hunit : isHalf n = false) : IsWhole (unitEscape n) := fun rest => by
  rw [pieces_unitEscape hn, remark_cons hunit]

theorem isWhole_escapeUnits (c : Char) : IsWhole (escapeUnits c) := by
  have hlt := toNat_lt c
  have hsurrogate := toNat_not_surrogate c
  unfold escapeUnits
  simp only
  split
  · rename_i hc
    refine isWhole_unitEscape hc ?_
    simp only [isHalf, isHighSurrogate, isLowSurrogate, Bool.or_eq_false_iff, Bool.and_eq_false_iff, decide_eq_false_iff_not]
    omega
  · intro rest
    rw [List.append_assoc, pieces_unitEscape (by omega), pieces_unitEscape (by omega), remark_pair]
    · simp only [isHighSurrogate, Bool.and_eq_true, decide_eq_true_eq]
      omega
    · simp only [isLowSurrogate, Bool.and_eq_true, decide_eq_true_eq]
      omega

theorem isWhole_asciiChar (c : Char) : IsWhole (asciiChar c) := by
  unfold asciiChar
  split
  · rename_i letter hletter
    intro rest
    have hpieces : pieces ('\\' :: letter :: rest) = (['\\', letter], 0) :: pieces rest := by
      unfold shortEscape? at hletter
      split at hletter <;> cases hletter <;> simp [pieces]
    rw [List.cons_append, List.singleton_append, hpieces, remark_cons (by decide)]
  · rename_i hnone
    split
    · refine IsWhole.of_plain fun hmark => ?_
      rw [← List.mem_singleton.1 hmark] at hnone
      cases hnone
    · exact isWhole_escapeUnits c

theorem isWhole_quoted {char : Char → List Char} (hchar : ∀ c, IsWhole (char c)) (s : String) : IsWhole (quoted char s) :=
  ((IsWhole.flatMap hchar _).cons (by decide)).append (.of_plain (by decide))

theorem isWhole_sign (negative : Bool) : IsWhole (Binary64.sign negative) := by
  cases negative with
  | true => exact .of_plain (by decide)
  | false => exact .nil

theorem isWhole_digits {ds : List Char} (hds : ∀ c ∈ ds, c.isDigit = true) : IsWhole ds :=
  .of_plain fun hmark => Binary64.isDigit_ne (hds _ hmark) (by decide) rfl

theorem isWhole_intText (n : ℤ) : IsWhole (Text.intText n).toList := by
  rw [intText_toList]
  exact (isWhole_sign _).append (isWhole_digits fun _ => Text.isDigit_of_mem_natDigits)

theorem isWhole_numeral {n : Binary64.Numeral} (hn : n.WellFormed) : IsWhole n.text := by
  refine (isWhole_digits hn.whole_digits).append (.append ?_ ?_)
  · unfold Binary64.Numeral.fractionText
    split
    · exact .nil
    · exact (isWhole_digits hn.fraction_digits).cons (by decide)
  · unfold Binary64.Numeral.exponentText
    split
    · rename_i negative ds hexponent
      refine ((isWhole_digits (hn.exponent_digits _ hexponent)).cons ?_).cons (by decide)
      cases negative <;> decide
    · exact .nil

theorem isWhole_print (x : Binary64) : IsWhole (Binary64.print numberStyle x) := by
  cases x with
  | nan => exact .of_plain (by decide)
  | infinite negative => exact (isWhole_sign negative).append (.of_plain (by decide))
  | finite negative mantissa exponent =>
    obtain ⟨n, hwell, -, htext, -⟩ := Binary64.exists_numeral_print numberStyle negative mantissa exponent
    rw [htext]
    exact (isWhole_sign negative).append (isWhole_numeral hwell)

/-! ### Values -/

namespace Layout

theorem isWhole_blank {blanks : List Char} (hblanks : ∀ c ∈ blanks, isSpace c = true) : IsWhole blanks := by
  refine .of_plain fun hmark => ?_
  cases hblanks _ hmark

variable {L : Layout}

/-- What stands between the brackets of a collection is whole, so the collection is. -/
theorem isWhole_collection (hsound : L.Sound) {left right : Char} (hleft : left ≠ '\\') (hright : right ≠ '\\') (depth : ℕ) {inner : List Char}
    (hinner : IsWhole inner) : IsWhole (left :: (L.first (depth + 1) ++ inner ++ L.close depth ++ [right])) :=
  .cons hleft ((((isWhole_blank (hsound.first_blank _)).append hinner).append (isWhole_blank (hsound.close_blank _))).append
    (.cons hright .nil))

mutual

theorem isWhole_write (hsound : L.Sound) (hchar : ∀ c, IsWhole (L.char c)) (depth : ℕ) : ∀ v, IsWhole (L.write depth v)
  | .null => by
    rw [write]
    exact .of_plain (by decide)
  | .bool b => by
    rw [write]
    cases b <;> exact .of_plain (by decide)
  | .int n => by
    rw [write]
    exact isWhole_intText n
  | .real x => by
    rw [write]
    exact isWhole_print x
  | .str s => by
    rw [write]
    exact isWhole_quoted hchar s
  | .arr [] | .obj [] => by
    rw [write]
    exact .of_plain (by decide)
  | .arr (v :: rest) => by
    rw [write]
    exact isWhole_collection hsound (by decide) (by decide) depth (isWhole_writeItems hsound hchar (depth + 1) (v :: rest))
  | .obj (f :: rest) => by
    rw [write]
    exact isWhole_collection hsound (by decide) (by decide) depth (isWhole_writeFields hsound hchar (depth + 1) (f :: rest))

theorem isWhole_writeItems (hsound : L.Sound) (hchar : ∀ c, IsWhole (L.char c)) (depth : ℕ) : ∀ vs, IsWhole (L.writeItems depth vs)
  | [] => .nil
  | [v] => by
    rw [writeItems]
    exact isWhole_write hsound hchar depth v
  | v :: w :: rest => by
    rw [writeItems.eq_3 _ _ _ _ (by simp)]
    have hrest := (isWhole_blank (hsound.next_blank depth)).append (isWhole_writeItems hsound hchar depth (w :: rest))
    exact (isWhole_write hsound hchar depth v).append (hrest.cons (by decide))

theorem isWhole_writeFields (hsound : L.Sound) (hchar : ∀ c, IsWhole (L.char c)) (depth : ℕ) : ∀ fs, IsWhole (L.writeFields depth fs)
  | [] => .nil
  | [(name, v)] => by
    rw [writeFields]
    exact (isWhole_quoted hchar name).append (((isWhole_write hsound hchar depth v).cons (by decide)).cons (by decide))
  | (name, v) :: g :: rest => by
    rw [writeFields.eq_3 _ _ _ _ _ (by simp)]
    have hrest := (isWhole_blank (hsound.next_blank depth)).append (isWhole_writeFields hsound hchar depth (g :: rest))
    have hvalue := (isWhole_write hsound hchar depth v).append (hrest.cons (show ',' ≠ '\\' by decide))
    exact (isWhole_quoted hchar name).append ((hvalue.cons (by decide)).cons (by decide))

end

end Layout

theorem hasLoneHalf_compactText (v : Json) : hasLoneHalf v.compactText = false := by
  have hwhole := Layout.isWhole_write compactLayout_sound isWhole_asciiChar 0 v []
  rw [write_compactLayout, List.append_nil] at hwhole
  have hmarked : remarked v.compactText = v.compactText := by
    rw [remarked, compactText, String.toList_ofList, hwhole]
    exact congrArg String.ofList (List.append_nil _)
  simp [hasLoneHalf, hmarked]

end TagTypes.Json
