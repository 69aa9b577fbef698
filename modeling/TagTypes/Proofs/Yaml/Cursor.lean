import Mathlib.Tactic
import TagTypes.Proofs.Yaml.Writer
import TagTypes.Yaml.Cursor

/-!
# Cursors over written text

What is written has no line end but LF and no byte order mark, so a cursor goes on by one column for every character of a line.
-/

namespace TagTypes.Yaml

open Writer (Inline inline_cons isPrintable)

theorem ne_of_isPrintable {x y : Char} (hx : isPrintable x = true) (hy : isPrintable y = false) : x ≠ y := by
  rintro rfl
  rw [hx] at hy
  cases hy

theorem ne_of_isPlainChar {x y : Char} (hx : isPlainChar x = true) (hy : isPlainChar y = false) : x ≠ y := by
  rintro rfl
  rw [hx] at hy
  cases hy

theorem isBreak_of_isPrintable {x : Char} (hx : isPrintable x = true) : isBreak x = false := by
  simp only [isBreak, Bool.or_eq_false_iff, decide_eq_false_iff_not]
  exact ⟨⟨⟨⟨ne_of_isPrintable hx (by decide), ne_of_isPrintable hx (by decide)⟩, ne_of_isPrintable hx (by decide)⟩,
    ne_of_isPrintable hx (by decide)⟩, ne_of_isPrintable hx (by decide)⟩

/-- The only gap inside a written line is a space. -/
theorem isGapOrEnd_of_isPrintable {x : Char} (hx : isPrintable x = true) : isGapOrEnd x = decide (x = ' ') := by
  simp [isGapOrEnd, isSpaceBreakOrEnd, isBreakOrEnd, isBreak_of_isPrintable hx, ne_of_isPrintable hx (y := '\t') (by decide),
    ne_of_isPrintable hx (y := '\x00') (by decide)]

namespace Cursor

variable {c : Cursor} {x : Char} {piece rest : List Char} {p : Char → Bool}

/-- The cursor after a piece of a line. -/
def after (piece rest : List Char) (c : Cursor) : Cursor :=
  { rest, index := c.index + piece.length, line := c.line, column := c.column + piece.length }

theorem after_after (piece other between rest : List Char) (c : Cursor) :
    (c.after piece between).after other rest = c.after (piece ++ other) rest := by
  simp [after, Nat.add_assoc]

theorem after_nil (hrest : c.rest = rest) : c.after [] rest = c := by
  subst hrest
  rfl

theorem peek_eq (hrest : c.rest = x :: rest) : c.peek = x := by rw [peek, hrest, List.headD_cons]

theorem next_of_isPrintable (hrest : c.rest = x :: rest) (hx : isPrintable x = true) : c.next = c.after [x] rest := by
  unfold next
  rw [hrest]
  simp only [isBreak_of_isPrintable hx, Bool.false_eq_true, if_false, if_neg (ne_of_isPrintable hx (y := '\uFEFF') (by decide))]
  rfl

/-- The cursor at the beginning of the next line. -/
def nextLine (rest : List Char) (c : Cursor) : Cursor := { rest, index := c.index + 1, line := c.line + 1, column := 0 }

theorem next_of_break (hrest : c.rest = '\n' :: rest) : c.next = c.nextLine rest := by
  unfold next
  rw [hrest]
  rfl

theorem lineBreak_eq (hrest : c.rest = '\n' :: rest) : c.lineBreak = (['\n'], c.nextLine rest) := by
  simp [lineBreak, peek_eq hrest, next_of_break hrest]

theorem skip_of_inline (hrest : c.rest = piece ++ rest) (hpiece : Inline piece) : c.skip piece.length = c.after piece rest := by
  induction piece generalizing c with
  | nil => exact (after_nil hrest).symm
  | cons x piece ih =>
    rw [inline_cons] at hpiece
    rw [List.length_cons, skip, next_of_isPrintable hrest hpiece.1, ih rfl hpiece.2, after_after, List.singleton_append]

/-- A run goes up to the first character that does not belong to it. -/
theorem span_of_inline (hrest : c.rest = piece ++ rest) (hpiece : Inline piece) (hp : ∀ x ∈ piece, p x = true)
    (hstop : ∀ x ∈ rest.head?, p x = false) : c.span p = (piece, c.after piece rest) := by
  have hrun : (c.rest.takeWhile fun x => x ≠ '\x00' && p x) = piece := by
    rw [hrest, List.takeWhile_append_of_pos]
    · cases rest with
      | nil => simp
      | cons x rest => simp [hstop x rfl]
    · intro x hx
      simp [hp x hx, ne_of_isPrintable (hpiece x hx) (y := '\x00') (by decide)]
  unfold span
  simp only [hrun, skip_of_inline hrest hpiece]

theorem skipWhile_of_inline (hrest : c.rest = piece ++ rest) (hpiece : Inline piece) (hp : ∀ x ∈ piece, p x = true)
    (hstop : ∀ x ∈ rest.head?, p x = false) : c.skipWhile p = c.after piece rest := by
  rw [skipWhile, span_of_inline hrest hpiece hp hstop]

theorem isDocumentLine_eq_false (hhead : ∀ x ∈ c.rest.head?, x ≠ '-' ∧ x ≠ '.') : c.isDocumentLine = false := by
  unfold isDocumentLine isMarker
  cases hc : c.rest with
  | nil => rfl
  | cons x more =>
    have hx := hhead x (by rw [hc]; rfl)
    simp [hx.1, hx.2]

end Cursor

end TagTypes.Yaml
