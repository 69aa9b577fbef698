import Mathlib.Tactic

/-!
# Where a span ends

A reader takes characters of one class and stops at the first of another. What it takes from a written piece with a rest behind it is the piece alone, if the rest does not begin with a character of that class.
-/

namespace TagTypes.Text

/-- The text is empty or begins with a character that is not of the class. -/
def StopsAt (p : Char → Bool) (cs : List Char) : Prop := ∀ c ∈ cs.head?, p c = false

@[simp] theorem stopsAt_nil (p : Char → Bool) : StopsAt p [] := by
  intro c hc
  simp at hc

@[simp] theorem stopsAt_cons {p : Char → Bool} {c : Char} {cs : List Char} : StopsAt p (c :: cs) ↔ p c = false := by
  simp [StopsAt]

theorem StopsAt.mono {p q : Char → Bool} {cs : List Char} (h : StopsAt p cs) (hpq : ∀ c, q c = true → p c = true) :
    StopsAt q cs := by
  intro c hc
  by_contra hq
  have := hpq c (by simpa using hq)
  rw [h c hc] at this
  exact Bool.false_ne_true this

section Span

variable {p : Char → Bool} {piece rest : List Char}

theorem takeWhile_of_stopsAt (hrest : StopsAt p rest) : rest.takeWhile p = [] := by
  cases rest with
  | nil => rfl
  | cons c rest => rw [List.takeWhile_cons, if_neg (by simp [stopsAt_cons.1 hrest])]

theorem dropWhile_of_stopsAt (hrest : StopsAt p rest) : rest.dropWhile p = rest := by
  cases rest with
  | nil => rfl
  | cons c rest => rw [List.dropWhile_cons, if_neg (by simp [stopsAt_cons.1 hrest])]

theorem takeWhile_append_of_stopsAt (hpiece : ∀ c ∈ piece, p c = true) (hrest : StopsAt p rest) :
    (piece ++ rest).takeWhile p = piece := by
  rw [List.takeWhile_append_of_pos hpiece, takeWhile_of_stopsAt hrest, List.append_nil]

theorem dropWhile_append_of_stopsAt (hpiece : ∀ c ∈ piece, p c = true) (hrest : StopsAt p rest) :
    (piece ++ rest).dropWhile p = rest := by
  rw [List.dropWhile_append_of_pos hpiece, dropWhile_of_stopsAt hrest]

end Span

end TagTypes.Text
