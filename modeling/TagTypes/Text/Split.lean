/-!
# Pieces of a text

A text is cut at a mark: at every place where it stands, at the first, or at the last. The mark itself belongs to no piece.
-/

namespace TagTypes.Text

/-- The pieces between the marks, of which there is one more than marks. -/
def split (mark : Char) : List Char → List (List Char)
  | [] => [[]]
  | c :: cs =>
    if c = mark then [] :: split mark cs
    else
      match split mark cs with
      | [] => [[c]]
      | piece :: pieces => (c :: piece) :: pieces

/-- What stands before the first mark, and what follows it if there is one. -/
def splitFirst (mark : Char) : List Char → List Char × Option (List Char)
  | [] => ([], none)
  | c :: cs => if c = mark then ([], some cs) else (c :: (splitFirst mark cs).1, (splitFirst mark cs).2)

/-- What follows the last mark, or the whole text if there is none. -/
def afterLast (mark : Char) (cs : List Char) : List Char := (cs.reverse.takeWhile (· ≠ mark)).reverse

theorem split_ne_nil (mark : Char) (cs : List Char) : split mark cs ≠ [] := by
  cases cs with
  | nil => simp [split]
  | cons c cs =>
    rw [split]
    split
    · simp
    · split <;> simp

theorem mark_notMem_of_mem_split {mark : Char} {cs piece : List Char} (h : piece ∈ split mark cs) :
    mark ∉ piece := by
  induction cs generalizing piece with
  | nil => simp_all [split]
  | cons c cs ih =>
    rw [split] at h
    by_cases hc : c = mark
    · rw [if_pos hc] at h
      rcases List.mem_cons.1 h with rfl | h
      · simp
      · exact ih h
    · rw [if_neg hc] at h
      cases hs : split mark cs with
      | nil => exact absurd hs (split_ne_nil mark cs)
      | cons first rest =>
        rw [hs] at h ih
        rcases List.mem_cons.1 h with rfl | h
        · simp [Ne.symm hc, ih List.mem_cons_self]
        · exact ih (List.mem_cons_of_mem _ h)

end TagTypes.Text
