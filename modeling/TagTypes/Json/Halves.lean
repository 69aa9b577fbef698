import TagTypes.Json.Reader

/-!
# Halves of surrogate pairs

A string may be written with an escape for one half of a surrogate pair that has no other half beside it. Such a half is no character, so a text of it has no bytes; a value that is read has the replacement character in its place. Whether there was a half is seen from the text alone, and where it stood by reading the text once more with an escape of another character in place of all halves.
-/

namespace TagTypes.Json

namespace Reader

def isHalf (unit : Nat) : Bool := isHighSurrogate unit || isLowSurrogate unit

/-- A text in pieces: escapes by four digits with their units, and other escapes and characters with none. -/
def pieces : List Char → List (List Char × Nat)
  | '\\' :: 'u' :: a :: b :: c :: d :: rest => (['\\', 'u', a, b, c, d], (hexUnit? a b c d).getD 0) :: pieces rest
  | '\\' :: c :: rest => (['\\', c], 0) :: pieces rest
  | c :: rest => ([c], 0) :: pieces rest
  | [] => []

/-- The escape of a character that is not the replacement character. -/
def otherMark : List Char := "\\ufffe".toList

/-- Put the pieces together, with another mark in place of each half that stands alone. -/
def remark : List (List Char × Nat) → List Char
  | [] => []
  | [(piece, unit)] => if isHalf unit then otherMark else piece
  | (piece, high) :: (next, low) :: rest =>
    if isHighSurrogate high && isLowSurrogate low then piece ++ next ++ remark rest
    else (if isHalf high then otherMark else piece) ++ remark ((next, low) :: rest)

end Reader

def remarked (text : String) : String := String.ofList (Reader.remark (Reader.pieces text.toList))

/-- There is an escape for half a surrogate pair without the other half. -/
def hasLoneHalf (text : String) : Bool := remarked text ≠ text

end TagTypes.Json
