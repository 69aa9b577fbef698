/-!
# Blanks

The characters that count as white space around a text: those with the Unicode property, and the four separators U+001C to U+001F. The zero-width space and the byte order mark are not among them.
-/

namespace TagTypes.Text

/-- White space in the ASCII range, without the separator controls. -/
def isAsciiBlank (c : Char) : Bool :=
  c = ' ' || (9 ≤ c.toNat && c.toNat ≤ 13)

def isBlank (c : Char) : Bool :=
  let n := c.toNat
  isAsciiBlank c || (0x1c ≤ n && n ≤ 0x1f) || n = 0x85 || n = 0xa0 || n = 0x1680 ||
    (0x2000 ≤ n && n ≤ 0x200a) || n = 0x2028 || n = 0x2029 || n = 0x202f || n = 0x205f || n = 0x3000

/-- Drop the characters satisfying `p` at both ends. -/
def trimmed (p : Char → Bool) (cs : List Char) : List Char :=
  ((cs.dropWhile p).reverse.dropWhile p).reverse

def isAllBlank (s : String) : Bool := s.toList.all isBlank

end TagTypes.Text
