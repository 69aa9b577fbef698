import TagTypes.Text.Blank

/-!
# Decimal digits and whole numbers

A decimal digit is a digit of any script, by the character table of Unicode 14: each script has its ten digits in a row, and the table lists the zeros. A whole number given as text may be written with any of them, with single underscores between digits, a sign in front and blanks around.
-/

namespace TagTypes.Text

def digitZeros : List Nat := [
  48, 1632, 1776, 1984, 2406, 2534, 2662, 2790, 2918, 3046, 3174, 3302, 3430, 3558, 3664, 3792,
  3872, 4160, 4240, 6112, 6160, 6470, 6608, 6784, 6800, 6992, 7088, 7232, 7248, 42528, 43216,
  43264, 43472, 43504, 43600, 44016, 65296, 66720, 68912, 69734, 69872, 69942, 70096, 70384,
  70736, 70864, 71248, 71360, 71472, 71904, 72016, 72784, 73040, 73120, 92768, 92864, 93008,
  120782, 120792, 120802, 120812, 120822, 123200, 123632, 125264, 130032]

def digitValue? (c : Char) : Option Nat :=
  (digitZeros.find? fun first => first ≤ c.toNat && c.toNat < first + 10).map (c.toNat - ·)

/-- The digits of a numeral in which single underscores may stand between digits, and nowhere else. `digit?` says what a digit is. -/
def numeralDigits? (digit? : Char → Option Nat) : List Char → Option (List Nat)
  | [] => none
  | [c] => (digit? c).map ([·])
  | c :: '_' :: rest => do
    let d ← digit? c
    let ds ← numeralDigits? digit? rest
    return d :: ds
  | c :: rest => do
    let d ← digit? c
    let ds ← numeralDigits? digit? rest
    return d :: ds

/-- The number that `digits` write in the given base, most significant first. -/
def ofDigits (base : Nat) (digits : List Nat) : Nat :=
  digits.foldl (fun n d => n * base + d) 0

/-- Split off a sign; `true` is minus. -/
def splitSign : List Char → Bool × List Char
  | '-' :: rest => (true, rest)
  | '+' :: rest => (false, rest)
  | cs => (false, cs)

def signed (negative : Bool) (n : Nat) : Int := if negative then -(n : Int) else n

def maxDigits : Nat := 4300

inductive NumeralFault where
  | malformed
  | tooLong (digits : Nat)
  deriving DecidableEq, Repr

/-- The blanks that may stand around a number: all but the separator controls U+001C to U+001F. -/
def isNumeralBlank (c : Char) : Bool := isAsciiBlank c || (127 ≤ c.toNat && isBlank c)

def readInt (text : String) : Except NumeralFault Int :=
  let (negative, body) := splitSign (trimmed isNumeralBlank text.toList)
  match numeralDigits? digitValue? body with
  | none => .error .malformed
  | some ds => if ds.length ≤ maxDigits then .ok (signed negative (ofDigits 10 ds)) else .error (.tooLong ds.length)

def natDigits (n : Nat) : List Char := Nat.toDigits 10 n

def natText (n : Nat) : String := String.ofList (natDigits n)

def intText (n : Int) : String :=
  match n with
  | .ofNat n => natText n
  | .negSucc n => String.ofList ('-' :: natDigits (n + 1))

def overlongText (digits : Nat) : String :=
  "Exceeds the limit (" ++ natText maxDigits ++ " digits) for integer string conversion: value has " ++
    natText digits ++ " digits; use sys.set_int_max_str_digits() to increase the limit"

/-- What is said of a number that has too many digits for a text to be made of it. -/
def unwritableText : String :=
  "Exceeds the limit (" ++ natText maxDigits ++
    " digits) for integer string conversion; use sys.set_int_max_str_digits() to increase the limit"

end TagTypes.Text
