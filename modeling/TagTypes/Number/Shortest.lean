import TagTypes.Number.Binary64
import TagTypes.Text.Digit

/-!
# The shortest decimal of a floating point number

A floating point number is written with the fewest digits that read back as the same number, and of those decimals with the nearest. From one digit to seventeen, the two neighbours of the number on the grid of that many digits are tried; if a point of a grid reads back at all, so does one of these two. `PrintStyle` holds what is a matter of format: the range of exponents written positionally and the words for the numbers that are none.
-/

namespace TagTypes.Binary64

-- the instance of the core library, also where another one is imported
attribute [local instance (high)] instPowNat

/-- A positive number `digits * 10 ^ exponent`. -/
structure Decimal where
  digits : Nat
  exponent : Int
  deriving DecidableEq, Repr

/-- The exponent `t` with `10 ^ t ≤ num / den < 10 ^ (t + 1)`, for a positive quotient. -/
def decimalExponent (num den : Nat) : Int :=
  if den ≤ num then ((Nat.toDigits 10 (num / den)).length : Int) - 1
  else
    let length := (Nat.toDigits 10 (den / num)).length
    if den ≤ num * 10 ^ (length - 1) then -((length - 1 : Nat) : Int) else -(length : Int)

/-- `num / den / 10 ^ k` as a fraction. -/
def onGrid (num den : Nat) (k : Int) : Nat × Nat :=
  if 0 ≤ k then (num, den * 10 ^ k.toNat) else (num * 10 ^ (-k).toNat, den)

/-- The two neighbours of `num / den` on the grid of `10 ^ k`, the nearer first; of two equally near ones the even one. -/
def neighbours (num den : Nat) (k : Int) : List Nat :=
  let (n, d) := onGrid num den k
  let low := n / d
  if roundDiv n d = low then [low, low + 1] else [low + 1, low]

/-- Move trailing zeros of the digits into the exponent. -/
def Decimal.dropZeros : Nat → Decimal → Decimal
  | 0, x => x
  | fuel + 1, x =>
    if x.digits ≠ 0 && x.digits % 10 = 0 then dropZeros fuel ⟨x.digits / 10, x.exponent + 1⟩ else x

/-- The decimal with `count` digits, or with the first larger number of digits up to seventeen, that reads back as `mantissa * 2 ^ exponent`. -/
def search (mantissa : Nat) (exponent : Int) (num den : Nat) (top : Int) : Nat → Nat → Decimal
  | 0, count => ⟨roundDiv (onGrid num den (top - count + 1)).1 (onGrid num den (top - count + 1)).2, top - count + 1⟩
  | more + 1, count =>
    let k := top - count + 1
    match (neighbours num den k).find? fun n => ofDecimal false n k = .finite false mantissa exponent with
    | some n => Decimal.dropZeros 400 ⟨n, k⟩
    | none => search mantissa exponent num den top more (count + 1)

/-- The shortest decimal of the positive number `mantissa * 2 ^ exponent`. -/
def shortest (mantissa : Nat) (exponent : Int) : Decimal :=
  let (num, den) := ratio mantissa exponent
  search mantissa exponent num den (decimalExponent num den) 17 1

/-- How a format writes floating point numbers: the decimal exponents from `firstPositional` up to but not including `firstScientific` are written positionally. -/
structure PrintStyle where
  nan : String
  infinity : String
  firstPositional : Int := -4
  firstScientific : Int := 16

/-- The positional form of `0.DIGITS * 10 ^ point`, with at least one digit on either side of the point. -/
def positional (ds : List Char) (point : Int) : List Char :=
  if point ≤ 0 then '0' :: '.' :: (List.replicate (-point).toNat '0' ++ ds)
  else
    let whole := point.toNat
    if ds.length ≤ whole then ds ++ List.replicate (whole - ds.length) '0' ++ ['.', '0']
    else ds.take whole ++ '.' :: ds.drop whole

/-- The exponent of scientific form: a sign and at least two digits. -/
def exponentText (e : Int) : List Char :=
  let ds := Text.natDigits e.natAbs
  (if e < 0 then '-' else '+') :: (if ds.length < 2 then '0' :: ds else ds)

def scientific (ds : List Char) (e : Int) : List Char :=
  match ds with
  | [] => []
  | [d] => d :: 'e' :: exponentText e
  | d :: ds => d :: '.' :: ds ++ 'e' :: exponentText e

def Decimal.text (style : PrintStyle) (x : Decimal) : List Char :=
  let ds := Text.natDigits x.digits
  let e := x.exponent + (ds.length : Int) - 1
  if style.firstPositional ≤ e && e < style.firstScientific then positional ds (e + 1) else scientific ds e

def sign (negative : Bool) : List Char := if negative then ['-'] else []

def print (style : PrintStyle) : Binary64 → List Char
  | .nan => style.nan.toList
  | .infinite s => sign s ++ style.infinity.toList
  | .finite s m e => sign s ++ if m = 0 then ['0', '.', '0'] else (shortest m e).text style

/-- The style of values shown in messages and texts. -/
def plainStyle : PrintStyle where
  nan := "nan"
  infinity := "inf"

def text (x : Binary64) : String := String.ofList (print plainStyle x)

/-- Read a decimal: a sign, digits with at most one point, an exponent. `cs` has at least one digit. -/
def readDecimal (cs : List Char) : Binary64 :=
  let (negative, body) := Text.splitSign cs
  let isExponentMark (c : Char) : Bool := c = 'e' || c = 'E'
  let significand := body.takeWhile (!isExponentMark ·)
  let (expNegative, expDigits) := Text.splitSign (body.dropWhile (!isExponentMark ·)).tail
  let whole := significand.takeWhile (· ≠ '.')
  let fraction := (significand.dropWhile (· ≠ '.')).tail
  let value (ds : List Char) : Nat := Text.ofDigits 10 (ds.map fun d => d.toNat - 48)
  ofDecimal negative (value (whole ++ fraction)) (Text.signed expNegative (value expDigits) - (fraction.length : Int))

end TagTypes.Binary64
