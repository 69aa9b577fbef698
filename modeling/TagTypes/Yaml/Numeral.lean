import TagTypes.Number.Binary64
import TagTypes.Number.Shortest
import TagTypes.Text.Lower
import TagTypes.Text.Split
import TagTypes.Yaml.Fault

/-!
# Numerals of settings files

A whole number may be written in base 2, 8, 10, 16 or 60, and a number with a fraction in base 10 or 60. Underscores count for nothing. A tag can call any text a number, so each reader also says why a text is none.
-/

namespace TagTypes.Yaml.Numeral

/-- A text without underscores and without its sign; `true` is minus. -/
def unsigned (cs : List Char) : Except Fault (Bool × List Char) :=
  match cs.filter (· ≠ '_') with
  | [] => .error .noNumber
  | cs => .ok (Text.splitSign cs)

def digitIn? (base : Nat) (c : Char) : Option Nat :=
  let value := (Text.digitValue? c).or
    (if c.toLower.isAlpha then some (c.toLower.toNat - 87) else none)
  value.filter (· < base)

/-- A text without the mark of its base. -/
def dropBaseMark (base : Nat) (cs : List Char) : List Char :=
  match cs with
  | '0' :: mark :: rest =>
    if (base, mark.toLower) ∈ [(2, 'b'), (8, 'o'), (16, 'x')] then rest else cs
  | _ => cs

/-- Read a whole number in base 2, 8 or 16, with which its mark may stand. -/
def inBase (base : Nat) (cs : List Char) : Except Fault Int :=
  let (negative, body) := Text.splitSign (Text.trimmed Text.isNumeralBlank cs)
  match (dropBaseMark base body).mapM (digitIn? base) with
  | some (d :: ds) => .ok (Text.signed negative (Text.ofDigits base (d :: ds)))
  | _ => .error (.notWhole (String.ofList cs) base)

def decimal (cs : List Char) : Except Fault Int :=
  (Text.readInt (String.ofList cs)).mapError fun
    | .malformed => .notWhole (String.ofList cs) 10
    | .tooLong digits => .tooManyDigits digits

/-- The number of groups in base 60, most significant first. -/
def sixties (groups : List (List Char)) : Except Fault Int := do
  let digits ← groups.mapM decimal
  return digits.foldl (fun n d => n * 60 + d) 0

def whole (text : String) : Except Fault Int := do
  let (negative, body) ← unsigned text.toList
  let n ← match body with
    | ['0'] => pure 0
    | '0' :: 'b' :: rest => inBase 2 rest
    | '0' :: 'x' :: rest => inBase 16 rest
    | '0' :: _ => inBase 8 body
    | [] => throw .noNumber
    | _ => if body.contains ':' then sixties (Text.split ':' body) else decimal body
  return if negative then -n else n

/-- A decimal numeral: at least one digit, at most one point, perhaps an exponent. -/
def isDecimal (cs : List Char) : Bool :=
  let afterWhole := cs.dropWhile Char.isDigit
  let whole := cs.length - afterWhole.length
  let (fraction, rest) := match afterWhole with
    | '.' :: rest => ((rest.takeWhile Char.isDigit).length, rest.dropWhile Char.isDigit)
    | rest => (0, rest)
  0 < whole + fraction && match rest with
    | [] => true
    | 'e' :: rest =>
      let digits := (Text.splitSign rest).2
      !digits.isEmpty && digits.all Char.isDigit
    | _ => false

/-- Write a digit of any script as a digit of ours. -/
def commonDigit (c : Char) : Char := ((Text.digitValue? c).map fun d => Char.ofNat (48 + d)).getD c

/-- Read a number with a fraction in base 10; `cs` is in small letters. -/
def real10 (cs : List Char) : Except Fault Binary64 :=
  let common := (Text.trimmed Text.isNumeralBlank cs).map commonDigit
  let (negative, body) := Text.splitSign common
  if ["inf", "infinity"].any (·.toList = body) then .ok (.infinite negative)
  else if "nan".toList = body then .ok .nan
  else if isDecimal body then .ok (Binary64.readDecimal common)
  else .error (.notReal (String.ofList cs))

/-- Add up groups in base 60, least significant first; `unit` is what one of the first group is worth. -/
def sumSixties (sum : Binary64) (unit : Nat) : List Binary64 → Except Fault Binary64
  | [] => .ok sum
  | d :: ds =>
    match Binary64.ofInt? unit with
    | some u => sumSixties (sum.add (d.mul u)) (unit * 60) ds
    | none => .error .tooLarge

def real (text : String) : Except Fault Binary64 := do
  let (negative, body) ← unsigned (text.toList)
  let body := (Text.lower (String.ofList body)).toList
  if body = ".nan".toList then return .nan
  let x ←
    if body = ".inf".toList then pure (.infinite false)
    else if body.contains ':' then do
      let groups ← (Text.split ':' body).mapM real10
      sumSixties (Binary64.zero false) 1 groups.reverse
    else real10 body
  return if negative then x.neg else x

end TagTypes.Yaml.Numeral
