import TagTypes.Json.Basic
import TagTypes.Number.Shortest
import TagTypes.Text.Quoted
import TagTypes.Yaml.Calendar

/-!
# Values of settings files

A settings file holds one value: a scalar, a list, a map, a set, or a list of pairs. A collection may contain itself; then it is `anchored` under a label, and where it comes again inside itself only the label stands.

The text of a value is what a setting gets that wants a text. A scalar inside a list or a map is shown in its literal form, and a value that contains itself as three points in brackets. A value in which a number has too many digits has no text, nor has one that is nested too deep.
-/

namespace TagTypes.Yaml

inductive Shape where
  | list | map | set
  deriving DecidableEq, Repr, Inhabited

inductive Value where
  | null
  | bool (value : Bool)
  | int (value : Int)
  | real (value : Binary64)
  | str (value : String)
  | bytes (value : List UInt8)
  | date (value : Date)
  | moment (value : Moment)
  | list (items : List Value)
  | map (entries : List (Value × Value))
  | set (items : List Value)
  | pairs (entries : List (Value × Value))
  | anchored (label : Nat) (body : Value)
  | again (label : Nat) (shape : Shape)
  deriving Repr, Inhabited

namespace Value

-- the instance of the core library, also where another one is imported
attribute [local instance (high)] instPowNat

/-- Whether two scalars are one key of a map. Numbers are compared by what they are worth, truth values as 0 and 1. -/
def sameKey : Value → Value → Bool
  | .null, .null => true
  | .bool a, .bool b => a = b
  | .bool a, .int n | .int n, .bool a => n = if a then 1 else 0
  | .bool a, .real x | .real x, .bool a => x.isInt (if a then 1 else 0)
  | .int a, .int b => a = b
  | .int n, .real x | .real x, .int n => x.isInt n
  | .real a, .real b => a = b || a.isZero && b.isZero
  | .str a, .str b => a = b
  | .bytes a, .bytes b => a = b
  | .date a, .date b => a = b
  | .moment a, .moment b => a.same b
  | _, _ => false

/-- Give a key its value where the key stands, or at the end. -/
def place (key value : Value) : List (Value × Value) → List (Value × Value)
  | [] => [(key, value)]
  | (k, v) :: rest => if k.sameKey key then (k, value) :: rest else (k, v) :: place key value rest

def lookup (name : String) : List (Value × Value) → Option Value
  | [] => none
  | (.str k, v) :: rest => if k = name then some v else lookup name rest
  | _ :: rest => lookup name rest

mutual

/-- The value that is anchored under a label. -/
def anchored? (label : Nat) : Value → Option Value
  | .anchored l body => if l = label then some body else anchored? label body
  | .list items | .set items => anchoredIn? label items
  | .map entries | .pairs entries => anchoredAmong? label entries
  | _ => none

def anchoredIn? (label : Nat) : List Value → Option Value
  | [] => none
  | v :: rest => (anchored? label v).or (anchoredIn? label rest)

def anchoredAmong? (label : Nat) : List (Value × Value) → Option Value
  | [] => none
  | (_, v) :: rest => (anchored? label v).or (anchoredAmong? label rest)

end

/-- What a value inside `root` is, apart from its label. -/
def opened (root : Value) : Value → Value
  | .anchored _ body => body
  | .again label shape => (anchored? label root).getD (.again label shape)
  | v => v

/-- A whole number of more digits than a text may have. -/
def isTooLong (n : Int) : Bool := 10 ^ Text.maxDigits ≤ n.natAbs

mutual

/-- Whether a number without a text stands in a value. -/
def hasTooLong : Value → Bool
  | .int n => isTooLong n
  | .list items | .set items => hasTooLongIn items
  | .map entries | .pairs entries => hasTooLongAmong entries
  | .anchored _ body => hasTooLong body
  | _ => false

def hasTooLongIn : List Value → Bool
  | [] => false
  | v :: rest => hasTooLong v || hasTooLongIn rest

def hasTooLongAmong : List (Value × Value) → Bool
  | [] => false
  | (k, v) :: rest => hasTooLong k || hasTooLong v || hasTooLongAmong rest

end

def byteLiteral (quote : Char) (b : UInt8) : List Char :=
  let c := Char.ofNat b.toNat
  if c = quote || c = '\\' then ['\\', c]
  else if c = '\t' then ['\\', 't']
  else if c = '\n' then ['\\', 'n']
  else if c = '\r' then ['\\', 'r']
  else if b < 32 || 127 ≤ b then '\\' :: 'x' :: Text.hexDigits 2 b.toNat
  else [c]

/-- Bytes as quoted text with the mark `b` in front. -/
def bytesLiteral (bs : List UInt8) : List Char :=
  let quote := if bs.contains 39 && !bs.contains 34 then '"' else '\''
  'b' :: quote :: bs.flatMap (byteLiteral quote) ++ [quote]

def ellipsis : Shape → List Char
  | .list => "[...]".toList
  | .map => "\x7b...\x7d".toList
  | .set => "set(...)".toList

/-- The shape of a collection; one of pairs is a list. -/
def shape : Value → Shape
  | .map _ => .map
  | .set _ => .set
  | _ => .list

/-- The literal form of a scalar that is no whole number. -/
def scalarLiteral : Value → List Char
  | .null => "None".toList
  | .bool b => if b then "True".toList else "False".toList
  | .real x => Binary64.print Binary64.plainStyle x
  | .str s => Text.quotedChars s.toList
  | .bytes bs => bytesLiteral bs
  | .date d => d.literal.toList
  | .moment m => m.literal.toList
  | _ => []

def commaSeparated (pieces : List (List Char)) : List Char := (List.intersperse ", ".toList pieces).flatten

/-- Why a value has no text: a number in it has too many digits, or it is nested too deep. -/
inductive ShowFault where
  | tooManyDigits
  | tooDeep
  deriving DecidableEq, Repr

/-- How deep the collections may be nested in a value that has a text. -/
def maxShownDepth : Nat := 970

/-- Go into a value inside `root`, past its label. `path` lists the labels that are open; a collection whose label is open is not gone into again. -/
def entered (root : Value) (path : List Nat) : Value → Except Shape (List Nat × Value)
  | .anchored label body => if path.contains label then .error body.shape else .ok (label :: path, body)
  | .again label shape =>
    if path.contains label then .error shape
    else ((anchored? label root).map fun body => (label :: path, body)).elim (.error shape) .ok
  | v => .ok (path, v)

/-- The literal form of a value inside `root`, in which collections may be nested `depth` deep. The items of a set are shown as those of a list inside it, and a pair is a collection of its own. -/
def literalChars (root : Value) : Nat → List Nat → Value → Except ShowFault (List Char)
  | 0, _, _ => .error .tooDeep
  | depth + 1, path, v =>
    match entered root path v with
    | .error shape => .ok (ellipsis shape)
    | .ok (path, .list items) =>
      return '[' :: commaSeparated (← items.mapM (literalChars root depth path)) ++ [']']
    | .ok (path, .map entries) =>
      return '{' :: commaSeparated (← entries.mapM fun (k, v) => do
        let key ← literalChars root depth path k
        return key ++ ':' :: ' ' :: (← literalChars root depth path v)) ++ ['}']
    | .ok (_, .set []) => .ok "set()".toList
    | .ok (_, .pairs []) => .ok "[]".toList
    | .ok (path, .set items) =>
      match depth with
      | 0 => .error .tooDeep
      | inner + 1 => return '{' :: commaSeparated (← items.mapM (literalChars root inner path)) ++ ['}']
    | .ok (path, .pairs entries) =>
      match depth with
      | 0 => .error .tooDeep
      | inner + 1 =>
        return '[' :: commaSeparated (← entries.mapM fun (k, v) => do
          let key ← literalChars root inner path k
          return '(' :: key ++ ',' :: ' ' :: (← literalChars root inner path v) ++ [')']) ++ [']']
    | .ok (_, .int n) => if isTooLong n then .error .tooManyDigits else .ok (Text.intText n).toList
    | .ok (_, v) => .ok (scalarLiteral v)

/-- The literal form of a value inside `root`. -/
def literal (root v : Value) : Except ShowFault (List Char) := literalChars root maxShownDepth [] v

/-- The text of a value inside `root`. -/
def text (root : Value) : Value → Except ShowFault String
  | .str s => .ok s
  | .date d => .ok d.text
  | .moment m => .ok m.text
  | v => (literal root v).map String.ofList

mutual

def ofJson : Json → Value
  | .null => .null
  | .bool b => .bool b
  | .int n => .int n
  | .real x => .real x
  | .str s => .str s
  | .arr items => .list (ofJsonItems items)
  | .obj fields => .map (ofJsonFields fields)

def ofJsonItems : List Json → List Value
  | [] => []
  | v :: rest => ofJson v :: ofJsonItems rest

def ofJsonFields : List (String × Json) → List (Value × Value)
  | [] => []
  | (name, v) :: rest => (.str name, ofJson v) :: ofJsonFields rest

end

end Value

end TagTypes.Yaml
