import TagTypes.Json.Basic
import TagTypes.Number.Shortest

/-!
# Reading JSON

Reading takes the longest value at the front of a list of characters and returns what follows it. A fault is kept with the characters that begin at the faulty place, so its offset in the text is the difference of two lengths. Each step of the reader uses up a character or turns from a list to its first element, which bounds the number of steps by twice the length of the text.

Beyond the standard the words `NaN`, `Infinity` and `-Infinity` are numbers, a whole number may have at most 4300 digits, and lists and objects may be nested `maxDepth` deep.
-/

namespace TagTypes.Json

inductive Fault where
  | expectingValue
  | expectingName
  | expectingColon
  | expectingComma
  | unterminatedString
  | controlCharacter
  | invalidEscape
  | invalidHexEscape
  | extraData
  | byteOrderMark
  deriving DecidableEq, Repr

def Fault.message : Fault → String
  | .expectingValue => "Expecting value"
  | .expectingName => "Expecting property name enclosed in double quotes"
  | .expectingColon => "Expecting ':' delimiter"
  | .expectingComma => "Expecting ',' delimiter"
  | .unterminatedString => "Unterminated string starting at"
  | .controlCharacter => "Invalid control character at"
  | .invalidEscape => "Invalid \\escape"
  | .invalidHexEscape => "Invalid \\uXXXX escape"
  | .extraData => "Extra data"
  | .byteOrderMark => "Unexpected UTF-8 BOM (decode using utf-8-sig)"

inductive ReadError where
  | malformed (fault : Fault) (line column offset : Nat)
  | tooManyDigits (digits : Nat)
  | tooDeep (collection : String)
  deriving DecidableEq, Repr

def ReadError.message : ReadError → String
  | .malformed fault line column offset =>
    fault.message ++ ": line " ++ Text.natText line ++ " column " ++ Text.natText column ++
      " (char " ++ Text.natText offset ++ ")"
  | .tooManyDigits digits => Text.overlongText digits
  | .tooDeep collection =>
    "maximum recursion depth exceeded while decoding a JSON " ++ collection ++ " from a unicode string"

def maxDepth : Nat := 990

namespace Reader

/-- Why reading stopped; a fault comes with the characters from the faulty place on. -/
inductive Stop where
  | fault (fault : Fault) (rest : List Char)
  | tooManyDigits (digits : Nat)
  | tooDeep (collection : String)

def isSpace (c : Char) : Bool := c = ' ' || c = '\t' || c = '\n' || c = '\r'

def skipSpace (cs : List Char) : List Char := cs.dropWhile isSpace

def hexValue? (c : Char) : Option Nat :=
  if '0' ≤ c && c ≤ '9' then some (c.toNat - 48)
  else if 'a' ≤ c && c ≤ 'f' then some (c.toNat - 87)
  else if 'A' ≤ c && c ≤ 'F' then some (c.toNat - 55)
  else none

/-- The character for the letter after a backslash, except `u`. -/
def simpleEscape? : Char → Option Char
  | '"' => some '"'
  | '\\' => some '\\'
  | '/' => some '/'
  | 'b' => some '\x08'
  | 'f' => some '\x0c'
  | 'n' => some '\n'
  | 'r' => some '\r'
  | 't' => some '\t'
  | _ => none

def hexUnit? (a b c d : Char) : Option Nat :=
  match hexValue? a, hexValue? b, hexValue? c, hexValue? d with
  | some a, some b, some c, some d => some (((a * 16 + b) * 16 + c) * 16 + d)
  | _, _, _, _ => none

/-- The units of a string up to its closing quote, and what follows: code points, with the halves of surrogate pairs written by escapes still apart. `start` is the text from the opening quote on. An escape by four digits needs a character after them. -/
def stringUnits (start : List Char) : List Char → Except Stop (List Nat × List Char)
  | [] => .error (.fault .unterminatedString start)
  | '"' :: rest => .ok ([], rest)
  | '\\' :: 'u' :: a :: b :: c :: d :: e :: rest =>
    match hexUnit? a b c d with
    | none => .error (.fault .invalidHexEscape ('u' :: a :: b :: c :: d :: e :: rest))
    | some unit => do
      let (units, rest) ← stringUnits start (e :: rest)
      return (unit :: units, rest)
  | '\\' :: 'u' :: rest => .error (.fault .invalidHexEscape ('u' :: rest))
  | '\\' :: c :: rest =>
    match simpleEscape? c with
    | none => .error (.fault .invalidEscape ('\\' :: c :: rest))
    | some escaped => do
      let (units, rest) ← stringUnits start rest
      return (escaped.toNat :: units, rest)
  | ['\\'] => .error (.fault .unterminatedString start)
  | c :: rest =>
    if c.toNat < 32 then .error (.fault .controlCharacter (c :: rest))
    else do
      let (units, rest) ← stringUnits start rest
      return (c.toNat :: units, rest)

def isHighSurrogate (unit : Nat) : Bool := 0xd800 ≤ unit && unit < 0xdc00

def isLowSurrogate (unit : Nat) : Bool := 0xdc00 ≤ unit && unit < 0xe000

/-- Join surrogate pairs. A half without its other half has no character of its own and becomes the replacement character. -/
def joinUnits : List Nat → List Char
  | [] => []
  | [unit] => [if 0xd800 ≤ unit && unit < 0xe000 then '\ufffd' else Char.ofNat unit]
  | high :: low :: rest =>
    if isHighSurrogate high && isLowSurrogate low then
      Char.ofNat (0x10000 + (high - 0xd800) * 0x400 + (low - 0xdc00)) :: joinUnits rest
    else
      (if 0xd800 ≤ high && high < 0xe000 then '\ufffd' else Char.ofNat high) :: joinUnits (low :: rest)

/-- A string after its opening quote; `start` is the text from that quote on. -/
def string (start rest : List Char) : Except Stop (String × List Char) := do
  let (units, rest) ← stringUnits start rest
  return (String.ofList (joinUnits units), rest)

def digits (cs : List Char) : List Char × List Char := (cs.takeWhile Char.isDigit, cs.dropWhile Char.isDigit)

/-- A point with at least one digit after it, or nothing. -/
def fraction : List Char → List Char × List Char
  | '.' :: rest =>
    let (ds, after) := digits rest
    if ds.isEmpty then ([], '.' :: rest) else ('.' :: ds, after)
  | cs => ([], cs)

/-- An exponent with at least one digit, or nothing. -/
def exponent (cs : List Char) : List Char × List Char :=
  let withSign (mark : List Char) (rest : List Char) : List Char × List Char :=
    let (ds, after) := digits rest
    if ds.isEmpty then ([], cs) else (mark ++ ds, after)
  match cs with
  | 'e' :: '+' :: rest | 'E' :: '+' :: rest => withSign ['e', '+'] rest
  | 'e' :: '-' :: rest | 'E' :: '-' :: rest => withSign ['e', '-'] rest
  | 'e' :: rest | 'E' :: rest => withSign ['e'] rest
  | _ => ([], cs)

/-- The whole part of a number: a zero alone, or digits that do not begin with zero. -/
def wholePart : List Char → Option (List Char × List Char)
  | '0' :: rest => some (['0'], rest)
  | cs =>
    let (ds, rest) := digits cs
    if ds.isEmpty then none else some (ds, rest)

def decimalValue (ds : List Char) : Nat := Text.ofDigits 10 (ds.map fun d => d.toNat - 48)

/-- A number at the front of `cs`: the longest that fits. With a fraction or an exponent it is a floating point number. -/
def number (cs : List Char) : Except Stop (Json × List Char) :=
  let (negative, body) := match cs with
    | '-' :: rest => (true, rest)
    | _ => (false, cs)
  match wholePart body with
  | none => .error (.fault .expectingValue cs)
  | some (whole, rest) =>
    let (frac, rest) := fraction rest
    let (exp, rest) := exponent rest
    if frac.isEmpty && exp.isEmpty then
      if whole.length ≤ Text.maxDigits then .ok (.int (Text.signed negative (decimalValue whole)), rest)
      else .error (.tooManyDigits whole.length)
    else .ok (.real (Binary64.readDecimal ((if negative then ['-'] else []) ++ whole ++ frac ++ exp)), rest)

/-- What follows `word` at the front of the text. -/
def after? : List Char → List Char → Option (List Char)
  | [], cs => some cs
  | _, [] => none
  | w :: word, c :: cs => if w = c then after? word cs else none

def words : List (List Char × Json) :=
  [("null".toList, .null), ("true".toList, .bool true), ("false".toList, .bool false),
   ("NaN".toList, .real .nan), ("Infinity".toList, .real (.infinite false)),
   ("-Infinity".toList, .real (.infinite true))]

def word? (cs : List Char) : Option (Json × List Char) :=
  words.findSome? fun (word, value) => (after? word cs).map (value, ·)

mutual

/-- The value at the front of the text, nested at most `depth` deep. -/
def value : Nat → Nat → List Char → Except Stop (Json × List Char)
  | 0, _, cs => .error (.fault .expectingValue cs)
  | fuel + 1, depth, cs =>
    match cs with
    | '"' :: rest => do
      let (s, rest) ← string cs rest
      return (.str s, rest)
    | '[' :: rest =>
      match depth with
      | 0 => .error (.tooDeep "array")
      | depth + 1 =>
        match skipSpace rest with
        | ']' :: rest => .ok (.arr [], rest)
        | rest => do
          let (items, rest) ← items fuel depth rest
          return (.arr items, rest)
    | '{' :: rest =>
      match depth with
      | 0 => .error (.tooDeep "object")
      | depth + 1 =>
        match skipSpace rest with
        | '}' :: rest => .ok (.obj [], rest)
        | rest => do
          let (fields, rest) ← fields fuel depth rest
          return (.ofFields fields, rest)
    | _ =>
      match word? cs with
      | some found => .ok found
      | none => number cs

/-- The items of a list up to its closing bracket. -/
def items : Nat → Nat → List Char → Except Stop (List Json × List Char)
  | 0, _, cs => .error (.fault .expectingValue cs)
  | fuel + 1, depth, cs => do
    let (item, rest) ← value fuel depth cs
    match skipSpace rest with
    | ']' :: rest => return ([item], rest)
    | ',' :: rest =>
      let (more, rest) ← items fuel depth (skipSpace rest)
      return (item :: more, rest)
    | rest => .error (.fault .expectingComma rest)

/-- The fields of an object up to its closing brace, as written. -/
def fields : Nat → Nat → List Char → Except Stop (List (String × Json) × List Char)
  | 0, _, cs => .error (.fault .expectingName cs)
  | fuel + 1, depth, cs =>
    match cs with
    | '"' :: rest => do
      let (name, rest) ← string cs rest
      match skipSpace rest with
      | ':' :: rest =>
        let (v, rest) ← value fuel depth (skipSpace rest)
        match skipSpace rest with
        | '}' :: rest => return ([(name, v)], rest)
        | ',' :: rest =>
          let (more, rest) ← fields fuel depth (skipSpace rest)
          return ((name, v) :: more, rest)
        | rest => .error (.fault .expectingComma rest)
      | rest => .error (.fault .expectingColon rest)
    | _ => .error (.fault .expectingName cs)

end

/-- A whole text: one value with nothing but space around it. -/
def document (text : List Char) : Except Stop Json :=
  match text with
  | '\ufeff' :: _ => .error (.fault .byteOrderMark text)
  | _ => do
    let (v, rest) ← value (2 * text.length + 2) maxDepth (skipSpace text)
    match skipSpace rest with
    | [] => return v
    | rest => .error (.fault .extraData rest)

/-- Line and column, both counted from one, of the place behind `before`. -/
def position (before : List Char) : Nat × Nat :=
  (before.count '\n' + 1, (before.reverse.takeWhile (· ≠ '\n')).length + 1)

def Stop.toError (text : List Char) : Stop → ReadError
  | .fault what rest =>
    let offset := text.length - rest.length
    let (line, column) := position (text.take offset)
    .malformed what line column offset
  | .tooManyDigits digits => .tooManyDigits digits
  | .tooDeep collection => .tooDeep collection

end Reader

def read (text : String) : Except ReadError Json :=
  (Reader.document text.toList).mapError (Reader.Stop.toError text.toList)

end TagTypes.Json
