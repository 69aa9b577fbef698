import TagTypes.Json.Basic
import TagTypes.Number.Shortest

/-!
# Writing JSON

Two forms of text for a value. The compact form is one line of printable ASCII, with a blank after each comma and colon; all other characters are escaped as UTF-16 units. The indented form puts every item on a line of its own, two blanks deeper than its list, and keeps all characters that may stand in a string.
-/

namespace TagTypes.Json

namespace Printer

def hexDigit (n : Nat) : Char := if n < 10 then Char.ofNat (48 + n) else Char.ofNat (87 + n)

def hexUnit (n : Nat) : List Char :=
  [hexDigit (n / 4096 % 16), hexDigit (n / 256 % 16), hexDigit (n / 16 % 16), hexDigit (n % 16)]

def unitEscape (n : Nat) : List Char := '\\' :: 'u' :: hexUnit n

/-- The escape with a letter of its own, if there is one. -/
def shortEscape? : Char → Option Char
  | '"' => some '"'
  | '\\' => some '\\'
  | '\n' => some 'n'
  | '\r' => some 'r'
  | '\t' => some 't'
  | '\x08' => some 'b'
  | '\x0c' => some 'f'
  | _ => none

/-- A character as one or two escaped UTF-16 units. -/
def escapeUnits (c : Char) : List Char :=
  let n := c.toNat
  if n < 0x10000 then unitEscape n
  else unitEscape (0xd800 + (n - 0x10000) / 0x400) ++ unitEscape (0xdc00 + (n - 0x10000) % 0x400)

/-- A character inside a string, where only printable ASCII may stand. -/
def asciiChar (c : Char) : List Char :=
  match shortEscape? c with
  | some letter => ['\\', letter]
  | none => if 32 ≤ c.toNat && c.toNat < 127 then [c] else escapeUnits c

/-- A character inside a string, where all but the controls may stand. -/
def anyChar (c : Char) : List Char :=
  match shortEscape? c with
  | some letter => ['\\', letter]
  | none => if c.toNat < 32 then unitEscape c.toNat else [c]

def quoted (char : Char → List Char) (s : String) : List Char :=
  '"' :: s.toList.flatMap char ++ ['"']

def numberStyle : Binary64.PrintStyle where
  nan := "NaN"
  infinity := "Infinity"

def boolText (b : Bool) : List Char := if b then "true".toList else "false".toList

mutual

def compact : Json → List Char
  | .null => "null".toList
  | .bool b => boolText b
  | .int n => (Text.intText n).toList
  | .real x => Binary64.print numberStyle x
  | .str s => quoted asciiChar s
  | .arr items => '[' :: compactItems items ++ [']']
  | .obj fields => '{' :: compactFields fields ++ ['}']

def compactItems : List Json → List Char
  | [] => []
  | [v] => compact v
  | v :: rest => compact v ++ ',' :: ' ' :: compactItems rest

def compactFields : List (String × Json) → List Char
  | [] => []
  | [(name, v)] => quoted asciiChar name ++ ':' :: ' ' :: compact v
  | (name, v) :: rest => quoted asciiChar name ++ ':' :: ' ' :: compact v ++ ',' :: ' ' :: compactFields rest

end

/-- A new line, indented by `depth` steps. -/
def newline (depth : Nat) : List Char := '\n' :: List.replicate (2 * depth) ' '

mutual

/-- The indented form of a value whose line begins `depth` steps in. -/
def indented (depth : Nat) : Json → List Char
  | .null => "null".toList
  | .bool b => boolText b
  | .int n => (Text.intText n).toList
  | .real x => Binary64.print numberStyle x
  | .str s => quoted anyChar s
  | .arr [] => ['[', ']']
  | .arr (v :: rest) => '[' :: indentedItems (depth + 1) (v :: rest) ++ newline depth ++ [']']
  | .obj [] => ['{', '}']
  | .obj (f :: rest) => '{' :: indentedFields (depth + 1) (f :: rest) ++ newline depth ++ ['}']

def indentedItems (depth : Nat) : List Json → List Char
  | [] => []
  | [v] => newline depth ++ indented depth v
  | v :: rest => newline depth ++ indented depth v ++ ',' :: indentedItems depth rest

def indentedFields (depth : Nat) : List (String × Json) → List Char
  | [] => []
  | [(name, v)] => newline depth ++ quoted anyChar name ++ ':' :: ' ' :: indented depth v
  | (name, v) :: rest =>
    newline depth ++ quoted anyChar name ++ ':' :: ' ' :: indented depth v ++ ',' :: indentedFields depth rest

end

end Printer

/-- The one-line ASCII text of a value. -/
def compactText (v : Json) : String := String.ofList (Printer.compact v)

/-- The text of a value over several lines. -/
def indentedText (v : Json) : String := String.ofList (Printer.indented 0 v)

end TagTypes.Json
