import TagTypes.Yaml.Entry
import TagTypes.Yaml.Tag

/-!
# Writing settings files

Entries are written one to a line, those of a group indented by two more columns. A text is written plain if it then reads back as a text, otherwise in single quotes, and in double quotes with escapes if it holds more than the printable characters of ASCII and line ends. A long text goes on in the next line, indented like a group, wherever it has a single space after column `width`.
-/

namespace TagTypes.Yaml.Writer

def width : Nat := 80

/-! ## The style of a text -/

inductive Style where
  | plain | single | double
  deriving DecidableEq, Repr

def isPrintable (c : Char) : Bool := ' ' ≤ c && c ≤ '~'

def isGap : Option Char → Bool
  | none => true
  | some c => isGapOrEnd c

/-- The marks that no plain text begins with. -/
def isIndicator (c : Char) : Bool := "#,[]\x7b\x7d&*!|>'\"%@`".toList.contains c

/-- Whether a text begins like something else than a plain text. -/
def startsMarked (cs : List Char) : Bool :=
  cs.take 3 = "---".toList || cs.take 3 = "...".toList ||
    match cs with
    | c :: rest => isIndicator c || ((c = '?' || c = ':' || c = '-') && isGap rest.head?)
    | [] => false

/-- Whether a mark inside a text would end it: a colon before a gap, or a sharp after one. -/
def hasMark : List Char → Bool
  | a :: b :: rest => (b = ':' && isGap rest.head?) || (b = '#' && isGapOrEnd a) || hasMark (b :: rest)
  | _ => false

def hasPair (a b : Char) : List Char → Bool
  | x :: y :: rest => (x = a && y = b) || hasPair a b (y :: rest)
  | _ => false

def isEdge (c : Option Char) : Bool := c = some ' ' || c = some '\n'

def style (text : String) : Style :=
  let cs := text.toList
  if hasPair ' ' '\n' cs || hasPair '\n' ' ' cs || cs.any fun c => !(c = '\n' || isPrintable c) then .double
  else if Tag.ofPlain text ≠ .str || cs.contains '\n' || isEdge cs.head? || isEdge cs.getLast? || startsMarked cs ||
      hasMark cs then .single
  else .plain

/-! ## Texts -/

def blanks (n : Nat) : List Char := List.replicate n ' '

/-- A space or a line end; all other characters are of one kind. -/
def separator? (c : Char) : Option Char := if c = ' ' || c = '\n' then some c else none

/-- Cut a text into runs of spaces, of line ends, and of other characters. -/
def runs (cs : List Char) : List (List Char) := cs.splitBy fun a b => separator? a = separator? b

/-- Write runs from `column` on. A line end is written as an empty line. -/
def writeRuns (quote : Char → List Char) (indent : Nat) : Nat → Bool → List (List Char) → List Char
  | _, _, [] => []
  | column, isFirst, run :: rest =>
    match run.head? with
    | some ' ' =>
      if run.length = 1 && width < column && !isFirst && !rest.isEmpty then
        '\n' :: blanks indent ++ writeRuns quote indent indent false rest
      else run ++ writeRuns quote indent (column + run.length) false rest
    | some '\n' =>
      List.replicate (run.length + 1) '\n' ++ blanks indent ++ writeRuns quote indent indent false rest
    | _ =>
      let word := run.flatMap quote
      word ++ writeRuns quote indent (column + word.length) false rest

def upperHexDigits (count n : Nat) : List Char := (Text.hexDigits count n).map Char.toUpper

def escape (c : Char) : List Char :=
  '\\' :: match c with
    | '\x00' => ['0']
    | '\x07' => ['a']
    | '\x08' => ['b']
    | '\t' => ['t']
    | '\n' => ['n']
    | '\x0b' => ['v']
    | '\x0c' => ['f']
    | '\r' => ['r']
    | '\x1b' => ['e']
    | '"' => ['"']
    | '\\' => ['\\']
    | '\u0085' => ['N']
    | '\u00a0' => ['_']
    | '\u2028' => ['L']
    | '\u2029' => ['P']
    | c =>
      if c.toNat < 0x100 then 'x' :: upperHexDigits 2 c.toNat
      else if c.toNat < 0x10000 then 'u' :: upperHexDigits 4 c.toNat
      else 'U' :: upperHexDigits 8 c.toNat

/-- The end of a line inside double quotes. A space at the beginning of the next line is kept by a backslash. -/
def turn (indent : Nat) (next : Option Char) : List Char :=
  '\\' :: '\n' :: blanks indent ++ if next = some ' ' then ['\\'] else []

def turnColumn (indent : Nat) (next : Option Char) : Nat := if next = some ' ' then indent + 1 else indent

/-- Write a text inside double quotes from `column` on. A line may end at a space and on either side of an escape. -/
def writeEscaped (indent : Nat) : Nat → Bool → Bool → List Char → List Char
  | _, _, _, [] => []
  | column, isFirst, afterEscape, c :: rest =>
    let mayTurn := !isFirst && !rest.isEmpty
    if isPrintable c && c ≠ '"' && c ≠ '\\' then
      if mayTurn && (c = ' ' || afterEscape) && width < column then
        turn indent (some c) ++ c :: writeEscaped indent (turnColumn indent (some c) + 1) false false rest
      else c :: writeEscaped indent (column + 1) false false rest
    else
      let piece := escape c
      let after := column + piece.length
      if mayTurn && width < after - 1 then
        piece ++ turn indent rest.head? ++ writeEscaped indent (turnColumn indent rest.head?) false true rest
      else piece ++ writeEscaped indent after false true rest

def doubleQuote (c : Char) : List Char := if c = '\'' then ['\'', '\''] else [c]

def writeText (indent column : Nat) (text : String) : List Char :=
  let cs := text.toList
  match style text with
  | .plain => writeRuns ([·]) indent column true (runs cs)
  | .single => '\'' :: writeRuns doubleQuote indent (column + 1) true (runs cs) ++ ['\'']
  | .double => '"' :: writeEscaped indent (column + 1) true false cs ++ ['"']

/-! ## Entries -/

mutual

/-- Write an entry after its name, which ends before `column`. -/
def writeEntry (indent column : Nat) : Entry → List Char
  | .text s => ' ' :: writeText (indent + 2) (column + 1) s ++ ['\n']
  | .int n => ' ' :: (Text.intText n).toList ++ ['\n']
  | .bool b => ' ' :: (if b then "true" else "false").toList ++ ['\n']
  | .group [] => " \x7b\x7d\n".toList
  | .group (first :: rest) => '\n' :: writeEntries (indent + 2) (first :: rest)

def writeEntries (indent : Nat) : List (String × Entry) → List Char
  | [] => []
  | (name, entry) :: rest =>
    blanks indent ++ name.toList ++ ':' :: writeEntry indent (indent + name.length + 1) entry ++
      writeEntries indent rest

end

end Writer

def write (entries : List (String × Entry)) : String := String.ofList (Writer.writeEntries 0 entries)

end TagTypes.Yaml
