import TagTypes.Yaml.Fault

/-!
# Cursors

A cursor is a place in a text: what is left of it, and how many characters, lines and columns lie before. After the last character a cursor shows the character NUL, which stands in no settings file. A byte order mark takes no column.
-/

namespace TagTypes.Yaml

structure Cursor where
  rest : List Char
  index : Nat := 0
  line : Nat := 0
  column : Nat := 0
  deriving Inhabited

def isBreak (c : Char) : Bool :=
  c = '\n' || c = '\r' || c = '\u0085' || c = '\u2028' || c = '\u2029'

def isBreakOrEnd (c : Char) : Bool := c = '\x00' || isBreak c

def isSpaceBreakOrEnd (c : Char) : Bool := c = ' ' || isBreakOrEnd c

def isGapOrEnd (c : Char) : Bool := c = '\t' || isSpaceBreakOrEnd c

namespace Cursor

def peek (c : Cursor) : Char := c.rest.headD '\x00'

def peekAt (c : Cursor) (n : Nat) : Char := c.rest.getD n '\x00'

def next (c : Cursor) : Cursor :=
  match c.rest with
  | [] => c
  | x :: rest =>
    if isBreak x then { rest, index := c.index + 1, line := c.line + 1, column := 0 }
    else { rest, index := c.index + 1, line := c.line, column := if x = '\uFEFF' then c.column else c.column + 1 }

def skip : Nat → Cursor → Cursor
  | 0, c => c
  | n + 1, c => skip n c.next

/-- The longest run of characters satisfying `p`, and the cursor after it. -/
def span (p : Char → Bool) (c : Cursor) : List Char × Cursor :=
  let run := c.rest.takeWhile fun x => x ≠ '\x00' && p x
  (run, c.skip run.length)

def skipWhile (p : Char → Bool) (c : Cursor) : Cursor := (c.span p).2

/-- Pass the end of a line, which counts as LF unless it is one of the separators U+2028 and U+2029. -/
def lineBreak (c : Cursor) : List Char × Cursor :=
  let x := c.peek
  if x = '\n' || x = '\r' || x = '\u0085' then (['\n'], c.next)
  else if x = '\u2028' || x = '\u2029' then ([x], c.next)
  else ([], c)

/-- Three equal marks and a gap: the form of the lines between documents. -/
def isMarker (mark : Char) (c : Cursor) : Bool :=
  c.rest.take 3 = [mark, mark, mark] && isGapOrEnd (c.peekAt 3)

def isDocumentLine (c : Cursor) : Bool := c.isMarker '-' || c.isMarker '.'

def isAtEnd (c : Cursor) : Bool := c.peek = '\x00'

end Cursor

end TagTypes.Yaml
