import TagTypes.Yaml.Cursor

/-!
# Scalars of settings files

A scalar is written plain, in single or double quotes, or as a block of indented lines. Each reader starts at the first character of the scalar and gives its text and the cursor after it.

A scalar may run over several lines. A line end inside it counts as a space, unless empty lines follow, which then are the line ends of the text; a block keeps its lines unless it is folded.
-/

namespace TagTypes.Yaml.Scalar

/-! ## Quoted scalars -/

/-- Skip the blanks and empty lines after a line end inside a quoted scalar; the empty lines are kept. -/
def quotedBreaks : Nat → Cursor → Except Fault (List Char × Cursor)
  | 0, _ => .error .malformed
  | fuel + 1, c =>
    if c.isDocumentLine then .error .malformed
    else
      let c := c.skipWhile fun x => x = ' ' || x = '\t'
      if isBreak c.peek then do
        let (ending, c) := c.lineBreak
        let (more, c) ← quotedBreaks fuel c
        return (ending ++ more, c)
      else .ok ([], c)

/-- What a line end counts as, followed by the empty lines after it. -/
def folded (ending breaks : List Char) : List Char :=
  if ending ≠ ['\n'] then ending ++ breaks
  else if breaks.isEmpty then [' ']
  else breaks

/-- The blanks and line ends between the words of a quoted scalar. -/
def quotedSpaces (c : Cursor) : Except Fault (List Char × Cursor) :=
  let (blanks, c) := c.span fun x => x = ' ' || x = '\t'
  if c.isAtEnd then .error .malformed
  else if isBreak c.peek then do
    let (ending, c) := c.lineBreak
    let (breaks, c) ← quotedBreaks (c.rest.length + 1) c
    return (folded ending breaks, c)
  else .ok (blanks, c)

def shortEscape? : Char → Option Char
  | '0' => some '\x00'
  | 'a' => some '\x07'
  | 'b' => some '\x08'
  | 't' => some '\t'
  | '\t' => some '\t'
  | 'n' => some '\n'
  | 'v' => some '\x0b'
  | 'f' => some '\x0c'
  | 'r' => some '\r'
  | 'e' => some '\x1b'
  | ' ' => some ' '
  | '"' => some '"'
  | '\\' => some '\\'
  | '/' => some '/'
  | 'N' => some '\u0085'
  | '_' => some '\u00a0'
  | 'L' => some '\u2028'
  | 'P' => some '\u2029'
  | _ => none

def codeLength? : Char → Option Nat
  | 'x' => some 2
  | 'u' => some 4
  | 'U' => some 8
  | _ => none

def hexValue? (c : Char) : Option Nat :=
  if c.isDigit then some (c.toNat - 48)
  else if 'a' ≤ c && c ≤ 'f' then some (c.toNat - 87)
  else if 'A' ≤ c && c ≤ 'F' then some (c.toNat - 55)
  else none

def hexNumber (cs : List Char) : Option Nat :=
  (cs.mapM hexValue?).map fun digits => digits.foldl (fun n d => n * 16 + d) 0

/-- The character of a code point; half of a surrogate pair is no character and is shown as U+FFFD. -/
def character (code : Nat) : Except Fault Char :=
  if 0x10ffff < code then .error (.noCharacter code)
  else if 0xd800 ≤ code && code ≤ 0xdfff then .ok '\uFFFD'
  else .ok (Char.ofNat code)

def escape (c : Cursor) : Except Fault (List Char × Cursor) :=
  match shortEscape? c.peek with
  | some x => .ok ([x], c.next)
  | none =>
    match codeLength? c.peek with
    | some length =>
      let digits := c.next.rest.take length
      match if digits.length = length then hexNumber digits else none with
      | some code => (character code).map fun x => ([x], c.next.skip length)
      | none => .error .malformed
    | none =>
      if isBreak c.peek then
        let c := c.lineBreak.2
        quotedBreaks (c.rest.length + 1) c
      else .error .malformed

def isWordChar (x : Char) : Bool := !(x = '\'' || x = '"' || x = '\\' || isGapOrEnd x)

/-- A character of a quoted word that is not read as it is, and the cursor after it; nothing at the end of the word. -/
def quotedMark (double : Bool) (c : Cursor) : Except Fault (Option (List Char × Cursor)) :=
  let x := c.peek
  if !double && x = '\'' && c.peekAt 1 = '\'' then .ok (some (['\''], c.skip 2))
  else if (double && x = '\'') || (!double && (x = '"' || x = '\\')) then .ok (some ([x], c.next))
  else if double && x = '\\' then (escape c.next).map some
  else .ok none

/-- A word of a quoted scalar, up to a blank, a line end or the closing quote. -/
def quotedWord (double : Bool) : Nat → Cursor → Except Fault (List Char × Cursor)
  | 0, _ => .error .malformed
  | fuel + 1, c => do
    let (run, c) := c.span isWordChar
    match ← quotedMark double c with
    | some (piece, c) =>
      let (more, c) ← quotedWord double fuel c
      return (run ++ piece ++ more, c)
    | none => return (run, c)

def quotedRest (quote : Char) : Nat → Cursor → Except Fault (List Char × Cursor)
  | 0, _ => .error .malformed
  | fuel + 1, c =>
    if c.peek = quote then .ok ([], c.next)
    else do
      let (spaces, c) ← quotedSpaces c
      let (word, c) ← quotedWord (quote = '"') (c.rest.length + 1) c
      let (more, c) ← quotedRest quote fuel c
      return (spaces ++ word ++ more, c)

def quoted (c : Cursor) : Except Fault (String × Cursor) := do
  let quote := c.peek
  let (word, c) ← quotedWord (quote = '"') (c.next.rest.length + 1) c.next
  let (more, c) ← quotedRest quote (c.rest.length + 1) c
  return (String.ofList (word ++ more), c)

/-! ## Plain scalars -/

/-- The empty lines after a line end inside a plain scalar; nothing if a line between documents follows. -/
def plainBreaks : Nat → Cursor → Option (List Char) × Cursor
  | 0, c => (some [], c)
  | fuel + 1, c =>
    if c.peek = ' ' then plainBreaks fuel c.next
    else if isBreak c.peek then
      let (ending, c) := c.lineBreak
      if c.isDocumentLine then (none, c)
      else
        let (more, c) := plainBreaks fuel c
        (more.map (ending ++ ·), c)
    else (some [], c)

/-- The space between two words of a plain scalar, whether a line ends in it, and the cursor after it. -/
def plainSpaces (c : Cursor) : List Char × Bool × Cursor :=
  let (blanks, c) := c.span (· = ' ')
  if isBreak c.peek then
    let (ending, c) := c.lineBreak
    if c.isDocumentLine then ([], true, c)
    else
      match plainBreaks (c.rest.length + 1) c with
      | (some breaks, c) => (folded ending breaks, true, c)
      | (none, c) => ([], true, c)
  else (blanks, false, c)

def isFlowMark (c : Char) : Bool := c = ',' || c = '[' || c = ']' || c = '\x7b' || c = '\x7d'

/-- The word of a plain scalar at the beginning of a text. -/
def plainWord (inFlow : Bool) : List Char → List Char
  | [] => []
  | x :: rest =>
    let following := rest.headD '\x00'
    if isGapOrEnd x || (x = ':' && (isGapOrEnd following || (inFlow && isFlowMark following))) ||
        (inFlow && (x = '?' || isFlowMark x)) then []
    else x :: plainWord inFlow rest

structure Plain where
  text : List Char
  /-- The scalar ended at a line end, so that a key may follow. -/
  endsLine : Bool
  cursor : Cursor

/-- The words of a plain scalar, with the space `before` in front of the first. -/
def plainWords (inFlow : Bool) (indent : Int) : Nat → List Char → Bool → Cursor → Plain
  | 0, _, endsLine, c => ⟨[], endsLine, c⟩
  | fuel + 1, before, endsLine, c =>
    let word := if c.peek = '#' then [] else plainWord inFlow c.rest
    if word.isEmpty then ⟨[], endsLine, c⟩
    else
      let (spaces, endsLine, c) := plainSpaces (c.skip word.length)
      if spaces.isEmpty || c.peek = '#' || (!inFlow && (c.column : Int) < indent) then ⟨before ++ word, endsLine, c⟩
      else
        let more := plainWords inFlow indent fuel spaces endsLine c
        { more with text := before ++ word ++ more.text }

/-- A plain scalar, whose later lines are indented at least by `indent` unless it stands in a flow collection. -/
def plain (inFlow : Bool) (indent : Int) (c : Cursor) : Plain :=
  plainWords inFlow indent (c.rest.length + 1) [] false c

/-! ## Blocks -/

/-- What becomes of the line ends after a block. -/
inductive Chomping where
  | clip | strip | keep
  deriving DecidableEq, Repr

/-- The end of a line with nothing but blanks and a comment. -/
def ignoredLine (c : Cursor) : Except Fault Cursor :=
  let c := c.skipWhile (· = ' ')
  let c := if c.peek = '#' then c.skipWhile (!isBreakOrEnd ·) else c
  if isBreakOrEnd c.peek then .ok c.lineBreak.2 else .error .malformed

def chomping? (c : Cursor) : Option Chomping :=
  if c.peek = '+' then some .keep else if c.peek = '-' then some .strip else none

def increment? (c : Cursor) : Except Fault (Option Nat) :=
  if c.peek = '0' then .error .malformed
  else if c.peek.isDigit then .ok (some (c.peek.toNat - 48))
  else .ok none

/-- The chomping and the indentation in the first line of a block. -/
def blockHeader (c : Cursor) : Except Fault (Chomping × Option Nat × Cursor) := do
  let (chomping, increment, c) ←
    match chomping? c with
    | some chomping => do
      let c := c.next
      match ← increment? c with
      | some n => pure (chomping, some n, c.next)
      | none => pure (chomping, none, c)
    | none => do
      match ← increment? c with
      | some n =>
        let c := c.next
        match chomping? c with
        | some chomping => pure (chomping, some n, c.next)
        | none => pure (.clip, some n, c)
      | none => pure (.clip, none, c)
  if isSpaceBreakOrEnd c.peek then return (chomping, increment, ← ignoredLine c)
  else throw .malformed

/-- The empty lines before a block and its indentation, as far as it shows. -/
def blockIndentation : Nat → Nat → Cursor → List Char × Nat × Cursor
  | 0, deepest, c => ([], deepest, c)
  | fuel + 1, deepest, c =>
    if c.peek = ' ' then
      let c := c.next
      blockIndentation fuel (max deepest c.column) c
    else if isBreak c.peek then
      let (ending, c) := c.lineBreak
      let (more, deepest, c) := blockIndentation fuel deepest c
      (ending ++ more, deepest, c)
    else ([], deepest, c)

def skipIndent (indent : Nat) (c : Cursor) : Cursor :=
  c.skip ((c.rest.take (indent - c.column)).takeWhile (· = ' ')).length

def blockBreaks (indent : Nat) : Nat → Cursor → List Char × Cursor
  | 0, c => ([], c)
  | fuel + 1, c =>
    let c := skipIndent indent c
    if isBreak c.peek then
      let (ending, c) := c.lineBreak
      let (more, c) := blockBreaks indent fuel c
      (ending ++ more, c)
    else ([], c)

def isBlank (c : Char) : Bool := c = ' ' || c = '\t'

/-- The lines of a block, from a line of content on: their text, the last line end, the empty lines after it. -/
def blockLines (isFolded : Bool) (indent : Nat) : Nat → Cursor → List Char × List Char × List Char × Cursor
  | 0, c => ([], [], [], c)
  | fuel + 1, c =>
    let startsBlank := isBlank c.peek
    let (line, c) := c.span (!isBreakOrEnd ·)
    let (ending, c) := c.lineBreak
    let (breaks, c) := blockBreaks indent (c.rest.length + 1) c
    if c.column = indent && !c.isAtEnd then
      let joint :=
        if isFolded && ending = ['\n'] && !startsBlank && !isBlank c.peek then if breaks.isEmpty then [' '] else []
        else ending
      let (text, last, tail, c) := blockLines isFolded indent fuel c
      (line ++ joint ++ breaks ++ text, last, tail, c)
    else (line, ending, breaks, c)

/-- A block scalar inside a collection indented by `outer`. -/
def block (isFolded : Bool) (outer : Int) (c : Cursor) : Except Fault (String × Cursor) := do
  let (chomping, increment, c) ← blockHeader c.next
  let least := max (outer + 1).toNat 1
  let (breaks, indent, c) :=
    match increment with
    | none =>
      let (breaks, deepest, c) := blockIndentation (c.rest.length + 1) 0 c
      (breaks, max least deepest, c)
    | some n =>
      let indent := least + n - 1
      let (breaks, c) := blockBreaks indent (c.rest.length + 1) c
      (breaks, indent, c)
  let (text, last, tail, c) :=
    if c.column = indent && !c.isAtEnd then
      let (text, last, tail, c) := blockLines isFolded indent (c.rest.length + 1) c
      (breaks ++ text, last, tail, c)
    else ([], [], breaks, c)
  let ending := match chomping with
    | .strip => []
    | .clip => last
    | .keep => last ++ tail
  return (String.ofList (text ++ ending), c)

end TagTypes.Yaml.Scalar
