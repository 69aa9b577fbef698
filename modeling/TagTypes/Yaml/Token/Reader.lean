import TagTypes.Yaml.Scalar
import TagTypes.Yaml.Token

/-!
# Reading tokens

A text is read from its beginning, one token after the other. Nothing marks most keys before the colon that follows them, so a token that may turn out to be a key is kept as a candidate until its line ends; if a colon comes in time, the key token goes in front of the candidate, and, where a map begins there, the token of its beginning too.

A text may stop being well formed at some place. The tokens before it are kept, but not those from the first open candidate on, because it is not settled what comes in front of that one.
-/

namespace TagTypes.Yaml

/-- The tokens of a text, up to its end or to a fault. -/
structure Tokens where
  list : List Token
  fault : Option Fault := none
  deriving Inhabited

namespace Tokens

/-- A token that is a key if a colon follows on its line. -/
structure KeyCandidate where
  depth : Nat
  position : Nat
  isRequired : Bool
  index : Nat
  line : Nat
  column : Nat

structure Reader where
  cursor : Cursor
  tokens : Array Token := #[]
  /-- The number of open flow collections. -/
  depth : Nat := 0
  /-- The columns of the open block collections, the innermost first. -/
  columns : List Nat := []
  /-- Whether a key may begin here. -/
  admitsKey : Bool := true
  /-- At most one candidate for every depth. -/
  candidates : List KeyCandidate := []

def maxKeyLength : Nat := 1024

namespace Reader

/-- The column of the innermost block collection, or -1. -/
def indent (r : Reader) : Int := (r.columns.head?.map Int.ofNat).getD (-1)

def push (t : Token) (r : Reader) : Reader := { r with tokens := r.tokens.push t }

/-- Add a token that takes up `length` characters. -/
def pushOver (t : Token) (length : Nat) (r : Reader) : Reader :=
  { r with tokens := r.tokens.push t, cursor := r.cursor.skip length }

def insertAt (position : Nat) (ts : List Token) (r : Reader) : Reader :=
  { r with tokens := r.tokens.extract 0 position ++ ts.toArray ++ r.tokens.extract position r.tokens.size }

/-! ## Candidates -/

def isInReach (r : Reader) (k : KeyCandidate) : Bool :=
  k.line = r.cursor.line && r.cursor.index - k.index ≤ maxKeyLength

/-- Give up the candidates that no colon can reach any more; where a map goes on, one has to come. -/
def dropStale (r : Reader) : Except Fault Reader :=
  if r.candidates.any fun k => k.isRequired && !r.isInReach k then .error .malformed
  else .ok { r with candidates := r.candidates.filter r.isInReach }

def candidate? (r : Reader) : Option KeyCandidate := r.candidates.find? (·.depth = r.depth)

def withoutCandidate (r : Reader) : Reader :=
  { r with candidates := r.candidates.filter (·.depth ≠ r.depth) }

def dropCandidate (r : Reader) : Except Fault Reader :=
  if (r.candidate?.map (·.isRequired)).getD false then .error .malformed else .ok r.withoutCandidate

/-- Take the next token as a candidate, if a key may begin here. -/
def addCandidate (r : Reader) : Except Fault Reader :=
  if !r.admitsKey then .ok r
  else do
    let r ← r.dropCandidate
    let c := r.cursor
    let k : KeyCandidate := {
      depth := r.depth, position := r.tokens.size, isRequired := r.depth = 0 && r.indent = c.column
      index := c.index, line := c.line, column := c.column }
    return { r with candidates := k :: r.candidates }

/-- The number of tokens in front of which nothing can come any more. -/
def settled (r : Reader) : Nat := (r.candidates.map (·.position)).foldl min r.tokens.size

/-! ## Indentation -/

/-- Close the block collections that are indented further than `column`. -/
def unwind (column : Int) (r : Reader) : Reader :=
  if r.depth ≠ 0 then r
  else
    let closed := r.columns.takeWhile fun (k : Nat) => column < k
    { r with
      columns := r.columns.drop closed.length
      tokens := r.tokens ++ Array.replicate closed.length .blockEnd }

/-- Whether a block collection at this column is a new one. -/
def opensAt (r : Reader) (column : Nat) : Bool := r.depth = 0 && r.indent < column

def enter (column : Nat) (r : Reader) : Reader := { r with columns := column :: r.columns }

/-- Begin a block collection unless it is already open. -/
def openBlock (start : Token) (r : Reader) : Reader :=
  if r.opensAt r.cursor.column then (r.enter r.cursor.column).push start else r

/-! ## Tokens -/

def toNextToken : Nat → Reader → Reader
  | 0, r => r
  | fuel + 1, r =>
    let c := r.cursor.skipWhile (· = ' ')
    let c := if c.peek = '#' then c.skipWhile (!isBreakOrEnd ·) else c
    if isBreak c.peek then toNextToken fuel { r with cursor := c.lineBreak.2, admitsKey := r.admitsKey || r.depth = 0 }
    else { r with cursor := c }

def finish (r : Reader) : Except Fault Reader := do
  let r ← (r.unwind (-1)).dropCandidate
  return { r.push .streamEnd with candidates := [] }

def documentLine (t : Token) (r : Reader) : Except Fault Reader := do
  let r ← (r.unwind (-1)).dropCandidate
  return { r.pushOver t 3 with admitsKey := false }

def flowStart (t : Token) (r : Reader) : Except Fault Reader := do
  let r ← r.addCandidate
  return { r.pushOver t 1 with depth := r.depth + 1, admitsKey := true }

def flowEnd (t : Token) (r : Reader) : Except Fault Reader := do
  let r ← r.dropCandidate
  return { r.pushOver t 1 with depth := r.depth - 1, admitsKey := false }

def flowEntry (r : Reader) : Except Fault Reader := do
  let r ← r.dropCandidate
  return { r.pushOver .flowEntry 1 with admitsKey := true }

def blockEntry (r : Reader) : Except Fault Reader := do
  if r.depth = 0 && !r.admitsKey then throw .malformed
  let r ← (r.openBlock .sequenceStart).dropCandidate
  return { r.pushOver .blockEntry 1 with admitsKey := true }

/-- A key with a mark in front. -/
def markedKey (r : Reader) : Except Fault Reader := do
  if r.depth = 0 && !r.admitsKey then throw .malformed
  let r ← (r.openBlock .mappingStart).dropCandidate
  return { r.pushOver .key 1 with admitsKey := r.depth = 0 }

/-- A colon, which makes the candidate of this depth a key. -/
def value (r : Reader) : Except Fault Reader :=
  match r.candidate? with
  | some k =>
    let r := r.withoutCandidate
    let r := if r.opensAt k.column then (r.enter k.column).insertAt k.position [.mappingStart, .key]
      else r.insertAt k.position [.key]
    .ok { r.pushOver .value 1 with admitsKey := false }
  | none => do
    if r.depth = 0 && !r.admitsKey then throw .malformed
    let r ← (r.openBlock .mappingStart).dropCandidate
    return { r.pushOver .value 1 with admitsKey := r.depth = 0 }

/-- A token that may be a key or stand before one. -/
def keyPart (read : Cursor → Except Fault (Token × Cursor)) (r : Reader) : Except Fault Reader := do
  let r ← r.addCandidate
  let (t, c) ← read r.cursor
  return { r.push t with cursor := c, admitsKey := false }

def block (isFolded : Bool) (r : Reader) : Except Fault Reader := do
  let r ← r.dropCandidate
  let (text, c) ← Scalar.block isFolded r.indent r.cursor
  return { r.push (.scalar text false) with cursor := c, admitsKey := true }

def plain (r : Reader) : Except Fault Reader := do
  let r ← r.addCandidate
  let p := Scalar.plain (r.depth ≠ 0) (r.indent + 1) r.cursor
  return { r.push (.scalar (String.ofList p.text) true) with cursor := p.cursor, admitsKey := p.endsLine }

end Reader

/-! ## Names and tags -/

def isNameChar (c : Char) : Bool := c.isAlphanum || c = '-' || c = '_'

def anchorName (c : Cursor) : Except Fault (String × Cursor) :=
  let (name, c) := c.next.span isNameChar
  if name.isEmpty || !(isGapOrEnd c.peek || "?:,]\x7d%@`".toList.contains c.peek) then .error .malformed
  else .ok (String.ofList name, c)

def isUriChar (c : Char) : Bool := c.isAlphanum || "-;/?:@&=+$,_.!~*'()[]".toList.contains c

/-- The bytes that a run of escapes in a tag stands for. -/
def uriBytes : Nat → Cursor → Except Fault (List UInt8 × Cursor)
  | 0, c => .ok ([], c)
  | fuel + 1, c =>
    if c.peek ≠ '%' then .ok ([], c)
    else
      match Scalar.hexValue? (c.peekAt 1), Scalar.hexValue? (c.peekAt 2) with
      | some high, some low => do
        let (more, c) ← uriBytes fuel (c.skip 3)
        return (UInt8.ofNat (high * 16 + low) :: more, c)
      | _, _ => .error .malformed

/-- The address in a tag, in which a character may be given by its bytes. -/
def uri : Nat → Cursor → Except Fault (List Char × Cursor)
  | 0, c => .ok ([], c)
  | fuel + 1, c =>
    let (run, c) := c.span isUriChar
    if c.peek ≠ '%' then .ok (run, c)
    else do
      let (bytes, c) ← uriBytes (c.rest.length + 1) c
      match String.fromUTF8? ⟨bytes.toArray⟩ with
      | some text =>
        let (more, c) ← uri fuel c
        return (run ++ text.toList ++ more, c)
      | none => throw .malformed

def nonemptyUri (c : Cursor) : Except Fault (String × Cursor) := do
  let (text, after) ← uri (c.rest.length + 1) c
  if after.index = c.index then throw .malformed
  return (String.ofList text, after)

/-- A handle: an exclamation mark, or a name between two. -/
def handle (c : Cursor) : Except Fault (String × Cursor) :=
  if c.peek ≠ '!' then .error .malformed
  else if c.peekAt 1 = ' ' then .ok ("!", c.next)
  else
    let (name, after) := c.next.span isNameChar
    if after.peek = '!' then .ok (String.ofList ('!' :: name ++ ['!']), after.next) else .error .malformed

/-- Whether a handle begins here, that is, whether a second exclamation mark follows in the same word. -/
def hasHandle (c : Cursor) : Bool := (c.next.span (!isSpaceBreakOrEnd ·)).1.contains '!'

def tag (c : Cursor) : Except Fault (Token × Cursor) := do
  let (t, c) ←
    if c.peekAt 1 = '<' then do
      let (text, c) ← nonemptyUri (c.skip 2)
      if c.peek ≠ '>' then throw .malformed
      pure (.tag none text, c.next)
    else if isGapOrEnd (c.peekAt 1) then pure (.tag none "!", c.next)
    else do
      let (handle, c) ← if hasHandle c then handle c else pure ("!", c.next)
      let (text, c) ← nonemptyUri c
      pure (Token.tag (some handle) text, c)
  if isSpaceBreakOrEnd c.peek then return (t, c) else throw .malformed

/-! ## Directives -/

def directiveNumber (c : Cursor) : Except Fault (Nat × Cursor) :=
  let (digits, c) := c.span Char.isDigit
  if digits.isEmpty then .error .malformed
  else if Text.maxDigits < digits.length then .error (.tooManyDigits digits.length)
  else .ok (Text.ofDigits 10 (digits.map fun d => d.toNat - 48), c)

def version (c : Cursor) : Except Fault (Directive × Cursor) := do
  let (major, c) ← directiveNumber (c.skipWhile (· = ' '))
  if c.peek ≠ '.' then throw .malformed
  let (_, c) ← directiveNumber c.next
  if isSpaceBreakOrEnd c.peek then return (.version major, c) else throw .malformed

def handleDirective (c : Cursor) : Except Fault (Directive × Cursor) := do
  let (handle, c) ← handle (c.skipWhile (· = ' '))
  if c.peek ≠ ' ' then throw .malformed
  let (stem, c) ← nonemptyUri (c.skipWhile (· = ' '))
  if isSpaceBreakOrEnd c.peek then return (.handle handle stem, c) else throw .malformed

def directive (c : Cursor) : Except Fault (Directive × Cursor) := do
  let (name, c) := c.next.span isNameChar
  if name.isEmpty || !isSpaceBreakOrEnd c.peek then throw .malformed
  let (d, c) ←
    if name = "YAML".toList then version c
    else if name = "TAG".toList then handleDirective c
    else pure (.other, c.skipWhile (!isBreakOrEnd ·))
  return (d, ← Scalar.ignoredLine c)

namespace Reader

def directive (r : Reader) : Except Fault Reader := do
  let r ← (r.unwind (-1)).dropCandidate
  let (d, c) ← Tokens.directive r.cursor
  return { r.push (.directive d) with cursor := c, admitsKey := false }

def isPlainStart (r : Reader) : Bool :=
  let x := r.cursor.peek
  let isIndicator := isGapOrEnd x || "-?:,[]\x7b\x7d#&*!|>'\"%@`".toList.contains x
  !isIndicator ||
    !isGapOrEnd (r.cursor.peekAt 1) && (x = '-' || (r.depth = 0 && (x = '?' || x = ':')))

/-- Go to the next token and close the collections that end before it. -/
def approach (r : Reader) : Except Fault Reader := do
  let r ← (r.toNextToken (r.cursor.rest.length + 1)).dropStale
  return r.unwind r.cursor.column

/-- Read the token that begins at the cursor. -/
def token (r : Reader) : Except Fault Reader :=
  let c := r.cursor
  let beforeGap := isGapOrEnd (c.peekAt 1)
  if c.isAtEnd then r.finish
  else if c.column = 0 && c.peek = '%' then r.directive
  else if c.column = 0 && c.isMarker '-' then r.documentLine .documentStart
  else if c.column = 0 && c.isMarker '.' then r.documentLine .documentEnd
  else match c.peek with
    | '[' => r.flowStart .flowSequenceStart
    | '\x7b' => r.flowStart .flowMappingStart
    | ']' => r.flowEnd .flowSequenceEnd
    | '\x7d' => r.flowEnd .flowMappingEnd
    | ',' => r.flowEntry
    | '*' => r.keyPart fun c => (anchorName c).map fun (name, c) => (.alias name, c)
    | '&' => r.keyPart fun c => (anchorName c).map fun (name, c) => (.anchor name, c)
    | '!' => r.keyPart tag
    | '\'' | '"' => r.keyPart fun c => (Scalar.quoted c).map fun (text, c) => (.scalar text false, c)
    | x =>
      if x = '-' && beforeGap then r.blockEntry
      else if x = '?' && (r.depth ≠ 0 || beforeGap) then r.markedKey
      else if x = ':' && (r.depth ≠ 0 || beforeGap) then r.value
      else if x = '|' && r.depth = 0 then r.block false
      else if x = '>' && r.depth = 0 then r.block true
      else if r.isPlainStart then r.plain
      else .error .malformed

def step (r : Reader) : Except Fault Reader := do (← r.approach).token

/-- Read tokens to the end. Each takes up a character, which bounds their number. -/
def run : Nat → Reader → Tokens
  | 0, r => ⟨r.tokens.toList, some .malformed⟩
  | fuel + 1, r =>
    match r.dropStale >>= step with
    | .error fault => ⟨(r.tokens.extract 0 r.settled).toList, some fault⟩
    | .ok next => if next.tokens.back? = some .streamEnd then ⟨next.tokens.toList, none⟩ else run fuel next

end Reader

/-- The characters that a settings file may hold. -/
def isAllowed (c : Char) : Bool :=
  c = '\t' || c = '\n' || c = '\r' || (' ' ≤ c && c ≤ '~') || c = '\u0085' || ('\u00a0' ≤ c && c ≠ '\uFFFE' && c ≠ '\uFFFF')

/-- The tokens of a text. A byte order mark may stand at its beginning. -/
def read (text : String) : Tokens :=
  let cs := text.toList
  if !cs.all isAllowed then ⟨[], some .malformed⟩
  else
    let start : Cursor := { rest := cs }
    Reader.run (cs.length + 2) { cursor := if start.peek = '\uFEFF' then start.next else start }

end Tokens

end TagTypes.Yaml
