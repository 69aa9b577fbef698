import TagTypes.Text.Digit
import TagTypes.Text.Split

/-!
# The words of a command line

A command line is a list of words. A word with a stroke in front names an option, by its letter or by its name or by as much of its name as no other option begins with. An option may take a value: behind an equals sign, directly behind the letter, or as the next word. Two strokes alone make all further words arguments, whatever they look like.

A command line is refused if a word looks like an option but is none, if an option has no value or one too many, and if there are more arguments than the command takes.
-/

namespace TagTypes.CommandLine

structure Flag where
  name : String
  letter : Option Char := none
  takesValue : Bool := true

inductive Word where
  | option (flag : Flag) (value : Option String)
  | argument (text : String)
  | divider

/-- What a command line says: the options with their values, in order, and the argument. -/
structure Line where
  options : List (String × String) := []
  argument : Option String := none

namespace Flag

def isNamed (word : List Char) (f : Flag) : Bool :=
  word = '-' :: '-' :: f.name.toList || f.letter.any fun c => word = ['-', c]

def begins (start : List Char) (f : Flag) : Bool := start.isPrefixOf f.name.toList

end Flag

def isNumeral (cs : List Char) : Bool := cs.all fun c => (Text.digitValue? c).isSome

/-- A negative number, which is no option. -/
def isNegative (word : List Char) : Bool :=
  match word with
  | '-' :: body =>
    match Text.splitFirst '.' body with
    | (whole, none) => !whole.isEmpty && isNumeral whole
    | (whole, some fraction) => isNumeral whole && !fraction.isEmpty && isNumeral fraction
  | _ => false

/-- A word that names no option by its full name. -/
def abbreviated? (flags : List Flag) (word : List Char) : Option Word :=
  let other := if isNegative word || word.contains ' ' then some (.argument (String.ofList word)) else none
  match word with
  | '-' :: '-' :: body =>
    let (start, value) := Text.splitFirst '=' body
    match flags.filter (Flag.begins start) with
    | [] => other
    | [f] => some (.option f (value.map String.ofList))
    | _ => none
  | '-' :: c :: value =>
    match flags.find? fun f => f.letter = some c with
    | some f => some (.option f (some (String.ofList value)))
    | none => other
  | _ => other

/-- What a word is, if it is not refused. -/
def word? (flags : List Flag) (text : String) : Option Word :=
  let word := text.toList
  if word.head? ≠ some '-' || word.length = 1 then some (.argument text)
  else
    match flags.find? (Flag.isNamed word) with
    | some f => some (.option f none)
    | none =>
      match Text.splitFirst '=' word with
      | (name, some value) =>
        match flags.find? (Flag.isNamed name) with
        | some f => some (.option f (some (String.ofList value)))
        | none => abbreviated? flags word
      | (_, none) => abbreviated? flags word

def words? (flags : List Flag) : List String → Option (List Word)
  | [] => some []
  | "--" :: rest => some (.divider :: rest.map .argument)
  | text :: rest => do return (← word? flags text) :: (← words? flags rest)

/-- A divider in place of a value counts as an empty one. -/
def plainValue (value : String) : String := if value = "--" then "" else value

def Line.add (l : Line) (f : Flag) (value : String) : Line := { l with options := l.options ++ [(f.name, value)] }

/-- Collect options and argument. A divider may only stand before or behind the argument. -/
def collect (takesArgument : Bool) : Line → List Word → Option Line
  | l, [] => some l
  | l, .option ⟨name, letter, false⟩ none :: rest => collect takesArgument (l.add ⟨name, letter, false⟩ "") rest
  | l, .option ⟨name, letter, true⟩ (some value) :: rest =>
    collect takesArgument (l.add ⟨name, letter, true⟩ (plainValue value)) rest
  | l, .option ⟨name, letter, true⟩ none :: .argument value :: rest =>
    collect takesArgument (l.add ⟨name, letter, true⟩ value) rest
  | l, .argument text :: .divider :: rest =>
    if takesArgument && l.argument.isNone then collect takesArgument { l with argument := some text } rest else none
  | l, .argument text :: rest =>
    if takesArgument && l.argument.isNone then collect takesArgument { l with argument := some text } rest else none
  | l, .divider :: rest => if takesArgument && l.argument.isNone then collect takesArgument l rest else none
  | _, _ => none

def read? (flags : List Flag) (takesArgument : Bool) (texts : List String) : Option Line :=
  (words? flags texts).bind (collect takesArgument {})

end TagTypes.CommandLine
