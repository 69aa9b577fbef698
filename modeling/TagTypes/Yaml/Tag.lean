import TagTypes.Yaml.Stamp

/-!
# Tags

The tag of a node says what kind of value it stands for. A plain scalar without a tag gets one from its form: words and numerals of certain forms are no texts.
-/

namespace TagTypes.Yaml

inductive Tag where
  | null | bool | int | real | str | binary | timestamp
  | list | map | set | orderedMap | pairs
  | merge | value
  | unknown
  deriving DecidableEq, Repr, Inhabited

namespace Tag

def ofName (name : String) : Tag :=
  match name with
  | "tag:yaml.org,2002:null" => .null
  | "tag:yaml.org,2002:bool" => .bool
  | "tag:yaml.org,2002:int" => .int
  | "tag:yaml.org,2002:float" => .real
  | "tag:yaml.org,2002:str" => .str
  | "tag:yaml.org,2002:binary" => .binary
  | "tag:yaml.org,2002:timestamp" => .timestamp
  | "tag:yaml.org,2002:seq" => .list
  | "tag:yaml.org,2002:map" => .map
  | "tag:yaml.org,2002:set" => .set
  | "tag:yaml.org,2002:omap" => .orderedMap
  | "tag:yaml.org,2002:pairs" => .pairs
  | "tag:yaml.org,2002:merge" => .merge
  | "tag:yaml.org,2002:value" => .value
  | _ => .unknown

def dropSign : List Char → List Char
  | '-' :: cs | '+' :: cs => cs
  | cs => cs

def isDigitOrBar (c : Char) : Bool := c.isDigit || c = '_'

/-- What follows a sign and a numeral that begins with a digit and may hold underscores. -/
def afterNumeral? (cs : List Char) : Option (List Char) :=
  match cs with
  | c :: rest => if c.isDigit then some (rest.dropWhile isDigitOrBar) else none
  | [] => none

/-- What follows the groups of a numeral in base 60; there is at least one, and each is a colon and a number below 60. -/
def afterSixties? : List Char → Option (List Char)
  | ':' :: a :: b :: rest =>
    if '0' ≤ a && a ≤ '5' && b.isDigit then some ((afterSixties? rest).getD rest)
    else if a.isDigit then some ((afterSixties? (b :: rest)).getD (b :: rest))
    else none
  | [':', a] => if a.isDigit then some [] else none
  | _ => none

def isExponent : List Char → Bool
  | [] => true
  | e :: s :: cs => (e = 'e' || e = 'E') && (s = '-' || s = '+') && !cs.isEmpty && cs.all Char.isDigit
  | _ => false

def isFraction (cs : List Char) : Bool := isExponent (cs.dropWhile isDigitOrBar)

/-- A numeral with a point, an infinity, or the word for no number. -/
def isReal (cs : List Char) : Bool :=
  let body := dropSign cs
  [".inf", ".Inf", ".INF"].any (·.toList = body) || [".nan", ".NaN", ".NAN"].any (·.toList = cs) ||
    match cs, afterNumeral? body with
    | '.' :: c :: rest, _ => c.isDigit && isFraction rest
    | _, some ('.' :: rest) => isFraction rest
    | _, some rest =>
      match afterSixties? rest with
      | some ('.' :: rest) => rest.all isDigitOrBar
      | _ => false
    | _, none => false

/-- A whole number in base 2, 8, 10, 16 or 60. -/
def isInt (cs : List Char) : Bool :=
  match dropSign cs with
  | ['0'] => true
  | '0' :: 'b' :: rest => !rest.isEmpty && rest.all fun c => c = '0' || c = '1' || c = '_'
  | '0' :: 'x' :: rest => !rest.isEmpty && rest.all fun c => (Scalar.hexValue? c).isSome || c = '_'
  | '0' :: rest => !rest.isEmpty && rest.all fun c => ('0' ≤ c && c ≤ '7') || c = '_'
  | body =>
    match afterNumeral? body with
    | some [] => true
    | some rest => afterSixties? rest = some []
    | none => false

def boolWords : List String := [
  "yes", "Yes", "YES", "no", "No", "NO", "true", "True", "TRUE", "false", "False", "FALSE",
  "on", "On", "ON", "off", "Off", "OFF"]

def nullWords : List String := ["~", "null", "Null", "NULL"]

/-- The tag of a plain scalar. A line end after it changes nothing. -/
def ofPlain (text : String) : Tag :=
  if text = "" then .null
  else
    let cs := dropLineEnd text.toList
    if boolWords.any (·.toList = cs) then .bool
    else if isReal cs then .real
    else if isInt cs then .int
    else if nullWords.any (·.toList = cs) then .null
    else if (Stamp.read? cs).any (·.isFull) then .timestamp
    else if cs = ['<', '<'] then .merge
    else if cs = ['='] then .value
    else if cs = ['!'] || cs = ['&'] || cs = ['*'] then .unknown
    else .str

end Tag

end TagTypes.Yaml
