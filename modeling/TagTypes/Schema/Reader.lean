import TagTypes.Json.Literal
import TagTypes.Json.Printer
import TagTypes.Json.Reader
import TagTypes.Schema.Basic
import TagTypes.Schema.Reference

/-!
# Reading schemas

A schema text is a JSON object. Of its fields the title, the identifier, the description, the required names, the properties and the list `allOf` count; the rest is passed over. An entry of `allOf` may name the type the schema extends and add properties and required names. The first thing that does not fit, in the order in which the fields are taken, is the reason why a text is refused.
-/

namespace TagTypes.Schema

inductive Refusal where
  | unreadable (reason : Json.ReadError)
  | rootNotObject (found : Json)
  | propertyNotObject (name : String)
  | entryNotObject
  | notPrimitive (found : Json)

def Refusal.message : Refusal → String
  | .unreadable reason => reason.message
  | .rootNotObject found => "root must be an object, got " ++ found.typeName
  | .propertyNotObject name => "property " ++ Text.quoted name ++ " must be an object"
  | .entryNotObject => "allOf entries must be objects"
  | .notPrimitive found => "expected a JSON primitive, got " ++ found.literal

structure ParseError where
  name : String
  cause : Refusal

def ParseError.message (e : ParseError) : String := "Failed to parse JSON Schema: " ++ e.name

/-- The text of a primitive value: neither `null` nor a list nor an object. -/
def primitiveText : Json → Except Refusal String
  | .bool b => .ok (if b then "true" else "false")
  | .int n => .ok (Text.intText n)
  | .real x => .ok x.text
  | .str s => .ok s
  | v => .error (.notPrimitive v)

def textField (name : String) (fields : List (String × Json)) : Except Refusal (Option String) :=
  match Dict.lookup name fields with
  | none => .ok none
  | some v => (primitiveText v).map some

def isNullWord : Json → Bool
  | .str s => s = "null"
  | _ => false

/-- The word of a type: of a list, the first entry that is not the word `null`. -/
def typeWord : Option Json → Except Refusal String
  | none | some .null => .ok "string"
  | some (.arr candidates) =>
    match candidates.find? (!isNullWord ·) with
    | some candidate => primitiveText candidate
    | none => .ok "string"
  | some v => primitiveText v

/-- A default value: primitive, or the text of a list or an object. -/
def defaultValue : Json → Json
  | .arr items => .str (Json.compactText (.arr items))
  | .obj fields => .str (Json.compactText (.obj fields))
  | v => v

def enumWord : Json → String
  | .str s => s
  | v => v.compactText

def enumWords : Option Json → List String
  | some (.arr values) => values.map enumWord
  | _ => []

/-- What the words of a property say, apart from what is inside it. -/
def outline (name : String) (fields : List (String × Json)) : Except Refusal Property := do
  let type ← typeWord (Dict.lookup "type" fields)
  let format ← textField "format" fields
  let description ← textField "description" fields
  return {
    name, format, description
    type := some type
    default := (Dict.lookup "default" fields).elim .null defaultValue
    enum := enumWords (Dict.lookup "enum" fields) }

mutual

def property (name : String) : Json → Except Refusal Property
  | .obj fields =>
    match Dict.lookup "$ref" fields with
    | some reference => do
      let target ← primitiveText reference
      return { name, type := some "object", refType := some (referenceName target) }
    | none => do
      let p ← outline name fields
      let nested ← if p.isObject then nestedProperties fields else pure []
      let items ← if p.isArray then itemsProperty fields else pure none
      return { p with nested, items }
  | _ => .error (.propertyNotObject name)

/-- The properties that the field `properties` describes, if it is an object. -/
def nestedProperties : List (String × Json) → Except Refusal (List Property)
  | [] => .ok []
  | (name, v) :: rest => if name = "properties" then members v else nestedProperties rest

def members : Json → Except Refusal (List Property)
  | .obj fields => propertyList fields
  | _ => .ok []

def propertyList : List (String × Json) → Except Refusal (List Property)
  | [] => .ok []
  | (name, v) :: rest => do
    let p ← property name v
    let more ← propertyList rest
    return p :: more

def itemsProperty : List (String × Json) → Except Refusal (Option Property)
  | [] => .ok none
  | (name, v) :: rest => if name = "items" then (property "items" v).map some else itemsProperty rest

end

/-- The names in the field `required`, if it is a list. -/
def requiredNames (fields : List (String × Json)) : Except Refusal (List String) :=
  match Dict.lookup "required" fields with
  | some (.arr names) => names.mapM primitiveText
  | _ => .ok []

def addAll (s : Schema) (ps : List Property) (required : List String) : Schema :=
  required.foldl addRequired { s with properties := s.properties ++ ps }

/-- One entry of `allOf`. -/
def extend (s : Schema) : Json → Except Refusal Schema
  | .obj fields => do
    let parent ← textField "$ref" fields
    let s := match parent with
      | some reference => { s with parentType := some (referenceName reference) }
      | none => s
    let ps ← nestedProperties fields
    let required ← requiredNames fields
    return s.addAll ps required
  | _ => .error .entryNotObject

/-- The schema that a value describes, called `name` if it has no title. -/
def ofJson (name : String) : Json → Except Refusal Schema
  | .obj fields => do
    let title ← textField "title" fields
    let id ← textField "$id" fields
    let description ← textField "description" fields
    let required ← requiredNames fields
    let ps ← nestedProperties fields
    let s : Schema := { name := title.getD name, id, description }
    let s := s.addAll ps required
    match Dict.lookup "allOf" fields with
    | some (.arr entries) => entries.foldlM extend s
    | _ => return s
  | v => .error (.rootNotObject v)

/-- Read a schema text; `name` is the schema's name if the text has no title. -/
def parse (name text : String) : Except ParseError Schema :=
  match Json.read text with
  | .error reason => .error ⟨name, .unreadable reason⟩
  | .ok v => (ofJson name v).mapError (⟨name, ·⟩)

end TagTypes.Schema
