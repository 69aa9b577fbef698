import TagTypes.Json.Basic
import TagTypes.Vocabulary

/-!
# Schemas

A schema describes a type by its properties. A property is of a JSON type, or it refers to the type of another schema; an object property may have properties of its own, an array property a description of its items. A schema may also name the type it extends.
-/

namespace TagTypes

inductive SchemaType where
  | string | integer | number | boolean | object | array | null
  deriving DecidableEq, Repr

instance : Vocabulary SchemaType where
  title := "JsonType"
  terms := [
    ⟨.string, "string", "STRING"⟩, ⟨.integer, "integer", "INTEGER"⟩, ⟨.number, "number", "NUMBER"⟩,
    ⟨.boolean, "boolean", "BOOLEAN"⟩, ⟨.object, "object", "OBJECT"⟩, ⟨.array, "array", "ARRAY"⟩,
    ⟨.null, "null", "NULL"⟩]

/-- A property of a schema. `type` is the word of the schema as written, which need not be one of the known types; an absent default is `null`. -/
structure Property where
  name : String
  type : Option String := some "string"
  format : Option String := none
  description : Option String := none
  default : Json := .null
  refType : Option String := none
  nested : List Property := []
  items : Option Property := none
  enum : List String := []
  deriving Inhabited

namespace Property

def isObject (p : Property) : Bool := p.type = some "object"

def isArray (p : Property) : Bool := p.type = some "array"

/-- The property refers to the type of another schema. -/
def isReference (p : Property) : Bool := p.refType.getD "" ≠ ""

def hasNested (p : Property) : Bool := !p.nested.isEmpty

def hasEnum (p : Property) : Bool := !p.enum.isEmpty

/-- The property has a type of its own, made from its nested properties. -/
def isInline (p : Property) : Bool := p.isObject && p.hasNested && !p.isReference

mutual

/-- The types that a property refers to, itself or through object properties inside it. -/
def references : Property → List String
  | ⟨_, type, _, _, _, refType, nested, _, _⟩ =>
    if refType.getD "" ≠ "" then [refType.getD ""]
    else if type = some "object" then referencesAll nested
    else []

def referencesAll : List Property → List String
  | [] => []
  | p :: rest => references p ++ referencesAll rest

end

end Property

/-- A schema. `required` lists the required names in the order in which they were first given. -/
structure Schema where
  name : String
  id : Option String := none
  description : Option String := none
  parentType : Option String := none
  properties : List Property := []
  required : List String := []
  deriving Inhabited

namespace Schema

def hasParent (s : Schema) : Bool := s.parentType.getD "" ≠ ""

def isRequired (s : Schema) (property : String) : Bool := s.required.contains property

def addRequired (s : Schema) (name : String) : Schema :=
  if s.required.contains name then s else { s with required := s.required ++ [name] }

/-- The types of other schemas that this schema uses: the type it extends and those its properties refer to, at any depth of inline objects. -/
def references (s : Schema) : List String :=
  (if s.hasParent then [s.parentType.getD ""] else []) ++ Property.referencesAll s.properties

end Schema

end TagTypes
