import TagTypes.Schema.Basic
import TagTypes.Udt.Definition

/-!
# From schemas to types

Each property of a schema becomes a member of the schema's type. A property that refers to a schema is an instance of that schema's type; an object property with properties of its own is an instance of a type made for it, which is defined before the schema's own type. An object property with nothing in it has no member.
-/

namespace TagTypes.Udt

/-- A text that counts only if it is not empty. -/
def filled (text : Option String) : Option String := text.filter (· ≠ "")

/-- What the member for a property of the schema called `owner` is, if there is one. -/
def kind? (owner : String) (p : Property) : Option Kind :=
  if p.isReference then some (.instanceOf (p.refType.getD ""))
  else if p.isObject && p.hasNested then some (.instanceOf (owner ++ "_" ++ p.name))
  else if p.isArray then some (.atomic .dataSet .null)
  else (DataType.ofProperty? p.type p.format).map (.atomic · p.default)

def member? (owner : String) (p : Property) : Option Member :=
  (kind? owner p).map fun kind => { name := p.name, tooltip := filled p.description, kind }

def build (s : Schema) : Definition where
  name := s.name
  documentation := filled s.description
  parentType := filled s.parentType
  members := s.properties.filterMap (member? s.name)

/-- The schema of the type that is made for an inline object property. -/
def inlineSchema (owner : String) (p : Property) : Schema where
  name := owner ++ "_" ++ p.name
  description := some ("Nested type for " ++ owner ++ "." ++ p.name)
  properties := p.nested

mutual

/-- The definitions made for a property of the schema called `owner`, and for the properties inside it. -/
def nestedOf (owner : String) : Property → List Definition
  | ⟨name, type, format, description, default, refType, nested, items, enum⟩ =>
    let p : Property := ⟨name, type, format, description, default, refType, nested, items, enum⟩
    if p.isInline then build (inlineSchema owner p) :: nestedOfAll (owner ++ "_" ++ name) nested else []

def nestedOfAll (owner : String) : List Property → List Definition
  | [] => []
  | p :: rest => nestedOf owner p ++ nestedOfAll owner rest

end

/-- The definitions of the types made for the inline objects of a schema, each before those made for objects inside it. -/
def nestedDefinitions (s : Schema) : List Definition := nestedOfAll s.name s.properties

def definitionText (s : Schema) : String := (build s).toJson.indentedText

def definitionListText (schemas : List Schema) : String :=
  (Json.arr (schemas.map fun s => (build s).toJson)).indentedText

/-- The value that holds the types made for the inline objects of a schema, if there are any. -/
def nestedJson? (s : Schema) : Option Json :=
  match nestedDefinitions s with
  | [] => none
  | ds => some (.arr (ds.map Definition.toJson))

/-- All types of a schema as one list: those made for inline objects, then its own. -/
def exportText (s : Schema) : String :=
  (Json.arr ((nestedDefinitions s ++ [build s]).map Definition.toJson)).indentedText

end TagTypes.Udt
