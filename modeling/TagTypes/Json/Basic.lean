import TagTypes.Dict
import TagTypes.Number.Binary64

/-!
# JSON values

The values that schemas, tag definitions and their texts are made of. An object is a list of fields in the order in which the names first came; a name that comes again gives its field a new value.
-/

namespace TagTypes

inductive Json where
  | null
  | bool (value : Bool)
  | int (value : Int)
  | real (value : Binary64)
  | str (value : String)
  | arr (items : List Json)
  | obj (fields : List (String × Json))
  deriving Repr, Inhabited

namespace Json

/-- The field of an object; other values have none. -/
def field? (name : String) : Json → Option Json
  | .obj fields => Dict.lookup name fields
  | _ => none

/-- An object from fields in writing order. -/
def ofFields (fields : List (String × Json)) : Json :=
  .obj (fields.foldl (fun known field => Dict.place field.1 field.2 known) [])

/-- The word for the type of a value in messages. -/
def typeName : Json → String
  | .null => "NoneType"
  | .bool _ => "bool"
  | .int _ => "int"
  | .real _ => "float"
  | .str _ => "str"
  | .arr _ => "list"
  | .obj _ => "dict"

/-- Whether a value stands for something: empty texts, lists and objects, zeros, `false` and `null` do not. -/
def isFilled : Json → Bool
  | .null => false
  | .bool b => b
  | .int n => n ≠ 0
  | .real x => !x.isZero
  | .str s => s ≠ ""
  | .arr items => !items.isEmpty
  | .obj fields => !fields.isEmpty

mutual

/-- How deep lists and objects are nested in a value. -/
def nesting : Json → Nat
  | .arr items => nestingOfItems items + 1
  | .obj fields => nestingOfFields fields + 1
  | _ => 0

def nestingOfItems : List Json → Nat
  | [] => 0
  | v :: rest => max (nesting v) (nestingOfItems rest)

def nestingOfFields : List (String × Json) → Nat
  | [] => 0
  | (_, v) :: rest => max (nesting v) (nestingOfFields rest)

end

end Json

end TagTypes
