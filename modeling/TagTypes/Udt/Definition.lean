import TagTypes.Json.Printer
import TagTypes.Udt.DataType

/-!
# Type definitions

A user defined type (UDT) is a definition with member tags. A member is an instance of another type or a tag that holds a value of its own, and may then have a value to begin with. Definitions go to a tag provider as JSON objects; `toJson` fixes the names of their fields and the order in which they stand.
-/

namespace TagTypes

inductive TagType where
  | udtType | udtInstance | atomicTag
  deriving DecidableEq, Repr

namespace TagType

instance : Vocabulary TagType where
  title := "TagType"
  terms := [⟨.udtType, "UdtType", "UDT_TYPE"⟩, ⟨.udtInstance, "UdtInstance", "UDT_INSTANCE"⟩,
    ⟨.atomicTag, "AtomicTag", "ATOMIC_TAG"⟩]

def word : TagType → String
  | .udtType => "UdtType"
  | .udtInstance => "UdtInstance"
  | .atomicTag => "AtomicTag"

end TagType

namespace Udt

/-- What a member is; an absent initial value is `null`. -/
inductive Kind where
  | instanceOf (typeId : String)
  | atomic (dataType : DataType) (value : Json)
  deriving Inhabited

structure Member where
  name : String
  tooltip : Option String
  kind : Kind
  deriving Inhabited

structure Definition where
  name : String
  documentation : Option String
  parentType : Option String
  members : List Member
  deriving Inhabited

def textFields (name : String) : Option String → List (String × Json)
  | some text => [(name, .str text)]
  | none => []

def valueFields : Json → List (String × Json)
  | .null => []
  | v => [("value", v)]

def Kind.fields : Kind → List (String × Json)
  | .instanceOf typeId => [("tagType", .str TagType.udtInstance.word), ("typeId", .str typeId)]
  | .atomic dataType value =>
    [("tagType", .str TagType.atomicTag.word), ("valueSource", .str "memory"),
      ("dataType", .str dataType.word)] ++ valueFields value ++
      [("readPermissions", .obj [("accessRights", .str "Read_Only")])]

def Member.toJson (m : Member) : Json :=
  .obj (("name", .str m.name) :: textFields "tooltip" m.tooltip ++ m.kind.fields)

def Definition.toJson (d : Definition) : Json :=
  .obj ([("name", .str d.name), ("tagType", .str TagType.udtType.word)] ++
    textFields "documentation" d.documentation ++ textFields "typeId" d.parentType ++
    [("tags", .arr (d.members.map Member.toJson))])

def Member.typeId? (m : Member) : Option String :=
  match m.kind with
  | .instanceOf typeId => some typeId
  | .atomic .. => none

/-- The types that a definition uses: the one it extends and those of its members. -/
def Definition.typeIds (d : Definition) : List String :=
  d.parentType.toList ++ d.members.filterMap Member.typeId?

end Udt

end TagTypes
