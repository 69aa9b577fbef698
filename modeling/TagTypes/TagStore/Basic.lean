import TagTypes.Dict
import TagTypes.Json.Literal
import TagTypes.Json.Reader
import TagTypes.TagStore.Path
import TagTypes.Text.Sorted
import TagTypes.Vocabulary

/-!
# Tag stores

A tag store maps tag paths in normal form to definitions. A definition is imported into a folder under its own name; a policy says what happens when the path is taken. `admission` decides about one definition without storing it, so that a store can be kept in more than one way.
-/

namespace TagTypes

/-- What happens to a definition whose path is taken. -/
inductive CollisionPolicy where
  | abort | overwrite | ignore
  deriving DecidableEq, Repr

instance : Vocabulary CollisionPolicy where
  title := "CollisionPolicy"
  terms := [⟨.abort, "Abort", "ABORT"⟩, ⟨.overwrite, "Overwrite", "OVERWRITE"⟩, ⟨.ignore, "Ignore", "IGNORE"⟩]

inductive Quality where
  | good | bad | notFound | disabled | exception
  deriving DecidableEq, Repr, Inhabited

namespace Quality

instance : Vocabulary Quality where
  title := "QualityCode"
  terms := [⟨.good, "Good", "GOOD"⟩, ⟨.bad, "Bad", "BAD"⟩, ⟨.notFound, "Bad_NotFound", "BAD_NOT_FOUND"⟩,
    ⟨.disabled, "Bad_Disabled", "BAD_DISABLED"⟩, ⟨.exception, "Error_Exception", "ERROR_EXCEPTION"⟩]

def isGood (q : Quality) : Bool := q = .good

def word : Quality → String
  | .good => "Good"
  | .bad => "Bad"
  | .notFound => "Bad_NotFound"
  | .disabled => "Bad_Disabled"
  | .exception => "Error_Exception"

end Quality

abbrev Tags := Dict String Json

/-- What is to be done about a definition: nothing, with a result, or to store it at a path. -/
inductive Admission where
  | settled (quality : Quality)
  | store (path : String)
  deriving DecidableEq, Repr

namespace Tags

/-- The name under which a definition is imported, if it has a name and a type. -/
def importName? (definition : Json) : Option String :=
  match definition.field? "name", definition.field? "tagType" with
  | some name, some type => if name.isFilled && type.isFilled then some name.display else none
  | _, _ => none

def maxCopyDepth : Nat := 490

/-- A definition that is not nested too deep can be copied into a store. -/
def isCopyable (definition : Json) : Bool := definition.nesting ≤ maxCopyDepth

/-- Decide about a definition for a folder in normal form. -/
def admission (tags : Tags) (policy : CollisionPolicy) (folder : String) (definition : Json) : Admission :=
  match importName? definition with
  | none => .settled .bad
  | some name =>
    if name.toList.contains '/' then .settled .bad
    else
      let path := TagPath.inFolder folder name
      if tags.contains path then
        match policy with
        | .abort => .settled .bad
        | .ignore => .settled .good
        | .overwrite => .store path
      else .store path

/-- The definition at a path; a stored `null` is no definition. -/
def config? (tags : Tags) (path : String) : Option Json :=
  match tags.get? (TagPath.normalize path) with
  | some .null => none
  | found => found

/-- The names of the tags directly in a folder, in order. -/
def browse (tags : Tags) (path : String) : List String :=
  Text.sorted (tags.keys.filterMap (TagPath.nameIn? (TagPath.normalize path)))

end Tags

inductive PayloadFault where
  | unreadable
  | wrongShape (found : Json)
  | tooDeep (collection : String)

/-- The definitions in a text: one object, or the items of a list. -/
def readDefinitions (text : String) : Except PayloadFault (List Json) :=
  match Json.read text with
  | .error (.tooDeep collection) => .error (.tooDeep collection)
  | .error _ => .error .unreadable
  | .ok (.obj fields) => .ok [.obj fields]
  | .ok (.arr items) => .ok items
  | .ok v => .error (.wrongShape v)

end TagTypes
