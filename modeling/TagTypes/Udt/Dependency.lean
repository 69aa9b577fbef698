import TagTypes.Schema.Basic
import TagTypes.Text.Sorted

/-!
# The order of dependent types

A type has to be there before another type can refer to it. Schemas are arranged by name: again and again the least name is taken among those whose referenced types are all taken. If the references run in a circle, no such order exists, and the names are taken in plain order. Schemas of one name stay together in the order in which they came.
-/

namespace TagTypes.Dependency

/-- Some schema called `user` among `schemas` refers to the type `used`, which is another one of them. -/
def uses (schemas : List Schema) (user used : String) : Bool :=
  used ≠ user && schemas.any (·.name = used) && schemas.any fun s => s.name = user && s.references.contains used

def names (schemas : List Schema) : List String := Text.sortedSet (schemas.map Schema.name)

/-- All pairs of a used type and a schema that uses it. -/
def edges (schemas : List Schema) : List (String × String) :=
  (names schemas).flatMap fun used => ((names schemas).filter (uses schemas · used)).map (used, ·)

/-- Take the least name that uses none of the names left, as long as there is one; `left` is in order. -/
def take (uses : String → String → Bool) : Nat → List String → Option (List String)
  | 0, left => if left.isEmpty then some [] else none
  | fuel + 1, left =>
    match left with
    | [] => some []
    | _ =>
      match left.find? fun name => left.all fun other => !uses name other with
      | none => none
      | some name => (take uses fuel (left.erase name)).map (name :: ·)

/-- The names in an order in which used types come first, if there is one. -/
def topological? (schemas : List Schema) : Option (List String) :=
  take (uses schemas) (names schemas).length (names schemas)

def orderedNames (schemas : List Schema) : List String := (topological? schemas).getD (names schemas)

/-- Arrange things by the schemas they come with. -/
def arrange (schema : α → Schema) (xs : List α) : List α :=
  (orderedNames (xs.map schema)).flatMap fun name => xs.filter fun x => (schema x).name = name

def order (schemas : List Schema) : List Schema := arrange id schemas

end TagTypes.Dependency
