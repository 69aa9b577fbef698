import TagTypes.Event.Log
import TagTypes.TagStore.Basic
import TagTypes.Udt.Build
import TagTypes.Udt.Dependency

/-!
# The registry of types

The registry brings the types of schemas to a tag provider and keeps the names of those that are there. To synchronize a schema it imports the types made for inline objects, whatever comes of that, and then the schema's own type, which decides the result. Every synchronization and every removal is told as one event.

The provider may be missing and each call to it may fail. The registry sees no more of it than `Access` shows, so what holds of the registry holds for every provider.
-/

namespace TagTypes

inductive Lookup where
  | found | absent | failed
  deriving DecidableEq, Repr

/-- How a registry reaches a provider that is kept in a state of type `σ`. A call that fails gives no qualities; `arrange` brings schemas into the order of synchronization and may fail as well. -/
structure Access (σ : Type) where
  lookup : σ → Lookup × σ
  importTags : String → String → CollisionPolicy → σ → Option (List Quality) × σ
  removeTags : List String → σ → Option (List Quality) × σ
  arrange : List Schema → Option (List Schema)

structure Registry (σ : Type) where
  tags : σ
  registered : List String := []
  log : EventLog := {}

namespace Registry

variable {σ : Type}

def typesFolder : String := "_types_"

def typePath (type : String) : String := typesFolder ++ "/" ++ type

/-- A call went well if it did not fail and no quality is anything but good. -/
def wentWell : Option (List Quality) → Bool
  | some qualities => qualities.all Quality.isGood
  | none => false

def isRegistered (r : Registry σ) (type : String) : Bool := r.registered.contains type

def tell (r : Registry σ) (e : Event) : Registry σ := { r with log := r.log.tell e }

def addType (type : String) (registered : List String) : List String :=
  if registered.contains type then registered else registered ++ [type]

def importTypes (access : Access σ) (text : String) (tags : σ) : Bool × σ :=
  let (qualities, tags) := access.importTags typesFolder text .overwrite tags
  (wentWell qualities, tags)

def importNested (access : Access σ) (s : Schema) (tags : σ) : σ :=
  match Udt.nestedJson? s with
  | some definitions => (importTypes access definitions.compactText tags).2
  | none => tags

/-- Bring the types of a schema to the provider, if there is one. -/
def deliver (access : Access σ) (s : Schema) (tags : σ) : Bool × σ :=
  match access.lookup tags with
  | (.found, tags) => importTypes access (Udt.definitionText s) (importNested access s tags)
  | (_, tags) => (false, tags)

/-- Synchronize one schema; the result tells whether its type is there now. -/
def sync (access : Access σ) (s : Schema) (r : Registry σ) : Bool × Registry σ :=
  let (success, tags) := deliver access s r.tags
  let registered := if success then addType s.name r.registered else r.registered
  (success, { r with tags, registered }.tell (.typeSynced s.name success))

/-- Synchronize schemas one after the other and count those that went well. -/
def syncEach (access : Access σ) : List Schema → Registry σ → Nat × Registry σ
  | [], r => (0, r)
  | s :: rest, r =>
    let (success, r) := sync access s r
    let (count, r) := syncEach access rest r
    (if success then count + 1 else count, r)

/-- Synchronize schemas in their arranged order, if they can be arranged. -/
def syncAll (access : Access σ) (schemas : List Schema) (r : Registry σ) : Option Nat × Registry σ :=
  match access.arrange schemas with
  | some ordered => let (count, r) := syncEach access ordered r; (some count, r)
  | none => (none, r)

/-- Take a type from the provider, if there is one. -/
def withdraw (access : Access σ) (type : String) (tags : σ) : Bool × σ :=
  match access.lookup tags with
  | (.found, tags) => let (qualities, tags) := access.removeTags [typePath type] tags; (wentWell qualities, tags)
  | (_, tags) => (false, tags)

/-- Remove a type; the result tells whether that went well. -/
def remove (access : Access σ) (type : String) (r : Registry σ) : Bool × Registry σ :=
  let (success, tags) := withdraw access type r.tags
  let registered := if success then r.registered.filter (· ≠ type) else r.registered
  (success, { r with tags, registered }.tell (.typeRemoved type success))

end Registry

end TagTypes
