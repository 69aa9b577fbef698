import TagTypes.Registry
import TagTypes.TagStore.Directory
import TagTypes.TagStore.Provider
import TagTypes.TagStore.Replay

/-!
# The depot of providers

The depot holds the providers, the directory by which they are found, and the disk on which some of them keep their definitions. A provider is known by its place in the list, so one whose name was taken by another is still there. The directory may be out of reach; then no provider is found.
-/

namespace TagTypes

inductive Provider where
  | keeping (provider : TagProvider)
  | replaying (replay : Replay)
  deriving Inhabited

inductive Reach where
  | reachable | missing | failing
  deriving DecidableEq, Repr, Inhabited

structure Depot where
  disk : Disk := {}
  providers : List Provider := []
  directory : ProviderDirectory Nat := {}
  reach : Reach := .reachable

namespace Provider

def name : Provider → String
  | .keeping p => p.name
  | .replaying p => p.name

/-- The names of the tags in a folder; a replay shows none. -/
def browse (folder : String) : Provider → List String
  | .keeping p => p.tags.browse folder
  | .replaying _ => []

/-- The definition at a path; a replay has none. -/
def config? (path : String) : Provider → Option Json
  | .keeping p => p.tags.config? path
  | .replaying _ => none

inductive Failure where
  | provider (error : ProviderError)
  | replayed (text : String)

def Failure.message : Failure → String
  | .provider error => error.message
  | .replayed text => text

def replay (call : TagCall) (p : Replay) : Except Failure (List Quality) × Provider :=
  match p.answer call with
  | (.qualities qualities, p) => (.ok qualities, .replaying p)
  | (.failure text, p) => (.error (.replayed text), .replaying p)

def importTags (base text : String) (policy : CollisionPolicy) (disk : Disk) :
    Provider → Except Failure (List Quality) × Provider × Disk
  | .keeping p =>
    let (result, p, disk) := p.importTags base text policy disk
    (result.mapError .provider, .keeping p, disk)
  | .replaying p =>
    let (result, p) := replay (.importTags base text policy) p
    (result, p, disk)

def removeTags (paths : List String) (disk : Disk) : Provider → Except Failure (List Quality) × Provider × Disk
  | .keeping p =>
    let (result, p, disk) := p.removeTags disk paths
    (result.mapError .provider, .keeping p, disk)
  | .replaying p =>
    let (result, p) := replay (.removeTags paths) p
    (result, p, disk)

end Provider

namespace Depot

def add (d : Depot) (p : Provider) : Depot :=
  { d with providers := d.providers ++ [p], directory := d.directory.register p.name d.providers.length }

def call (index : Nat) (f : Disk → Provider → Except Provider.Failure (List Quality) × Provider × Disk)
    (d : Depot) : Option (Except Provider.Failure (List Quality)) × Depot :=
  match d.providers[index]? with
  | some p =>
    let (result, p, disk) := f d.disk p
    (some result, { d with providers := d.providers.set index p, disk })
  | none => (none, d)

def callNamed (name : String) (f : Disk → Provider → Except Provider.Failure (List Quality) × Provider × Disk)
    (d : Depot) : Option (List Quality) × Depot :=
  match d.directory.find? name with
  | some index =>
    match d.call index f with
    | (some (.ok qualities), d) => (some qualities, d)
    | (_, d) => (none, d)
  | none => (none, d)

def lookup (name : String) (d : Depot) : Lookup :=
  match d.reach with
  | .reachable => if (d.directory.find? name).isSome then .found else .absent
  | .missing => .absent
  | .failing => .failed

def access (name : String) (arrange : List Schema → Option (List Schema)) : Access Depot where
  lookup d := (d.lookup name, d)
  importTags base text policy d := d.callNamed name (Provider.importTags base text policy)
  removeTags paths d := d.callNamed name (Provider.removeTags paths)
  arrange

def types (d : Depot) : List (List String) := d.providers.map (Provider.browse Registry.typesFolder)

end Depot

end TagTypes
