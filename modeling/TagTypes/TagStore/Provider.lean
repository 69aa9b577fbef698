import TagTypes.Disk.TextFile
import TagTypes.Json.Halves
import TagTypes.Json.Printer
import TagTypes.TagStore.Basic

/-!
# Tag providers

A provider holds a tag store under a name. One with a folder on disk also keeps each definition as a file there: the definition at `a/b` is the file `a/b.json` below the folder. It writes the file before it takes the definition into the store, and when it is opened it takes in the files that are there. An import that fails at some definition keeps what it did for those before.

A definition is stored as a copy, which can be made of values that are nested `maxCopyDepth` deep at most. The write of a file may be struck; it is if the definition has half a surrogate pair in it.
-/

namespace TagTypes

inductive ProviderError where
  | payload (fault : PayloadFault)
  | writeFailed (file : FilePath)
  | removeFailed (file : FilePath)
  | folder (fault : DiskFault)
  | embeddedNull
  | unencodable
  | tooDeep (collection : String)
  | tooDeepToCopy

def ProviderError.message : ProviderError → String
  | .payload .unreadable => "Invalid tag definition JSON"
  | .payload (.wrongShape found) => "Tag definition JSON must be an object or array, got " ++ found.typeName
  | .payload (.tooDeep collection) | .tooDeep collection => (Json.ReadError.tooDeep collection).message
  | .writeFailed file => "Failed to write tag definition: " ++ file.text
  | .removeFailed file => "Failed to delete tag definition: " ++ file.text
  | .folder _ | .unencodable => ""
  | .embeddedNull => "embedded null byte"
  | .tooDeepToCopy => "maximum recursion depth exceeded"

structure TagProvider where
  name : String
  folder : Option FilePath := none
  tags : Tags := ∅
  deriving Inhabited

namespace TagProvider

-- the instances of the core library, also where others are imported
attribute [local instance (high)] List.instLE List.decidableLE

/-- The file of the definition at `path` below `folder`. -/
def fileFor (folder : FilePath) (path : String) : FilePath := folder.join (FilePath.parse (path ++ ".json"))

/-- Run a disk operation; a fault becomes `error`, unless it is a null character in a name or a text without bytes. -/
def onDisk (action : DiskAction Unit) (error : ProviderError) (disk : Disk) : Except ProviderError Unit × Disk :=
  match action disk with
  | (.ok _, disk) => (.ok (), disk)
  | (.error .embeddedNull, disk) => (.error .embeddedNull, disk)
  | (.error .unencodable, disk) => (.error .unencodable, disk)
  | (.error _, disk) => (.error error, disk)

/-- Write the file of a definition, if the provider has a folder. -/
def keep (folder : Option FilePath) (path : String) (definition : Json) (strike : Option Disk.Strike) (disk : Disk) :
    Except ProviderError Unit × Disk :=
  match folder with
  | none => (.ok (), disk)
  | some folder =>
    let file := fileFor folder path
    onDisk (do Disk.ensureDirectories file.parent; Disk.writeTextUnder strike file definition.indentedText)
      (.writeFailed file) disk

/-- Remove the file of a definition, if the provider has a folder. -/
def discard (folder : Option FilePath) (path : String) (disk : Disk) : Except ProviderError Unit × Disk :=
  match folder with
  | none => (.ok (), disk)
  | some folder => onDisk (Disk.removeFileIfThere (fileFor folder path)) (.removeFailed (fileFor folder path)) disk

/-- Put the result for one item in front of those for the rest. -/
def withResult (q : Quality) (rest : Except ProviderError (List Quality) × α) :
    Except ProviderError (List Quality) × α :=
  (rest.1.map (q :: ·), rest.2)

/-- Import definitions one after the other into a folder in normal form. `strikes` says for each definition what strikes the write of its file; where it ends, no write is struck any more. -/
def importAll (p : TagProvider) (policy : CollisionPolicy) (folder : String) (disk : Disk) :
    List (Option Disk.Strike) → List Json → Except ProviderError (List Quality) × TagProvider × Disk
  | _, [] => (.ok [], p, disk)
  | strikes, definition :: rest =>
    match p.tags.admission policy folder definition with
    | .settled q => withResult q (importAll p policy folder disk strikes.tail rest)
    | .store path =>
      if Tags.isCopyable definition then
        match keep p.folder path definition strikes.head?.join disk with
        | (.error e, disk) => (.error e, p, disk)
        | (.ok _, disk) =>
          withResult .good (importAll { p with tags := p.tags.insert path definition } policy folder disk strikes.tail rest)
      else (.error .tooDeepToCopy, p, disk)

/-- The strikes for the definitions in a text that have half a surrogate pair in them. -/
def halfStrikes (text : String) : List (Option Disk.Strike) :=
  match readDefinitions text, readDefinitions (Json.remarked text) with
  | .ok definitions, .ok others =>
    List.zipWith (fun v w => if v.compactText = w.compactText then none else some .unencodable) definitions others
  | _, _ => []

def importTags (p : TagProvider) (base text : String) (policy : CollisionPolicy) (disk : Disk)
    (strikes : List (Option Disk.Strike) := []) : Except ProviderError (List Quality) × TagProvider × Disk :=
  match readDefinitions text with
  | .error fault => (.error (.payload fault), p, disk)
  | .ok definitions =>
    importAll p policy (TagPath.normalize base) disk (if Json.hasLoneHalf text then halfStrikes text else strikes) definitions

/-- Remove the definitions at some paths, one after the other. -/
def removeTags (p : TagProvider) (disk : Disk) :
    List String → Except ProviderError (List Quality) × TagProvider × Disk
  | [] => (.ok [], p, disk)
  | path :: rest =>
    let path := TagPath.normalize path
    if p.tags.contains path then
      match discard p.folder path disk with
      | (.error e, disk) => (.error e, p, disk)
      | (.ok _, disk) => withResult .good (removeTags { p with tags := p.tags.erase path } disk rest)
    else withResult .notFound (removeTags p disk rest)

/-- The places of definition files below a directory, relative to it and in order. -/
def definitionPlaces (disk : Disk) (place : List String) : List (List String) :=
  ((disk.below place).map Prod.fst).filter (fun parts => ".json".toList.isSuffixOf (parts.getLast?.getD "").toList)
    |>.mergeSort fun a b => decide (a ≤ b)

def tagPathOf (parts : List String) : String :=
  String.intercalate "/" (parts.dropLast ++ [FilePath.stemOf (parts.getLast?.getD "")])

/-- Take one file into a store; a file that is not a JSON text is passed over. -/
def load (disk : Disk) (place : List String) (tags : Tags) (parts : List String) : Except ProviderError Tags :=
  match disk.node? (place ++ parts) with
  | some (.file content) =>
    match Disk.decodeText content with
    | .error _ => .ok tags
    | .ok text =>
      match Json.read text with
      | .ok definition => .ok (tags.insert (tagPathOf parts) definition)
      | .error (.tooDeep collection) => .error (.tooDeep collection)
      | .error _ => .ok tags
  | _ => .ok tags

def openFolder (name : String) (folder : FilePath) (disk : Disk) : Except ProviderError TagProvider :=
  match disk.status folder with
  | .error .nameTooLong => .error (.folder .nameTooLong)
  | .ok (place, .directory) => do
    let tags ← (definitionPlaces disk place).foldlM (load disk place) ∅
    return { name, folder := some folder, tags }
  | _ => .ok { name, folder := some folder }

end TagProvider

end TagTypes
