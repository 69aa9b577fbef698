import TagTypes.Dict
import TagTypes.Disk.FilePath
import TagTypes.Text.Sorted

/-!
# The disk

A disk is a tree of directories and files, kept as a map from places, which are lists of names from the root, to what is there. There are no links, so every part `..` of a path leads to the directory above. An operation walks along its path: each part before the last must be a directory that is there, and no name may be longer than 255 bytes, nor the whole path longer than 4095. What an operation did before it failed stays done. A write empties its file first, so one that is struck later on leaves a file that is cut.
-/

namespace TagTypes

inductive DiskNode where
  | directory
  | file (content : ByteArray)
  deriving Inhabited

structure Disk where
  nodes : Dict (List String) DiskNode := ∅
  workingDirectory : List String := []
  deriving Inhabited

inductive DiskFault where
  | missing
  | alreadyThere
  | isDirectory
  | notDirectory
  | nameTooLong
  | embeddedNull
  | noRoom
  | unencodable
  deriving DecidableEq, Repr

/-- A computation that reads and changes a disk and may fail. -/
abbrev DiskAction (α : Type) := ExceptT DiskFault (StateM Disk) α

namespace Disk

def maxNameBytes : Nat := 255

def maxPathBytes : Nat := 4095

/-- What is at a place; the root is a directory. -/
def node? (d : Disk) (place : List String) : Option DiskNode :=
  if place.isEmpty then some .directory else d.nodes.get? place

/-- What the last part of a path stands for: a name in a directory, which need not be taken, or a directory that is there. -/
inductive Target where
  | entry (directory : List String) (name : String)
  | directory (place : List String)

/-- Walk from the directory `place` through the given parts. -/
def walk (d : Disk) (place : List String) : List String → Except DiskFault (List String)
  | [] => .ok place
  | part :: rest =>
    if part = ".." then walk d place.dropLast rest
    else if maxNameBytes < part.utf8ByteSize then .error .nameTooLong
    else match d.node? (place ++ [part]) with
      | none => .error .missing
      | some (.file _) => .error .notDirectory
      | some .directory => walk d (place ++ [part]) rest

def start (d : Disk) (p : FilePath) : List String := if p.isAbsolute then [] else d.workingDirectory

def locate (d : Disk) (p : FilePath) : Except DiskFault Target :=
  if p.parts.any (·.toList.contains '\x00') then .error .embeddedNull
  else if maxPathBytes < p.text.utf8ByteSize then .error .nameTooLong
  else match p.parts.getLast? with
    | none => .ok (.directory (d.start p))
    | some ".." => (d.walk (d.start p) p.parts).map .directory
    | some name => do
      let directory ← d.walk (d.start p) p.parts.dropLast
      if maxNameBytes < name.utf8ByteSize then .error .nameTooLong
      else return .entry directory name

/-- The place of what a path leads to, and what is there. -/
def status (d : Disk) (p : FilePath) : Except DiskFault (List String × DiskNode) := do
  match ← d.locate p with
  | .directory place => return (place, .directory)
  | .entry directory name =>
    match d.node? (directory ++ [name]) with
    | some node => return (directory ++ [name], node)
    | none => .error .missing

def isDirectoryAt (d : Disk) (p : FilePath) : Bool :=
  match d.status p with
  | .ok (_, .directory) => true
  | _ => false

def namesIn (d : Disk) (place : List String) : List String :=
  Text.sorted (d.nodes.keys.filterMap fun key =>
    if key.dropLast = place then key.getLast? else none)

/-- All places below a directory with what is there, as relative places. -/
def below (d : Disk) (place : List String) : List (List String × DiskNode) :=
  d.nodes.entries.filterMap fun (key, node) =>
    if place.isPrefixOf key && place.length < key.length then some (key.drop place.length, node) else none

def set (d : Disk) (place : List String) (node : DiskNode) : Disk :=
  { d with nodes := d.nodes.insert place node }

def remove (d : Disk) (place : List String) : Disk := { d with nodes := d.nodes.erase place }

def removeTree (d : Disk) (place : List String) : Disk :=
  { d with nodes := ⟨d.nodes.entries.filter fun e => !place.isPrefixOf e.1, Dict.nodup_filter _ d.nodes.nodup⟩ }

def ask (f : Disk → Except DiskFault α) : DiskAction α := do
  match f (← get) with
  | .ok a => return a
  | .error fault => throw fault

/-- Make one directory, which must not be there. -/
def makeDirectory (p : FilePath) : DiskAction Unit := do
  match ← ask (locate · p) with
  | .directory _ => throw .alreadyThere
  | .entry directory name =>
    match (← get).node? (directory ++ [name]) with
    | some _ => throw .alreadyThere
    | none => modify (set · (directory ++ [name]) .directory)

def ensureDirectory (p : FilePath) : DiskAction Unit :=
  tryCatch (makeDirectory p) fun fault => do
    if fault = .missing || fault = .embeddedNull || !(← get).isDirectoryAt p then throw fault

/-- Make the directory that the given parts lead to, last part first, and those above it. -/
def ensureDirectoriesTo (anchor : Anchor) : List String → DiskAction Unit
  | [] => pure ()
  | name :: above =>
    let p : FilePath := ⟨anchor, (name :: above).reverse⟩
    tryCatch (ensureDirectory p) fun fault => do
      if fault = .missing then
        ensureDirectoriesTo anchor above
        ensureDirectory p
      else throw fault

/-- Make a directory and those above it, as far as they are missing. -/
def ensureDirectories (p : FilePath) : DiskAction Unit := ensureDirectoriesTo p.anchor p.parts.reverse

def writeFile (p : FilePath) (content : ByteArray) : DiskAction Unit := do
  match ← ask (locate · p) with
  | .directory _ => throw .isDirectory
  | .entry directory name =>
    match (← get).node? (directory ++ [name]) with
    | some .directory => throw .isDirectory
    | _ => modify (set · (directory ++ [name]) (.file content))

/-- What may strike a write when its file is empty already: there is room for some of the bytes only, or the text to be written turns out to have no bytes, as one with half a surrogate pair in it has none. -/
inductive Strike where
  | noRoom (kept : Nat)
  | unencodable
  deriving DecidableEq, Repr

/-- What a struck write leaves of the content. -/
def Strike.left : Strike → ByteArray → ByteArray
  | .noRoom kept, content => content.extract 0 kept
  | .unencodable, _ => ByteArray.empty

def Strike.fault : Strike → DiskFault
  | .noRoom _ => .noRoom
  | .unencodable => .unencodable

def readFile (d : Disk) (p : FilePath) : Except DiskFault ByteArray := do
  match ← d.status p with
  | (_, .file content) => return content
  | (_, .directory) => .error .isDirectory

def removeFile (p : FilePath) : DiskAction Unit := do
  match ← ask (locate · p) with
  | .directory _ => throw .isDirectory
  | .entry directory name =>
    match (← get).node? (directory ++ [name]) with
    | none => throw .missing
    | some .directory => throw .isDirectory
    | some (.file _) => modify (remove · (directory ++ [name]))

def removeFileIfThere (p : FilePath) : DiskAction Unit :=
  tryCatch (removeFile p) fun fault => if fault = .missing then pure () else throw fault

def removeDirectoryTree (p : FilePath) : DiskAction Unit := do
  match ← ask (status · p) with
  | (place, .directory) => modify (removeTree · place)
  | (_, .file _) => throw .notDirectory

end Disk

end TagTypes
