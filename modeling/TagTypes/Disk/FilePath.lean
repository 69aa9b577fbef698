import TagTypes.Text.Split

/-!
# File paths

A path is a way from a starting point, which is the working directory, the root, or the place that two leading slashes stand for. Repeated slashes and the part `.` say nothing and are dropped; the part `..` is kept, since where it leads depends on the disk.
-/

namespace TagTypes

inductive Anchor where
  | here | root | doubleRoot
  deriving DecidableEq, Repr, Inhabited

structure FilePath where
  anchor : Anchor
  parts : List String
  deriving DecidableEq, Repr, Inhabited

namespace FilePath

/-- The parts of a path text that lead anywhere. -/
def partsOf (text : String) : List String :=
  ((Text.split '/' text.toList).map String.ofList).filter fun part => part ≠ "" && part ≠ "."

def anchorOf (text : String) : Anchor :=
  match text.toList with
  | '/' :: '/' :: '/' :: _ => .root
  | '/' :: '/' :: _ => .doubleRoot
  | '/' :: _ => .root
  | _ => .here

def parse (text : String) : FilePath := ⟨anchorOf text, partsOf text⟩

def text (p : FilePath) : String :=
  match p.anchor with
  | .here => if p.parts.isEmpty then "." else String.intercalate "/" p.parts
  | .root => "/" ++ String.intercalate "/" p.parts
  | .doubleRoot => "//" ++ String.intercalate "/" p.parts

def isAbsolute (p : FilePath) : Bool := p.anchor ≠ .here

/-- `q` as seen from `p`: `q` itself if it is absolute. -/
def join (p q : FilePath) : FilePath :=
  if q.isAbsolute then q else { p with parts := p.parts ++ q.parts }

def child (p : FilePath) (name : String) : FilePath := { p with parts := p.parts ++ [name] }

def parent (p : FilePath) : FilePath := { p with parts := p.parts.dropLast }

/-- The last part; none for a starting point. -/
def name (p : FilePath) : String := p.parts.getLast?.getD ""

/-- A name without its ending: what stands before the last point, unless that is nothing or the point comes last. -/
def stemOf (name : String) : String :=
  let back := name.toList.reverse
  let ending := back.takeWhile (· ≠ '.')
  let stem := (back.dropWhile (· ≠ '.')).drop 1
  if ending.isEmpty || stem.isEmpty then name else String.ofList stem.reverse

def stem (p : FilePath) : String := stemOf p.name

end FilePath

/-- A path from the settings, which counts from the data directory unless it is absolute. -/
def resolvePath (dataDirectory path : String) : FilePath :=
  (FilePath.parse dataDirectory).join (FilePath.parse path)

end TagTypes
