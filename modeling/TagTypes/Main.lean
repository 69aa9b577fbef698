import TagTypes.CommandLine.Publish
import TagTypes.CommandLine.Serve

/-!
# The program

The program reads the files below the working directory, runs a command on them, and carries what the command changed back to the disk. The word `publish` in front selects the command that publishes a schema; otherwise types are served. The program has no network of its own, so every broker counts as unreachable.
-/

namespace TagTypes.Program

-- the instance of the core library, also where another one is imported
attribute [local instance (high)] ByteArray.instDecidableEq

def pathText (place : List String) : String := String.intercalate "/" ("." :: place)

/-- Add the entries of a directory of the real disk and what is below them. -/
partial def readEntries (place : List String) (entries : Array IO.FS.DirEntry) (disk : Disk) : IO Disk := do
  let mut disk := disk
  for entry in entries do
    let inner := place ++ [entry.fileName]
    if ← entry.path.isDir then
      disk ← readEntries inner (← entry.path.readDir) (disk.set inner .directory)
    else
      disk := disk.set inner (.file (← IO.FS.readBinFile entry.path))
  return disk

/-- Make the real disk hold what `after` has and `before` has not, and drop what only `before` has. -/
def writeChanges (before after : Disk) : IO Unit := do
  for (place, node) in after.nodes.entries do
    match node, before.node? place with
    | .directory, none => IO.FS.createDirAll (pathText place)
    | .file content, some (.file old) => if content ≠ old then IO.FS.writeBinFile (pathText place) content
    | .file content, _ => IO.FS.writeBinFile (pathText place) content
    | _, _ => pure ()
  for (place, node) in before.nodes.entries do
    match node, after.node? place with
    | .file _, none => IO.FS.removeFile (pathText place)
    | _, _ => pure ()

def conditions : Broker.Conditions := { connectFault := some (.unreachable "no network") }

def run (words : List String) (disk : Disk) : CommandLine.Outcome :=
  match words with
  | "publish" :: rest => CommandLine.Publish.run rest conditions disk
  | words => CommandLine.Serve.run .standard words conditions disk

end TagTypes.Program

def main (words : List String) : IO UInt32 := do
  let before ← TagTypes.Program.readEntries [] (← (← IO.currentDir).readDir) {}
  let outcome := TagTypes.Program.run words before
  TagTypes.Program.writeChanges before outcome.disk
  IO.print outcome.output
  match outcome.code with
  | .ok code => return code.toUInt32
  | .error _ => return 1
