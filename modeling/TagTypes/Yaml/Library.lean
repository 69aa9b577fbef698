import TagTypes.Disk.TextFile
import TagTypes.Yaml.Meaning
import TagTypes.Yaml.Writer

/-!
# Libraries for settings files

Settings are loaded and saved with a library that makes a value of the bytes of a file and writes entries to one. Nothing else is asked of it. The reader and the writer of this project make up a library of their own, `Library.standard`; it makes out the whole text of a file before it reads any of it.
-/

namespace TagTypes.Yaml

structure Library where
  /-- The value in a file with these bytes. -/
  load : ByteArray → Except Fault Value
  /-- What is written of some entries, and the fault at which the writing ended, if it did not go to the end. -/
  dump : List (String × Entry) → String × Option Fault

namespace Library

/-- A number of too many digits is found before anything is written. -/
def standard : Library where
  load content :=
    match Disk.decodeText content with
    | .ok text => read text
    | .error _ => .error .notText
  dump entries := if (Entry.group entries).value.hasTooLong then ("", some .tooLongToWrite) else (write entries, none)

end Library

end TagTypes.Yaml
