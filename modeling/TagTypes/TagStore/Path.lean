import TagTypes.Text.Split

/-!
# Tag paths

A tag path names a tag by the folders it lies in. Slashes at the ends and repeated slashes do not count, so each tag has one path in normal form.
-/

namespace TagTypes.TagPath

def segments (path : String) : List String :=
  ((Text.split '/' path.toList).map String.ofList).filter (· ≠ "")

def normalize (path : String) : String := String.intercalate "/" (segments path)

/-- The path of `name` in a folder in normal form. -/
def inFolder (folder name : String) : String := if folder = "" then name else folder ++ "/" ++ name

/-- What comes before the name of a tag in the folder. -/
def lead (folder : String) : List Char := if folder = "" then [] else folder.toList ++ ['/']

/-- The name of the tag at `path`, if it lies in the folder itself. -/
def nameIn? (folder path : String) : Option String :=
  let lead := lead folder
  let cs := path.toList
  if lead.isPrefixOf cs then
    let name := cs.drop lead.length
    if name.contains '/' then none else some (String.ofList name)
  else none

end TagTypes.TagPath
