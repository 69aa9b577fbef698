import TagTypes.Text.Split

/-!
# References between schemas

A reference names a schema by a path or an address. The type it means is the last part of it, without the ending of a schema file.
-/

namespace TagTypes.Schema

def dropEnding (ending cs : List Char) : List Char :=
  if ending.isSuffixOf cs then cs.take (cs.length - ending.length) else cs

/-- The type that a reference means. A reference without a slash is the name of the type itself. -/
def referenceName (reference : String) : String :=
  let cs := reference.toList
  if cs.contains '/' then String.ofList (dropEnding ".json".toList (Text.afterLast '/' cs)) else reference

end TagTypes.Schema
