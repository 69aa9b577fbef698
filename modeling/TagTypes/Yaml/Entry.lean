import TagTypes.Yaml.Value

/-!
# Entries

What is written to a settings file: named entries, each with a text, a whole number, a truth value or a group of entries of its own. The names are plain words.
-/

namespace TagTypes.Yaml

inductive Entry where
  | text (value : String)
  | int (value : Int)
  | bool (value : Bool)
  | group (entries : List (String × Entry))
  deriving Inhabited

namespace Entry

mutual

def value : Entry → Value
  | .text s => .str s
  | .int n => .int n
  | .bool b => .bool b
  | .group entries => .map (values entries)

def values : List (String × Entry) → List (Value × Value)
  | [] => []
  | (name, entry) :: rest => (.str name, entry.value) :: values rest

end

end Entry

end TagTypes.Yaml
