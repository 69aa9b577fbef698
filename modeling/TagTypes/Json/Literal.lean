import TagTypes.Json.Basic
import TagTypes.Number.Shortest
import TagTypes.Text.Quoted

/-!
# Values in messages

The text by which a message shows a JSON value: words with a capital for truth values and the empty value, texts quoted, lists in brackets and objects in braces. A value that is named by its text (`display`) is shown without quotes if it is a text itself.
-/

namespace TagTypes.Json

mutual

def literalChars : Json → List Char
  | .null => "None".toList
  | .bool b => if b then "True".toList else "False".toList
  | .int n => (Text.intText n).toList
  | .real x => Binary64.print Binary64.plainStyle x
  | .str s => Text.quotedChars s.toList
  | .arr items => '[' :: literalItems items ++ [']']
  | .obj fields => '{' :: literalFields fields ++ ['}']

def literalItems : List Json → List Char
  | [] => []
  | [v] => literalChars v
  | v :: rest => literalChars v ++ ',' :: ' ' :: literalItems rest

def literalFields : List (String × Json) → List Char
  | [] => []
  | [(name, v)] => Text.quotedChars name.toList ++ ':' :: ' ' :: literalChars v
  | (name, v) :: rest =>
    Text.quotedChars name.toList ++ ':' :: ' ' :: literalChars v ++ ',' :: ' ' :: literalFields rest

end

def literal (v : Json) : String := String.ofList (literalChars v)

def display : Json → String
  | .str s => s
  | v => v.literal

end TagTypes.Json
