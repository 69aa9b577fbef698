import TagTypes.Text.Split

/-!
# Topic filters

A topic is a text divided into levels by slashes. A filter is one as well, in which the level `+` stands for any level and a last level `#` for any number of levels, none included. A wildcard in first place does not match topics that begin with a dollar sign.
-/

namespace TagTypes.Broker.TopicFilter

def levels (text : String) : List (List Char) := Text.split '/' text.toList

/-- Whether filter levels match topic levels; `wild` says whether a wildcard may come first. -/
def matchLevels : Bool → List (List Char) → List (List Char) → Bool
  | _, [], [] => true
  | _, [], _ :: _ => false
  | wild, f :: fs, [] => wild && f = ['#'] && fs.isEmpty
  | wild, f :: fs, t :: ts =>
    wild && f = ['#'] && fs.isEmpty || (f = t || wild && f = ['+']) && matchLevels true fs ts

def admits (filter topic : String) : Bool :=
  matchLevels (topic.toList.head? ≠ some '$') (levels filter) (levels topic)

/-- What is left of a filter without its wildcards and one slash at the end. -/
def base (filter : String) : String :=
  let cs := filter.toList.filter fun c => c ≠ '#' && c ≠ '+'
  String.ofList (if cs.getLast? = some '/' then cs.dropLast else cs)

end TagTypes.Broker.TopicFilter
