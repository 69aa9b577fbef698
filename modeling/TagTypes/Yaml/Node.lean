import TagTypes.Yaml.Tag

/-!
# Nodes

A document is a graph of nodes: scalars, lists and maps, each with a tag. The nodes stand in a table and refer to each other by their places in it, so that a node can be in several places of a document, and even inside itself.
-/

namespace TagTypes.Yaml

abbrev NodeId := Nat

inductive Content where
  | scalar (text : String)
  | list (items : List NodeId)
  | map (entries : List (NodeId × NodeId))
  deriving Inhabited

structure Node where
  tag : Tag
  content : Content
  deriving Inhabited

abbrev Nodes := Array Node

/-- A document has a root unless it is empty. -/
structure Document where
  nodes : Nodes := #[]
  root : Option NodeId := none
  deriving Inhabited

end TagTypes.Yaml
