import TagTypes.Yaml.Fault
import TagTypes.Yaml.Node

/-!
# Merged maps

The key `<<` takes over the entries of another map, or of a list of maps of which the first counts most. They are put in front of the entries that the map has of its own, which therefore win. The other map is merged first, and a map may take over its own entries, which changes nothing.

A merge uses up the entry with its key, so there are no more steps than such entries.
-/

namespace TagTypes.Yaml.Nodes

def entries (nodes : Nodes) (id : NodeId) : List (NodeId × NodeId) :=
  match nodes[id]? with
  | some ⟨_, .map entries⟩ => entries
  | _ => []

def setEntries (nodes : Nodes) (id : NodeId) (entries : List (NodeId × NodeId)) : Nodes :=
  nodes.modify id fun node => { node with content := .map entries }

def tagOf (nodes : Nodes) (id : NodeId) : Tag := (nodes[id]?.map Node.tag).getD .unknown

def isMerge (nodes : Nodes) (entry : NodeId × NodeId) : Bool := nodes.tagOf entry.1 = .merge

def mergeCount (nodes : Nodes) : Nat :=
  (List.range nodes.size).foldl (fun n id => n + ((nodes.entries id).filter nodes.isMerge).length) 0

/-- The key `=` of a map is a text. -/
def nameDefaults (nodes : Nodes) (entries : List (NodeId × NodeId)) : Nodes :=
  entries.foldl (fun nodes entry =>
    nodes.modify entry.1 fun node => if node.tag = .value then { node with tag := .str } else node) nodes

def isMap (nodes : Nodes) (id : NodeId) : Bool :=
  match nodes[id]? with
  | some ⟨_, .map _⟩ => true
  | _ => false

/-- Merge into the map `id`, to which the entries `merged` are already due. -/
def mergeInto : Nat → List (NodeId × NodeId) → NodeId → Nodes → Except Fault Nodes
  | 0, _, _, _ => .error .tooDeep
  | fuel + 1, merged, id, nodes =>
    let all := nodes.entries id
    let before := all.takeWhile (!nodes.isMerge ·)
    match all.drop before.length with
    | [] => .ok ((nodes.nameDefaults all).setEntries id (merged ++ all))
    | entry :: after => do
      let nodes := nodes.setEntries id (before ++ after)
      match nodes[entry.2]? with
      | some ⟨_, .map _⟩ =>
        let nodes ← mergeInto fuel [] entry.2 nodes
        mergeInto fuel (merged ++ nodes.entries entry.2) id nodes
      | some ⟨_, .list items⟩ =>
        let nodes ← items.foldlM (fun (nodes : Nodes) item =>
          if nodes.isMap item then mergeInto fuel [] item nodes else throw .malformed) nodes
        mergeInto fuel (merged ++ items.reverse.flatMap nodes.entries) id nodes
      | _ => throw .malformed

def flatten (id : NodeId) (nodes : Nodes) : Except Fault Nodes := mergeInto (nodes.mergeCount + 1) [] id nodes

end TagTypes.Yaml.Nodes
