import TagTypes.Yaml.Base64
import TagTypes.Yaml.Merge
import TagTypes.Yaml.Node.Reader
import TagTypes.Yaml.Numeral
import TagTypes.Yaml.Value

/-!
# What a document means

Every node of a document gets a meaning: a value if it is a scalar, and otherwise a collection of nodes. Collections are filled one after the other in the order in which they are met, so that they may contain themselves; only a key is filled at once, because it has to be a scalar. The first fault met in this order is the fault of the document.
-/

namespace TagTypes.Yaml

inductive Meaning where
  | scalar (value : Value)
  | list (items : List NodeId)
  | map (entries : List (Value × NodeId))
  | set (items : List Value)
  | pairs (entries : List (NodeId × NodeId))
  deriving Inhabited

namespace Meaning

/-- The words for truth values, in small letters. -/
def truthOf? (word : String) : Option Bool :=
  if word ∈ ["yes", "true", "on"] then some true
  else if word ∈ ["no", "false", "off"] then some false
  else none

/-- The text of a scalar. A map with the key `=` has the text of the value there. -/
def textOf (nodes : Nodes) : Nat → NodeId → Except Fault String
  | 0, _ => .error .tooDeep
  | fuel + 1, id =>
    match nodes[id]? with
    | some ⟨_, .scalar text⟩ => .ok text
    | some ⟨_, .map entries⟩ =>
      match entries.find? fun entry => nodes.tagOf entry.1 = .value with
      | some entry => textOf nodes fuel entry.2
      | none => .error .malformed
    | _ => .error .malformed

def ofBool (text : String) : Except Fault Value :=
  let word := Text.lower text
  match truthOf? word with
  | some b => .ok (.bool b)
  | none => .error (.unknownWord word)

def ofBinary (text : String) : Except Fault Value :=
  if text.toList.any (127 < ·.toNat) then .error .malformed
  else match Base64.bytes? text.toList with
    | some bytes => .ok (.bytes bytes)
    | none => .error .malformed

def ofTimestamp (text : String) : Except Fault Value :=
  match Stamp.read? (dropLineEnd text.toList) with
  | none => .error .notMoment
  | some stamp =>
    match stamp.value with
    | .ok (.inl date) => .ok (.date date)
    | .ok (.inr moment) => .ok (.moment moment)
    | .error fault => .error (.calendar fault)

def ofScalar? (tag : Tag) (text : String) : Option (Except Fault Value) :=
  match tag with
  | .null => some (.ok .null)
  | .bool => some (ofBool text)
  | .int => some ((Numeral.whole text).map .int)
  | .real => some ((Numeral.real text).map .real)
  | .str => some (.ok (.str text))
  | .binary => some (ofBinary text)
  | .timestamp => some (ofTimestamp text)
  | _ => none

def ofCollection? : Tag → Option Meaning
  | .list => some (.list [])
  | .map => some (.map [])
  | .set => some (.set [])
  | .orderedMap | .pairs => some (.pairs [])
  | _ => none

structure Table where
  nodes : Nodes
  meanings : Array (Option Meaning)
  /-- The collections that are still to be filled, in their order. -/
  pending : List NodeId := []
  /-- The keys that are being filled. -/
  active : List NodeId := []

abbrev Finding := StateT Table (Except Fault)

def give (id : NodeId) (m : Meaning) : Finding Unit :=
  modify fun t => { t with meanings := t.meanings.modify id fun _ => some m }

def meaning? (id : NodeId) : Finding (Option Meaning) := return ((← get).meanings[id]?).join

def findScalar (id : NodeId) (tag : Tag) : Finding Unit := do
  let nodes := (← get).nodes
  let text ← textOf nodes (nodes.size + 1) id
  if let (.timestamp, some ⟨_, .map _⟩) := (tag, nodes[id]?) then throw .momentOfMap
  match ofScalar? tag text with
  | some (.ok v) => give id (.scalar v)
  | some (.error fault) => throw fault
  | none => throw .malformed

def isScalar (tag : Tag) : Bool := (ofScalar? tag "").isSome

/-- Give a value to a key that may be there already. -/
def placeEntry (key : Value) (value : NodeId) : List (Value × NodeId) → List (Value × NodeId)
  | [] => [(key, value)]
  | (k, v) :: rest => if k.sameKey key then (k, value) :: rest else (k, v) :: placeEntry key value rest

mutual

/-- Find the meaning of a node. A collection is filled `now` or put off. -/
def find (now : Bool) : Nat → NodeId → Finding Unit
  | 0, _ => throw .tooDeep
  | fuel + 1, id => do
    if (← meaning? id).isSome then return
    if (← get).active.contains id then throw .malformed
    let tag := (← get).nodes.tagOf id
    if isScalar tag then findScalar id tag
    else
      match ofCollection? tag with
      | none => throw .malformed
      | some m =>
        if now then
          modify fun t => { t with active := id :: t.active }
          let m ← contents true fuel id tag
          modify fun t => { t with active := t.active.erase id }
          give id m
        else
          give id m
          modify fun t => { t with pending := t.pending ++ [id] }

def contents (now : Bool) : Nat → NodeId → Tag → Finding Meaning
  | 0, _, _ => throw .tooDeep
  | fuel + 1, id, tag => do
    match tag with
    | .list =>
      match (← get).nodes[id]? with
      | some ⟨_, .list items⟩ =>
        items.forM (find now fuel)
        return .list items
      | _ => throw .malformed
    | .map => return .map (← entries now fuel id)
    | .set => return .set ((← entries now fuel id).map (·.1))
    | _ =>
      match (← get).nodes[id]? with
      | some ⟨_, .list items⟩ => return .pairs (← items.mapM (onlyEntry now fuel))
      | _ => throw .malformed

def entries (now : Bool) : Nat → NodeId → Finding (List (Value × NodeId))
  | 0, _ => throw .tooDeep
  | fuel + 1, id => do
    match (← get).nodes[id]? with
    | some ⟨_, .map _⟩ =>
      let nodes ← (← get).nodes.flatten id
      modify fun t => { t with nodes }
      (nodes.entries id).foldlM (fun known (key, value) => do
        find true fuel key
        match ← meaning? key with
        | some (.scalar k) =>
          find now fuel value
          return placeEntry k value known
        | _ => throw .malformed) []
    | _ => throw .malformed

/-- The entry of a map that has no other. -/
def onlyEntry (now : Bool) : Nat → NodeId → Finding (NodeId × NodeId)
  | 0, _ => throw .tooDeep
  | fuel + 1, id => do
    match (← get).nodes[id]? with
    | some ⟨_, .map [(key, value)]⟩ =>
      find now fuel key
      find now fuel value
      return (key, value)
    | _ => throw .malformed

end

/-- Enough steps to go through all nodes along any path: three for each. -/
def fuelFor (nodes : Nodes) : Nat := 3 * nodes.size + 3

/-- Fill the collections that were put off. -/
def fillPending : Nat → Finding Unit
  | 0 => throw .tooDeep
  | fuel + 1 => do
    match (← get).pending with
    | [] => return
    | id :: rest =>
      modify fun t => { t with pending := rest }
      let nodes := (← get).nodes
      give id (← contents false (fuelFor nodes) id (nodes.tagOf id))
      fillPending fuel

/-- The meanings of the nodes that a node leads to. -/
def all (nodes : Nodes) (root : NodeId) : Except Fault (Array (Option Meaning)) := do
  let start : Table := { nodes, meanings := Array.replicate nodes.size none }
  let find : Finding Unit := do
    find false (fuelFor nodes) root
    fillPending (nodes.size + 1)
  return (← find.run start).2.meanings

def shape : Meaning → Shape
  | .map _ => .map
  | .set _ => .set
  | _ => .list

def members : Meaning → List NodeId
  | .scalar _ | .set _ => []
  | .list items => items
  | .map entries => entries.map (·.2)
  | .pairs entries => entries.flatMap fun (k, v) => [k, v]

def membersOf (meanings : Array (Option Meaning)) (id : NodeId) : List NodeId :=
  (meanings[id]?.join.map members).getD []

/-- Whether `goal` is found by going on from the given nodes, of which those in `seen` are done. -/
def reaches (meanings : Array (Option Meaning)) (goal : NodeId) : Nat → List NodeId → List NodeId → Bool
  | 0, _, _ => false
  | _, [], _ => false
  | fuel + 1, id :: rest, seen =>
    id = goal || if seen.contains id then reaches meanings goal fuel rest seen
      else reaches meanings goal fuel (membersOf meanings id ++ rest) (id :: seen)

def isCyclic (meanings : Array (Option Meaning)) (id : NodeId) : Bool :=
  let steps := meanings.foldl (fun n m => n + ((m.map members).getD []).length) 0
  reaches meanings id (steps + 1) (membersOf meanings id) []

/-- The value of a node inside the nodes of `path`. -/
def value (meanings : Array (Option Meaning)) (isCyclic : NodeId → Bool) : Nat → List NodeId → NodeId → Value
  | 0, _, _ => .null
  | fuel + 1, path, id =>
    match meanings[id]?.join with
    | none => .null
    | some m =>
      if path.contains id then .again id m.shape
      else
        let inner := value meanings isCyclic fuel (id :: path)
        let v := match m with
          | .scalar v => v
          | .list items => .list (items.map inner)
          | .map entries => .map (entries.map fun (k, id) => (k, inner id))
          | .set items => .set items
          | .pairs entries => .pairs (entries.map fun (k, v) => (inner k, inner v))
        if isCyclic id then .anchored id v else v

end Meaning

/-- The value of a document; an empty one stands for no value. -/
def Document.value (d : Document) : Except Fault Value :=
  match d.root with
  | none => .ok .null
  | some root => do
    let meanings ← Meaning.all d.nodes root
    return Meaning.value meanings (Meaning.isCyclic meanings) (d.nodes.size + 1) [] root

def read (text : String) : Except Fault Value := do (← Document.read text).value

end TagTypes.Yaml
