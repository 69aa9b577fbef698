import TagTypes.Yaml.Node
import TagTypes.Yaml.Token.Reader

/-!
# Reading nodes

The tokens of a text are read into one document. A list or a map gets its place in the table before its members are read, so that they may refer to it. In a map of block form a list needs no indentation of its own.

Where the grammar allows a node and none is given, an empty scalar stands for it.
-/

namespace TagTypes.Yaml

namespace Document

structure Reader where
  tokens : List Token
  /-- Why there are no more tokens. -/
  fault : Fault
  nodes : Nodes := #[]
  anchors : List (String × NodeId) := []
  /-- What the handles of tags stand for. -/
  handles : List (String × String) := []

abbrev Reading := StateT Reader (Except Fault)

def maxDepth : Nat := 485

def standardHandles : List (String × String) := [("!", "!"), ("!!", "tag:yaml.org,2002:")]

def peek : Reading Token := do
  match (← get).tokens with
  | t :: _ => return t
  | [] => throw (← get).fault

def pass : Reading Unit := modify fun r => { r with tokens := r.tokens.tail }

def passIf (t : Token) : Reading Bool := do
  if (← peek) = t then
    pass
    return true
  else return false

def nextIs (ts : List Token) : Reading Bool := return ts.contains (← peek)

def add (node : Node) : Reading NodeId :=
  modifyGet fun r => (r.nodes.size, { r with nodes := r.nodes.push node })

def fill (id : NodeId) (content : Content) : Reading Unit :=
  modify fun r => { r with nodes := r.nodes.modify id fun node => { node with content } }

def empty : Reading NodeId := add ⟨.ofPlain "", .scalar ""⟩

/-- What is said about a node in front of it. -/
structure Properties where
  anchor : Option String := none
  /-- The full name of the tag. -/
  tag : Option String := none

def anchor? : Reading (Option String) := do
  match ← peek with
  | .anchor name =>
    pass
    return some name
  | _ => return none

def tag? : Reading (Option (Option String × String)) := do
  match ← peek with
  | .tag handle suffix =>
    pass
    return some (handle, suffix)
  | _ => return none

/-- The full name of a tag, in which the handle is replaced by what it stands for. -/
def tagName : Option (Option String × String) → Reading (Option String)
  | none => return none
  | some (none, suffix) => return some suffix
  | some (some handle, suffix) => do
    match (← get).handles.lookup handle with
    | some stem => return some (stem ++ suffix)
    | none => throw .malformed

/-- The anchor and the tag of a node, in either order. -/
def properties : Reading Properties := do
  match ← anchor? with
  | some name => return ⟨some name, ← tagName (← tag?)⟩
  | none =>
    let tag ← tag?
    let anchor ← if tag.isSome then anchor? else pure none
    return ⟨anchor, ← tagName tag⟩

namespace Properties

/-- A tag that leaves the kind of value open. -/
def isOpen (p : Properties) : Bool := p.tag = none || p.tag = some "!"

/-- The tag of a scalar; a single exclamation mark makes it count as plain. -/
def scalarTag (p : Properties) (text : String) (isPlain : Bool) : Tag :=
  match p.tag with
  | none => if isPlain then .ofPlain text else .str
  | some "!" => .ofPlain text
  | some name => .ofName name

def collectionTag (p : Properties) (usual : Tag) : Tag :=
  if p.isOpen then usual else .ofName (p.tag.getD "")

end Properties

/-- Add a node and let its anchor stand for it. -/
def addAnchored (p : Properties) (node : Node) : Reading NodeId := do
  let id ← add node
  match p.anchor with
  | none => return id
  | some name =>
    if ((← get).anchors.lookup name).isSome then throw .malformed
    modify fun r => { r with anchors := (name, id) :: r.anchors }
    return id

/-- A list whose items are read by `items`. -/
def listNode (p : Properties) (items : Reading (List NodeId)) : Reading NodeId := do
  let id ← addAnchored p ⟨p.collectionTag .list, .list []⟩
  fill id (.list (← items))
  return id

/-- A map whose entries are read by `entries`. -/
def mapNode (p : Properties) (entries : Reading (List (NodeId × NodeId))) : Reading NodeId := do
  let id ← addAnchored p ⟨p.collectionTag .map, .map []⟩
  fill id (.map (← entries))
  return id

/-- Which forms a node may have. -/
inductive Form where
  | flow
  | block
  /-- A block, or a list without an indentation of its own. -/
  | entry
  deriving DecidableEq

mutual

/-- A node at the given depth. -/
def node : Nat → Nat → Form → Reading NodeId
  | 0, _, _ => throw .tooDeep
  | fuel + 1, depth, form => do
    if let .alias name ← peek then
      pass
      match (← get).anchors.lookup name with
      | some id => return id
      | none => throw .malformed
    if maxDepth < depth then throw .tooDeep
    let p ← properties
    match ← peek with
    | .blockEntry =>
      if form = .entry then listNode p (bareItems fuel depth)
      else if p.anchor.isSome || p.tag.isSome then addAnchored p ⟨p.scalarTag "" true, .scalar ""⟩
      else throw .malformed
    | .scalar text isPlain =>
      pass
      addAnchored p ⟨p.scalarTag text isPlain, .scalar text⟩
    | .flowSequenceStart =>
      pass
      listNode p (flowItems fuel depth true)
    | .flowMappingStart =>
      pass
      mapNode p (flowEntries fuel depth true)
    | t =>
      if form ≠ .flow && t = .sequenceStart then
        pass
        listNode p (blockItems fuel depth)
      else if form ≠ .flow && t = .mappingStart then
        pass
        mapNode p (blockEntries fuel depth)
      else if p.anchor.isSome || p.tag.isSome then addAnchored p ⟨p.scalarTag "" true, .scalar ""⟩
      else throw .malformed

/-- A node, or an empty scalar before one of the given tokens. -/
def nodeUnless : Nat → Nat → Form → List Token → Reading NodeId
  | 0, _, _, _ => throw .tooDeep
  | fuel + 1, depth, form, ts => do
    if ← nextIs ts then empty else node fuel (depth + 1) form

def blockItems : Nat → Nat → Reading (List NodeId)
  | 0, _ => throw .tooDeep
  | fuel + 1, depth => do
    if ← passIf .blockEntry then
      let item ← nodeUnless fuel depth .block [.blockEntry, .blockEnd]
      return item :: (← blockItems fuel depth)
    else if ← passIf .blockEnd then return []
    else throw .malformed

/-- The items of a list without an indentation of its own. -/
def bareItems : Nat → Nat → Reading (List NodeId)
  | 0, _ => throw .tooDeep
  | fuel + 1, depth => do
    if ← passIf .blockEntry then
      let item ← nodeUnless fuel depth .block [.blockEntry, .key, .value, .blockEnd]
      return item :: (← bareItems fuel depth)
    else return []

def blockEntries : Nat → Nat → Reading (List (NodeId × NodeId))
  | 0, _ => throw .tooDeep
  | fuel + 1, depth => do
    let ending : List Token := [.key, .value, .blockEnd]
    if ← passIf .key then
      let key ← nodeUnless fuel depth .entry ending
      let value ← if ← passIf .value then nodeUnless fuel depth .entry ending else empty
      return (key, value) :: (← blockEntries fuel depth)
    else if ← passIf .blockEnd then return []
    else throw .malformed

/-- The items of a list in flow form; a single pair counts as a map. -/
def flowItems : Nat → Nat → Bool → Reading (List NodeId)
  | 0, _, _ => throw .tooDeep
  | fuel + 1, depth, isFirst => do
    if ← passIf .flowSequenceEnd then return []
    if !isFirst then
      if !(← passIf .flowEntry) then throw .malformed
    if ← passIf .flowSequenceEnd then return []
    let item ←
      if ← passIf .key then
        if maxDepth < depth + 1 then throw .tooDeep
        mapNode {} (pair fuel (depth + 1))
      else node fuel (depth + 1) .flow
    return item :: (← flowItems fuel depth false)

/-- The entry of a map that consists of a single pair. -/
def pair : Nat → Nat → Reading (List (NodeId × NodeId))
  | 0, _ => throw .tooDeep
  | fuel + 1, depth => do
    let key ← nodeUnless fuel depth .flow [.value, .flowEntry, .flowSequenceEnd]
    let value ← if ← passIf .value then nodeUnless fuel depth .flow [.flowEntry, .flowSequenceEnd] else empty
    return [(key, value)]

/-- The entries of a map in flow form; a key may stand alone. -/
def flowEntries : Nat → Nat → Bool → Reading (List (NodeId × NodeId))
  | 0, _, _ => throw .tooDeep
  | fuel + 1, depth, isFirst => do
    if ← passIf .flowMappingEnd then return []
    if !isFirst then
      if !(← passIf .flowEntry) then throw .malformed
    if ← passIf .flowMappingEnd then return []
    let entry ←
      if ← passIf .key then
        let key ← nodeUnless fuel depth .flow [.value, .flowEntry, .flowMappingEnd]
        let value ← if ← passIf .value then nodeUnless fuel depth .flow [.flowEntry, .flowMappingEnd] else empty
        pure (key, value)
      else
        let key ← node fuel (depth + 1) .flow
        pure (key, ← empty)
    return entry :: (← flowEntries fuel depth false)

end

/-- The directives of a document, of which each may be given once. -/
def directives : Nat → Bool → Reading Unit
  | 0, _ => throw .malformed
  | fuel + 1, hasVersion => do
    match ← peek with
    | .directive d =>
      pass
      match d with
      | .version major =>
        if hasVersion || major ≠ 1 then throw .malformed
        directives fuel true
      | .handle handle stem =>
        if ((← get).handles.lookup handle).isSome then throw .malformed
        modify fun r => { r with handles := r.handles ++ [(handle, stem)] }
        directives fuel hasVersion
      | .other => directives fuel hasVersion
    | _ => modify fun r => { r with handles := r.handles ++ standardHandles }

/-- The end of the text; no second document may follow. -/
def ending : Nat → Reading Unit
  | 0 => throw .malformed
  | fuel + 1 => do
    if ← passIf .documentEnd then ending fuel
    else if ← passIf .streamEnd then return
    else throw .malformed

def document (fuel : Nat) : Reading (Option NodeId) := do
  let t ← peek
  if t = .streamEnd then return none
  let root ←
    match t with
    | .directive _ | .documentStart => do
      directives fuel false
      if !(← passIf .documentStart) then throw .malformed
      match ← peek with
      | .directive _ | .documentStart | .documentEnd | .streamEnd => empty
      | _ => node fuel 0 .block
    | _ => do
      modify fun r => { r with handles := standardHandles }
      node fuel 0 .block
  ending fuel
  return some root

/-- Read the document of a text. Every three steps of the reader take up a token. -/
def read (text : String) : Except Fault Document := do
  let tokens := Tokens.read text
  let reader : Reader := { tokens := tokens.list, fault := tokens.fault.getD .malformed }
  let (root, reader) ← (document (3 * tokens.list.length + 3)).run reader
  return { nodes := reader.nodes, root }

end Document

end TagTypes.Yaml
