/-!
# Events

What happens to schemas, types and the connection is told as events, for whoever wants to watch.
-/

namespace TagTypes

inductive Event where
  | notice
  | schemaReceived (name : String)
  | schemaRejected (name reason : String)
  | schemaDeleted (name : String)
  | typeSynced (type : String) (success : Bool)
  | typeRemoved (type : String) (success : Bool)
  | connectionChanged (connected : Bool) (reason : String)
  deriving DecidableEq, Repr, Inhabited

inductive EventKind where
  | any | schemaReceived | schemaRejected | schemaDeleted | typeSynced | typeRemoved | connectionChanged
  deriving DecidableEq, Repr, Inhabited

namespace Event

/-- The narrowest kind of an event. -/
def kind : Event → EventKind
  | .notice => .any
  | .schemaReceived _ => .schemaReceived
  | .schemaRejected .. => .schemaRejected
  | .schemaDeleted _ => .schemaDeleted
  | .typeSynced .. => .typeSynced
  | .typeRemoved .. => .typeRemoved
  | .connectionChanged .. => .connectionChanged

def isOf (e : Event) (k : EventKind) : Bool := k = .any || e.kind = k

end Event

end TagTypes
