import TagTypes.Event.Basic

/-!
# Event logs

The events told so far, oldest first. Where nobody listens nothing is told, and the log stays as it is.
-/

namespace TagTypes

structure EventLog where
  isOpen : Bool := true
  events : List Event := []
  deriving DecidableEq, Repr, Inhabited

namespace EventLog

def tell (log : EventLog) (e : Event) : EventLog :=
  if log.isOpen then { log with events := log.events ++ [e] } else log

@[simp] theorem isOpen_tell (log : EventLog) (e : Event) : (log.tell e).isOpen = log.isOpen := by
  unfold tell; split <;> rfl

theorem events_tell {log : EventLog} (h : log.isOpen = true) (e : Event) :
    (log.tell e).events = log.events ++ [e] := by
  simp [tell, h]

end EventLog

end TagTypes
