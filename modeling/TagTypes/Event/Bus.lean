import TagTypes.Event.Basic

/-!
# The event bus

Handlers subscribe to kinds of events. An event goes to all handlers of its kinds in the order of their subscription, to one handler as often as it subscribed. A handler that fails does not keep the event from the others, so who is told does not depend on what the handlers do.
-/

namespace TagTypes

structure EventBus (η : Type) where
  subscriptions : List (EventKind × η) := []

namespace EventBus

variable {η : Type}

def subscribe (bus : EventBus η) (kind : EventKind) (handler : η) : EventBus η :=
  ⟨bus.subscriptions ++ [(kind, handler)]⟩

def unsubscribe [DecidableEq η] (bus : EventBus η) (kind : EventKind) (handler : η) : EventBus η :=
  ⟨bus.subscriptions.filter (· ≠ (kind, handler))⟩

/-- Whether a handler is subscribed to exactly this kind. -/
def isSubscribed [DecidableEq η] (bus : EventBus η) (kind : EventKind) (handler : η) : Bool :=
  bus.subscriptions.contains (kind, handler)

def targets (bus : EventBus η) (e : Event) : List η :=
  (bus.subscriptions.filter fun s => e.isOf s.1).map Prod.snd

end EventBus

end TagTypes
