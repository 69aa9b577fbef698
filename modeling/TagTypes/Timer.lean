import TagTypes.Json.Literal

/-!
# Repeated tasks

A timer runs tasks again and again, each with a fixed delay between the end of one run and the beginning of the next, until the task or the whole timer is stopped. A run that fails does not keep the next from coming. The delay is a number of seconds and must be positive.
-/

namespace TagTypes.Timer

/-- What became of a task after the timer was shut down. -/
structure Outcome where
  runs : Nat
  cancelledBefore : Bool
  cancelled : Bool
  deriving DecidableEq, Repr

structure DelayError where
  delay : Json

def DelayError.message (e : DelayError) : String := "delay_sec must be positive: " ++ e.delay.display

/-- A number is too small for a delay if it is zero or below. -/
def isTooSmall : Json → Bool
  | .int n => n ≤ 0
  | .real (.finite negative mantissa _) => negative || mantissa = 0
  | .real (.infinite negative) => negative
  | .bool b => !b
  | _ => false

/-- Run a task that cancels itself in its run `last`, or wait for it to be cancelled if `last` is not positive. -/
def run (delay : Json) (last : Int) : Except DelayError Outcome :=
  if isTooSmall delay then .error ⟨delay⟩ else .ok ⟨last.toNat, false, true⟩

end TagTypes.Timer
