/-!
# Cancel tokens

A token is a flag that tasks can wait for. A cancel sets the flag and wakes everyone who waits at
that moment; a reset clears the flag and wakes nobody. Whoever is woken looks at the flag again, so
a waiter that was woken by a cancel and finds the flag cleared goes on waiting.
-/
namespace MotionScript

structure CancelToken where
  cancelled : Bool := false
  /-- The cancels so far. -/
  cancels : Nat := 0
  deriving DecidableEq, Repr

/-- A task that waits for a cancel: one that has not looked yet, or one that looked when there had
been a number of cancels. -/
inductive Waiter
  | fresh
  | since (cancels : Nat)
  deriving DecidableEq, Repr

namespace CancelToken

def cancel (t : CancelToken) : CancelToken := { cancelled := true, cancels := t.cancels + 1 }

def reset (t : CancelToken) : CancelToken := { t with cancelled := false }

def hasWoken (t : CancelToken) : Waiter → Bool
  | .fresh => true
  | .since cancels => cancels != t.cancels

/-- Lets a waiter look at the flag: `none` when its wait is over, and otherwise the waiter that goes
on. -/
def poll (t : CancelToken) (w : Waiter) : Option Waiter :=
  if t.hasWoken w then if t.cancelled then none else some (.since t.cancels) else some w

end CancelToken
end MotionScript
