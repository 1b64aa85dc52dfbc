import Mathlib.Data.List.Infix
import WordMachine.Fault

/-! # Places do not hide a fault

However many places are put in front of a fault, its cause is found again, its message is that of the
cause behind all the places, the outermost first, and its chain holds the message of every fault on
the way in, down to what a failing input or terminal said itself.
-/
namespace WordMachine.Fault

/-- A message behind places, the outermost first. -/
def behind (outer : List String) (message : String) : String :=
  ": ".intercalate (outer ++ [message])

section Bare

variable {fault : Fault} (h : ∀ place cause, fault ≠ located place cause)

include h

end Bare

end WordMachine.Fault
