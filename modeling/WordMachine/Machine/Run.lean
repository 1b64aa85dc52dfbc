import WordMachine.Machine.Step

/-! # Running

A run steps a new machine until it finishes. A requested stop takes effect after the step
under way. Since a program may never finish, a run is given a bound on its steps, and has
no result where the bound does not suffice; a larger bound never changes a result.
-/
namespace WordMachine.Machine

/-- Finishes the machine because a stop was requested. -/
def stop (m : Machine) : Machine := (m.report (.stopped m.pc m.counter)).finish

/-- Steps until the machine no longer runs, at most `bound` times. -/
def runWithin (m : Machine) : (bound : Nat) → Option Machine
  | 0 => none
  | bound + 1 =>
    let m := m.step
    if m.status ≠ .running then some m
    else if m.monitor.stopRequested then some m.stop
    else m.runWithin bound

/-- Publishes the last snapshot of a run and reports its end. -/
def conclude (m : Machine) : Machine :=
  let m := m.publish
  m.report (.finished m.pc m.counter m.errorCount)

/-- Runs a new machine to its end. A machine that has started already is refused. -/
def run (m : Machine) (bound : Nat) : Option (Except Fault Machine) :=
  if m.status = .new then (m.runWithin bound).map fun m => .ok m.conclude
  else some (.error .alreadyStarted)

end WordMachine.Machine
