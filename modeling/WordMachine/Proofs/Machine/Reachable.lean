import WordMachine.Proofs.Machine.Bounds
import WordMachine.Proofs.Machine.Checked
import WordMachine.Proofs.Machine.Errors
import WordMachine.Proofs.Machine.Footprint

/-! # Reachable machines

Registers, stack and memory of a machine are open to everybody, and may be exchanged at any time
between calls. Program counter, status and records are the machine's own: whatever is done to the
open parts, the program counter stays at a memory cell, and the wording of the last fault is that
of the last fault.
-/
namespace WordMachine.Machine

/-- The machine with other registers and another stack. -/
def withCpu (m : Machine) (registers : Registers) (stack : Stack) : Machine :=
  { m with core := { m.core with store := { m.core.store with registers }, stack } }

/-- The machine was made and then handled: whatever was asked of it, and its open parts were
exchanged at will. -/
inductive Reachable : Machine → Prop where
  | made {image : List Word} {m : Machine} (hmade : Made image m) : Reachable m
  | call {m after : Machine} {call : Call} (h : Reachable m) (hcall : m.call? call = some after) :
      Reachable after
  | withCpu {m : Machine} (h : Reachable m) (registers : Registers) (stack : Stack) :
      Reachable (m.withCpu registers stack)
  | withRam {m : Machine} (h : Reachable m) (ram : Ram) : Reachable (m.withRam ram)

theorem pc_lt_preserved : Preserved fun m => m.pc.toNat < 0x8000 where
  step _ h := pc_step_lt h
  stop _ h := h
  conclude _ h := h
  requestStop _ h := h
  poke m address word after h hpoke := by
    rw [poke_eq hpoke]
    exact h
  setInput _ _ h := h
  setTerminal _ _ h := h

namespace Reachable

theorem calls {m after : Machine} {calls : List Call} (h : m.Reachable)
    (hcalls : m.calls? calls = some after) : after.Reachable :=
  calls?_induction h (fun _ _ _ _ hbefore hcall => hbefore.call hcall) hcalls

/-- Nobody but the machine itself moves the program counter. -/
theorem pc_lt {m : Machine} (h : m.Reachable) : m.pc.toNat < 0x8000 := by
  induction h with
  | made hmade => exact hmade.reduced.pc
  | call h hcall ih => exact pc_lt_preserved.call ih hcall
  | withCpu h registers stack ih => exact ih
  | withRam h ram ih => exact ih

/-- The wording that the snapshots share is that of the last fault. -/
theorem faultText_eq {m : Machine} (h : m.Reachable) :
    m.faultText = m.lastFault.map Fault.message := by
  induction h with
  | made hmade => rw [hmade.unmarked.faultText, hmade.unmarked.lastFault, Option.map_none]
  | call h hcall ih =>
    obtain ⟨-, hlast, htext, -, -⟩ := recorded_call hcall
    rw [htext, hlast, ih, Option.map_or]
  | withCpu h registers stack ih => exact ih
  | withRam h ram ih => exact ih

end Reachable

end WordMachine.Machine
