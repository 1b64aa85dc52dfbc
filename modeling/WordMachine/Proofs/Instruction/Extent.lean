import WordMachine.Proofs.Input
import WordMachine.Proofs.Instruction.Deed

/-! # How far a faulting instruction gets

A fault undoes nothing, and the machine carries on with what it finds. So it matters how much an
instruction has done when it faults, and that is next to nothing. Operands are resolved before
anything is changed, and storing a result is the last thing done. Only `pop` and `in` have taken
something away by then: an entry of the stack, and one event of the input.
-/
namespace WordMachine

namespace Instruction

/-- The fault of `in` with this operand after it has read the event. -/
def FaultsAfter (target : Word) : InputEvent → Fault → Prop
  | .byte _, fault => 0x8008 ≤ target.toNat ∧ fault = .invalidAddress target
  | .failure reason, fault => fault = .input reason
  | .endOfInput, fault => fault = .inputExhausted

/-- What an instruction that faults leaves of a core. -/
structure FaultExtent (i : Instruction) (before : Core) (fault : Fault) (after : Core) : Prop where
  store : after.store = before.store
  /-- A `pop` that finds an entry can fault at its target only, and the entry is gone. -/
  stack : if i.opcode = .pop ∧ before.stack.toList ≠ [] then
      0x8008 ≤ i.a.toNat ∧ ∃ top, before.stack.toList = after.stack.toList ++ [top]
    else after.stack = before.stack
  /-- An `in` has read one event, whichever fault it is. -/
  input : if i.opcode = .input then
      ∃ event, before.input.next = (event, after.input) ∧ before.input.event 0 = event ∧
        (∀ k, after.input.event k = before.input.event (k + 1)) ∧ FaultsAfter i.a event fault
    else after.input = before.input

variable {i : Instruction} {next : Word} {before core after : Core} {fault : Fault}

theorem assign_error {target word : Word}
    (h : (assign target word).run core = (.error fault, after)) :
    0x8008 ≤ target.toNat ∧ fault = .invalidAddress target ∧ after = core := by
  rw [run_assign] at h
  rcases Target.of_cases target with ⟨-, found, htarget⟩ | ⟨hinvalid, htarget⟩
  · rw [htarget] at h
    cases h
  · rw [htarget] at h
    cases h
    exact ⟨hinvalid, rfl, rfl⟩

namespace FaultExtent

/-- Extents are read off store, stack and input. -/
theorem of_alike (h : i.FaultExtent core fault after) (halike : core.Alike before) :
    i.FaultExtent before fault after := by
  obtain ⟨hstore, hstack, hinput⟩ := halike
  exact ⟨hstore ▸ h.store, hstack ▸ h.stack, hinput ▸ h.input⟩

theorem of_untouched (hpop : i.opcode ≠ .pop) (hinput : i.opcode ≠ .input) :
    i.FaultExtent core fault core :=
  ⟨rfl, by rw [if_neg fun h => hpop h.1], by rw [if_neg hinput]⟩

theorem pop (hopcode : i.opcode = .pop) (h : (i.execute next).run core = (.error fault, after)) :
    i.FaultExtent core fault after := by
  have hinput : i.opcode ≠ .input := by simp [hopcode]
  rw [execute_pop hopcode, Deed.run_pop] at h
  rcases core.stack.pop?_cases with ⟨hnil, hpop⟩ | ⟨below, top, happ, hpop⟩
  · rw [hpop] at h
    cases h
    exact ⟨rfl, by rw [if_neg fun h => h.2 hnil], by rw [if_neg hinput]⟩
  · rw [hpop] at h
    obtain ⟨hinvalid, -, rfl⟩ := assign_error h
    refine ⟨rfl, ?_, by rw [if_neg hinput]⟩
    rw [if_pos ⟨hopcode, by simp [happ]⟩]
    exact ⟨hinvalid, top, happ⟩

theorem of_next {event : InputEvent} (hopcode : i.opcode = .input)
    (hnext : core.input.next = (event, after.input)) (hstore : after.store = core.store)
    (hstack : after.stack = core.stack) (hfault : FaultsAfter i.a event fault) :
    i.FaultExtent core fault after := by
  refine ⟨hstore, ?_, ?_⟩
  · rwa [if_neg (by simp [hopcode])]
  · rw [if_pos hopcode]
    refine ⟨event, hnext, ?_, ?_, hfault⟩
    · rw [Input.event_zero, hnext]
    · intro k
      rw [← Input.event_next, hnext]

theorem input_read (hopcode : i.opcode = .input)
    (h : (i.execute next).run core = (.error fault, after)) : i.FaultExtent core fault after := by
  rw [execute_input hopcode, Deed.run_input] at h
  rcases hnext : core.input.next with ⟨byte | reason | _, rest⟩
  · rw [hnext] at h
    obtain ⟨hinvalid, hfault, rfl⟩ := assign_error h
    exact of_next hopcode hnext rfl rfl ⟨hinvalid, hfault⟩
  · rw [hnext] at h
    cases h
    exact of_next hopcode hnext rfl rfl rfl
  · rw [hnext] at h
    cases h
    exact of_next hopcode hnext rfl rfl rfl

/-- The deeds of all other instructions fault before they have changed anything. -/
theorem perform {deed : Deed} (hfits : i.Fits deed) (hpop : i.opcode ≠ .pop)
    (hinput : i.opcode ≠ .input) (h : deed.perform.run core = (.error fault, after)) :
    i.FaultExtent core fault after := by
  cases deed with
  | answer effect | push word effect => cases h
  | assign target word =>
    obtain ⟨-, -, rfl⟩ := assign_error h
    exact of_untouched hpop hinput
  | pop target => exact absurd hfits.1 hpop
  | ret =>
    rw [Deed.run_ret] at h
    cases hentry : core.stack.pop? <;> rw [hentry] at h <;> cases h
  | input target => exact absurd hfits.1 hinput

end FaultExtent

/-- **A faulting instruction has stored nothing and pushed nothing.** Whatever the registers, the
stack and the cells hold, a fault leaves them as they were, but that `pop` has taken its entry and
`in` has read its event. -/
theorem execute_fault_extent (h : (i.execute next).run core = (.error fault, after)) :
    i.FaultExtent core fault after := by
  by_cases hpop : i.opcode = .pop
  · exact .pop hpop h
  by_cases hinput : i.opcode = .input
  · exact .input_read hinput h
  obtain ⟨reads, -, hrun⟩ := i.run_execute next core
  rw [hrun] at h
  suffices hextent : i.FaultExtent (core.reportAll reads) fault after from
    hextent.of_alike ((Core.Alike.refl core).reportAll reads)
  cases hdeed : i.deed next core.store with
  | error found =>
    rw [hdeed] at h
    cases h
    exact .of_untouched hpop hinput
  | ok deed =>
    rw [hdeed] at h
    exact .perform (fits_of_deed hdeed) hpop hinput h

/-- A `pop` into the first address that names nothing loses the top of the stack. -/
theorem execute_fault_extent_pop :
    let i : Instruction := ⟨100, .pop, 0x8008, 0, 0⟩
    let core := { Core.blank (.empty none) with stack := .ofList [7, 0x9000] }
    let after := { core with stack := .ofList [7] }
    (i.execute 102).run core = (.error (.invalidAddress 0x8008), after) ∧
      i.FaultExtent core (.invalidAddress 0x8008) after := by
  intro i core after
  have hrun : (i.execute 102).run core = (.error (.invalidAddress 0x8008), after) := rfl
  exact ⟨hrun, execute_fault_extent hrun⟩

end Instruction

end WordMachine
