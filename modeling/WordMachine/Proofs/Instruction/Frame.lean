import WordMachine.Proofs.Instruction.Deed

/-! # What instructions leave alone

Whatever an instruction is and whatever it finds, it changes the stack at its newest end only, and
by one entry at most. The input it does not touch, unless it is `in`.
-/
namespace WordMachine

/-- At most one entry comes or goes, at the newest end. -/
inductive Stack.Moves (s : Stack) : Stack → Prop where
  | stay : Moves s s
  | push (word : Word) : Moves s (s.push word)
  | pop {word : Word} {rest : Stack} (h : s.pop? = some (word, rest)) : Moves s rest

namespace Instruction

theorem assign_frame (target word : Word) (core : Core) :
    ((assign target word).run core).2.stack = core.stack ∧
      ((assign target word).run core).2.input = core.input := by
  rw [run_assign]
  cases Target.of target <;> exact ⟨rfl, rfl⟩

/-! ## The stack -/

theorem stack_perform (deed : Deed) (core : Core) :
    core.stack.Moves (deed.perform.run core).2.stack := by
  cases deed with
  | answer effect => exact .stay
  | assign target word =>
    rw [Deed.perform, (assign_frame ..).1]
    exact .stay
  | push word effect => exact .push word
  | pop target =>
    rw [Deed.run_pop]
    cases hpop : core.stack.pop? with
    | none => exact .stay
    | some entry =>
      show core.stack.Moves ((assign target entry.1).run { core with stack := entry.2 }).2.stack
      rw [(assign_frame ..).1]
      exact .pop hpop
  | ret =>
    rw [Deed.run_ret]
    cases hpop : core.stack.pop? with
    | none => exact .stay
    | some entry => exact .pop hpop
  | input target =>
    rw [Deed.run_input]
    rcases core.input.next with ⟨byte | reason | _, rest⟩
    · show core.stack.Moves ((assign target byte.toUInt16).run { core with input := rest }).2.stack
      rw [(assign_frame ..).1]
      exact .stay
    · exact .stay
    · exact .stay

/-- An instruction moves the stack by one entry at most, also if it faults. -/
theorem stack_execute (i : Instruction) (next : Word) (core : Core) :
    core.stack.Moves ((i.execute next).run core).2.stack := by
  obtain ⟨reads, -, hrun⟩ := i.run_execute next core
  rw [hrun]
  cases i.deed next core.store with
  | error fault =>
    show core.stack.Moves (core.reportAll reads).stack
    rw [Core.stack_reportAll]
    exact .stay
  | ok deed =>
    have hmoves := stack_perform deed (core.reportAll reads)
    rwa [Core.stack_reportAll] at hmoves

/-- A `call` that succeeds leaves its return address on the stack. -/
theorem stack_call {i : Instruction} (hopcode : i.opcode = .call) {next : Word} {core : Core}
    {effect : Effect} (hsucceeds : ((i.execute next).run core).1 = .ok effect) :
    ((i.execute next).run core).2.stack = core.stack.push next := by
  obtain ⟨reads, -, hrun⟩ := i.run_execute next core
  simp only [deed, resolve, hopcode] at hrun
  rw [hrun] at hsucceeds ⊢
  cases hvalue : core.store.value i.a with
  | error fault =>
    rw [hvalue] at hsucceeds
    cases hsucceeds
  | ok target =>
    show (core.reportAll reads).stack.push next = _
    rw [Core.stack_reportAll]

/-! ## The input -/

theorem input_perform {deed : Deed} (h : ∀ target, deed ≠ .input target) (core : Core) :
    (deed.perform.run core).2.input = core.input := by
  cases deed with
  | answer effect | push word effect => rfl
  | assign target word => exact (assign_frame target word core).2
  | pop target =>
    rw [Deed.run_pop]
    cases core.stack.pop? with
    | none => rfl
    | some entry => exact (assign_frame ..).2
  | ret =>
    rw [Deed.run_ret]
    cases core.stack.pop? <;> rfl
  | input target => exact absurd rfl (h target)

/-- Only `in` reads from the input. -/
theorem input_execute {i : Instruction} (h : i.opcode ≠ .input) (next : Word) (core : Core) :
    ((i.execute next).run core).2.input = core.input := by
  obtain ⟨reads, -, hrun⟩ := i.run_execute next core
  rw [hrun]
  cases hdeed : i.deed next core.store with
  | error fault => exact core.input_reportAll reads
  | ok deed =>
    show (deed.perform.run (core.reportAll reads)).2.input = core.input
    rw [input_perform, Core.input_reportAll]
    rintro target rfl
    exact h (fits_of_deed hdeed).1

end Instruction

end WordMachine
