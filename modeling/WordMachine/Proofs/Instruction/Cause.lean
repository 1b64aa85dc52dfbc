import WordMachine.Proofs.Instruction.Answer

/-! # Why instructions fault

An instruction faults for one of five reasons, and each fault tells which. Only `pop` finds the
stack empty, only `mod` divides by zero, and only `in` has trouble with the input. An address is
invalid only if the instruction itself names it: what is computed, loaded or taken off the stack is
never an address that stands for nothing, since registers hold reduced words.
-/
namespace WordMachine

namespace Instruction

/-- The faults of an instruction, each with its cause. -/
inductive Cause (i : Instruction) (core : Core) : Fault → Prop where
  | emptyStack (hopcode : i.opcode = .pop) (hempty : core.stack.toList = []) :
      Cause i core .emptyStack
  | divisionByZero (hopcode : i.opcode = .mod) (hzero : core.store.value i.c = .ok 0) :
      Cause i core .divisionByZero
  | input {reason : String} (hopcode : i.opcode = .input)
      (hnext : core.input.next.1 = .failure reason) : Cause i core (.input reason)
  | inputExhausted (hdry : i.RunsDry core.input) : Cause i core .inputExhausted
  /-- One of the instruction's own operand words stands for nothing. -/
  | invalidAddress {word : Word} (hword : word ∈ i.operands) (hlarge : 0x8008 ≤ word.toNat) :
      Cause i core (.invalidAddress word)

/-- The causes are looked for in store, stack and input. -/
theorem Cause.of_alike {i : Instruction} {core other : Core} {fault : Fault}
    (h : i.Cause core fault) (halike : core.Alike other) : i.Cause other fault := by
  obtain ⟨hstore, hstack, hinput⟩ := halike
  cases h with
  | emptyStack hopcode hempty => exact .emptyStack hopcode (hstack ▸ hempty)
  | divisionByZero hopcode hzero => exact .divisionByZero hopcode (hstore ▸ hzero)
  | input hopcode hnext => exact .input hopcode (hinput ▸ hnext)
  | inputExhausted hdry => exact .inputExhausted (hinput ▸ hdry)
  | invalidAddress hword hlarge => exact .invalidAddress hword hlarge

/-- What a deed stores at is an operand word of the instruction or a memory cell. -/
def Aims (i : Instruction) : Deed → Prop
  | .assign target _ => target ∈ i.operands ∨ target.toNat < 0x8000
  | _ => True

/-! ## Looking up -/

section Lookup

variable {i : Instruction} {core : Core} (hregisters : core.store.registers.Reduced)

include hregisters

/-- An operand has a reduced value, unless it stands for nothing. -/
theorem accounted_value {raw : Word} (hraw : raw ∈ i.operands) :
    Accounted (fun w => core.store.value raw = .ok w ∧ w.toNat < 0x8000) (i.Cause core)
      (core.store.value raw) :=
  (Accounted.value core.store fun hlarge => .invalidAddress hraw hlarge).mono
    (fun _ hvalue => ⟨hvalue, Store.value_lt hregisters hvalue⟩) fun _ => id

/-- Whatever is looked up for an instruction, it names or it is in bounds. -/
theorem accounted_deed (next : Word) :
    Accounted i.Aims (i.Cause core) (i.deed next core.store) := by
  have hvalue : ∀ raw ∈ i.operands, Accounted (fun w => core.store.value raw = .ok w ∧
      w.toNat < 0x8000) (i.Cause core) (core.store.value raw) :=
    fun raw hraw => accounted_value hregisters hraw
  unfold Instruction.deed resolve
  cases hopcode : i.opcode <;> simp only [operands, hopcode, Opcode.arity] at hvalue
  case halt | pop | ret | input | noop => trivial
  case push | jmp | call | out => exact (hvalue i.a (by simp)).bind fun _ _ => trivial
  case set | not =>
    exact (hvalue i.b (by simp)).bind fun _ _ => .inl (by simp [operands, hopcode, Opcode.arity])
  case jt | jf =>
    refine (hvalue i.a (by simp)).bind fun x _ => ?_
    split
    · exact (hvalue i.b (by simp)).bind fun _ _ => trivial
    · trivial
  case eq | gt | add | mult | and | or =>
    exact accounted_resolveBoth (hvalue i.b (by simp)) (hvalue i.c (by simp))
      fun _ _ _ _ => .inl (by simp [operands, hopcode, Opcode.arity])
  case mod =>
    refine accounted_resolveBoth (hvalue i.b (by simp)) (hvalue i.c (by simp)) fun x y _ hy => ?_
    unfold remainder
    split
    case isTrue hzero => exact .divisionByZero hopcode (hzero ▸ hy.1)
    case isFalse => exact .inl (by simp [operands, hopcode, Opcode.arity])
  case rmem =>
    refine (hvalue i.b (by simp)).bind fun address haddress => ?_
    have hpeek : Accounted (fun _ => True) (i.Cause core) (core.store.peek address) :=
      .peek core.store fun hlarge => absurd haddress.2 (by omega)
    exact hpeek.bind fun _ _ => .inl (by simp [operands, hopcode, Opcode.arity])
  case wmem =>
    refine (hvalue i.a (by simp)).bind fun address haddress => ?_
    exact (hvalue i.b (by simp)).bind fun _ _ => .inr haddress.2

end Lookup

/-! ## Acting -/

theorem accounted_perform {i : Instruction} {deed : Deed} (hfits : i.Fits deed)
    (haims : i.Aims deed) (core : Core) :
    Accounted (fun _ => True) (i.Cause core) (deed.perform.run core).1 := by
  -- what is stored at is named by the instruction or in bounds
  have hassign : ∀ target, target ∈ i.operands ∨ target.toNat < 0x8000 → ∀ word found,
      Accounted (fun _ => True) (i.Cause core) ((assign target word).run found).1 := by
    intro target htarget
    refine accounted_assign trivial fun hlarge => ?_
    rcases htarget with hnamed | hcell
    · exact .invalidAddress hnamed hlarge
    · omega
  cases deed with
  | answer effect | push word effect => trivial
  | assign target word => exact hassign target haims word core
  | pop target =>
    obtain ⟨hopcode, rfl⟩ := hfits
    rw [Deed.run_pop]
    rcases core.stack.pop?_cases with ⟨hempty, hpop⟩ | ⟨below, top, -, hpop⟩
    · rw [hpop]
      exact .emptyStack hopcode hempty
    · rw [hpop]
      exact hassign i.a (.inl (by simp [operands, hopcode, Opcode.arity])) top _
  | ret =>
    rw [Deed.run_ret]
    cases core.stack.pop? <;> trivial
  | input target =>
    obtain ⟨hopcode, rfl⟩ := hfits
    rw [Deed.run_input]
    rcases hnext : core.input.next with ⟨byte | reason | _, rest⟩
    · exact hassign i.a (.inl (by simp [operands, hopcode, Opcode.arity])) _ _
    · exact .input hopcode (by rw [hnext])
    · exact .inputExhausted ⟨hopcode, by rw [hnext]⟩

/-- **Every fault has its cause in the instruction.** -/
theorem cause_of_execute {i : Instruction} {next : Word} {core : Core} {fault : Fault}
    (hregisters : core.store.registers.Reduced)
    (h : ((i.execute next).run core).1 = .error fault) : i.Cause core fault := by
  have hcauses : Accounted (fun _ => True) (i.Cause core) ((i.execute next).run core).1 := by
    refine accounted_execute (accounted_deed hregisters next) fun deed reads hfits haims => ?_
    exact (accounted_perform hfits haims (core.reportAll reads)).mono (fun _ => id)
      fun _ hcause => hcause.of_alike ((Core.Alike.refl core).reportAll reads)
  exact hcauses.of_error h

/-! ## What is no reason

Whether an opcode is known is a matter of decoding. No instruction that was decoded faults for that,
whatever the registers hold.
-/

/-- The fault is not that an opcode is unknown. -/
def Known (fault : Fault) : Prop := ∀ byte, fault.root ≠ .unknownOpcode byte

theorem known_of_execute {i : Instruction} {next : Word} {core : Core} {fault : Fault}
    (h : ((i.execute next).run core).1 = .error fault) : Known fault := by
  have hknown : Accounted (fun _ => True) Known ((i.execute next).run core).1 := by
    refine accounted_execute (silent_deed (fun _ => nofun) nofun i next core.store)
      fun deed reads _ _ => ?_
    have hperform : Accounted (fun effect => deed.Silent → effect.Silent) Known
        (deed.perform.run (core.reportAll reads)).1 :=
      silent_perform (fun _ => nofun) nofun (fun _ => nofun) (.inr nofun) _
    exact hperform.mono (fun _ _ => trivial) fun _ => id
  exact hknown.of_error h

end Instruction

end WordMachine
