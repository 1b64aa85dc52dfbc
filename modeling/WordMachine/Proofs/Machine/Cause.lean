import WordMachine.Proofs.Instruction.Cause
import WordMachine.Proofs.Machine.Bounds
import WordMachine.Proofs.Machine.Errors

/-! # Every recorded fault names its cause

A recorded fault has arisen at one of the moments of the calls, and there it can be checked: a word
that selects no operation stood at the place that the fault names, or the instruction that stood
there has the fault for a cause of its own, or the input had ended, the step limit was reached, or
the terminal refused what was to be written. Since the machine is reduced at every moment, no word
that it computed, loaded or took off the stack is ever called an invalid address.
-/
namespace WordMachine

/-- How many places stand in front of a fault's cause. -/
def Fault.layers : Fault → Nat
  | located _ cause => cause.layers + 1
  | _ => 0

/-- The causes of instructions are bare, and none is that the machine has been started. -/
theorem Instruction.Cause.bare {i : Instruction} {core : Core} {fault : Fault}
    (h : i.Cause core fault) : fault.layers = 0 ∧ fault.root ≠ .alreadyStarted := by
  cases h <;> exact ⟨rfl, by simp [Fault.root]⟩

namespace Machine

/-- The faults that the next step may record, each with its cause. -/
inductive Causes (m : Machine) : Fault → Prop where
  /-- The low byte of the word at the program counter is the number of no operation. -/
  | decoding (hlarge : 21 < (m.core.store.ram.get m.pc).toNat % 256) :
      Causes m (.located (decodingPlace m.pc)
        (.unknownOpcode (m.core.store.ram.get m.pc).toUInt8))
  | executing {i : Instruction} {fault : Fault} (hstands : i.StandsAt m.core.store.ram m.pc)
      (hcause : i.Cause m.core fault) (hother : fault ≠ .inputExhausted) :
      Causes m (.located (executingPlace i) fault)
  | inputExhausted {i : Instruction} (hstands : i.StandsAt m.core.store.ram m.pc)
      (hdry : i.RunsDry m.core.input) : Causes m .inputExhausted
  | stepLimit {limit : UInt64} (hmax : m.config.maxSteps = some limit)
      (hreached : limit.toNat ≤ m.counter + 1) : Causes m (.stepLimit limit)
  | terminal {i : Instruction} {data : List UInt8} {reason : String}
      (hstands : i.StandsAt m.core.store.ram m.pc)
      (hwrites : i.opcode = .out ∨ i.Halts m.core.stack)
      (hmessage : i.message? (m.outcome i).1 = some data)
      (hrefused : (m.terminal.emit data).1 = some reason) : Causes m (.terminal reason)

/-- At most one place stands in front of the cause, which is never that the machine has been
started. -/
theorem Causes.layers_le {m : Machine} {fault : Fault} (h : m.Causes fault) :
    fault.layers ≤ 1 ∧ fault.root ≠ .alreadyStarted := by
  cases h with
  | executing hstands hcause hother =>
    obtain ⟨hlayers, hroot⟩ := hcause.bare
    exact ⟨by rw [Fault.layers, hlayers], hroot⟩
  | _ => exact ⟨by simp [Fault.layers], by simp [Fault.root]⟩

theorem causes_of_limitFaults {m : Machine} {fault : Fault} (h : fault ∈ m.limitFaults) :
    m.Causes fault := by
  obtain ⟨limit, hmax, hreached, rfl⟩ := mem_limitFaults.1 h
  exact .stepLimit hmax hreached

/-- A fault other than the end of input is recorded with the place where it arose. -/
theorem faultsOf_error (m : Machine) (i : Instruction) {fault : Fault}
    (h : fault ≠ .inputExhausted) :
    m.faultsOf i (.error fault) = [.located (executingPlace i) fault] := by
  cases fault with
  | inputExhausted => exact absurd rfl h
  | _ => rfl

/-- An instruction with an effect can only be at fault for what the terminal refuses. -/
theorem mem_faultsOf_ok {m : Machine} {i : Instruction} {core : Core} {effect : Effect}
    {fault : Fault} (hanswers : i.Answers core (.ok effect))
    (h : fault ∈ m.faultsOf i (.ok effect)) :
    (i.opcode = .out ∨ i.Halts core.stack) ∧
      ∃ data reason, i.message? (.ok effect) = some data ∧
        (m.terminal.emit data).1 = some reason ∧ fault = .terminal reason := by
  rw [faultsOf, Option.mem_toList, Option.map_eq_some_iff] at h
  obtain ⟨reason, hrefused, rfl⟩ := h
  cases effect with
  | proceed | jump target => cases hrefused
  | output byte =>
    cases hanswers with
    | output hopcode hsent => exact ⟨.inl hopcode, [byte], reason, rfl, hrefused, rfl⟩
    | regular hquiet hregular => exact hregular.elim
  | halt => exact ⟨.inr hanswers.halts, i.lastLine, reason, rfl, hrefused, rfl⟩

section Reduced

variable {m : Machine} (hreduced : m.Reduced)

include hreduced

theorem causes_of_faultsOf {i : Instruction} (hstands : i.StandsAt m.core.store.ram m.pc)
    {fault : Fault} (h : fault ∈ m.faultsOf i (m.outcome i).1) : m.Causes fault := by
  have hanswers : i.Answers m.core (m.outcome i).1 := i.execute_answers (m.behind i) m.core
  cases hanswer : (m.outcome i).1 with
  | ok effect =>
    rw [hanswer] at h hanswers
    obtain ⟨hwrites, data, reason, hmessage, hrefused, rfl⟩ := mem_faultsOf_ok hanswers h
    exact .terminal hstands hwrites (by rwa [hanswer]) hrefused
  | error found =>
    have hcause := Instruction.cause_of_execute hreduced.registers hanswer
    rw [hanswer] at h
    by_cases hended : found = .inputExhausted
    · subst hended
      obtain rfl := List.mem_singleton.1 h
      cases hcause with
      | inputExhausted hdry => exact .inputExhausted hstands hdry
    · rw [faultsOf_error m i hended] at h
      obtain rfl := List.mem_singleton.1 h
      exact .executing hstands hcause hended

theorem fetch_cases :
    (21 < (m.core.store.ram.get m.pc).toNat % 256 ∧
      m.fetch = .error (.unknownOpcode (m.core.store.ram.get m.pc).toUInt8)) ∨
    ∃ i, m.fetch = .ok i ∧ i.StandsAt m.core.store.ram m.pc := by
  rw [← UInt16.toNat_toUInt8]
  rcases Nat.lt_or_ge 21 (m.core.store.ram.get m.pc).toUInt8.toNat with hlarge | hsmall
  · exact .inl ⟨hlarge, Instruction.decode_peek_of_large hreduced.pc hlarge⟩
  · exact .inr (Instruction.decode_peek_of_small hreduced.pc hsmall)

theorem causes_of_stepFaults {fault : Fault} (h : fault ∈ m.stepFaults) : m.Causes fault := by
  by_cases hfinished : m.status = .finished
  · rw [stepFaults, if_pos hfinished] at h
    cases h
  · rcases fetch_cases hreduced with ⟨hlarge, hfetch⟩ | ⟨i, hfetch, hstands⟩
    · rw [stepFaults_of_error hfinished hfetch] at h
      rcases List.mem_cons.1 h with rfl | hlimit
      · exact .decoding hlarge
      · exact causes_of_limitFaults hlimit
    · rw [stepFaults_of_ok hfinished hfetch] at h
      rcases List.mem_append.1 h with hown | hlimit
      · exact causes_of_faultsOf hreduced hstands hown
      · split at hlimit
        · exact causes_of_limitFaults hlimit
        · cases hlimit

end Reduced

/-! ## Calls -/

/-- Nothing that is asked of a machine changes its settings. -/
theorem config_preserved (config : Config) : Preserved fun m => m.config = config where
  step m h := m.config_step.trans h
  stop _ h := h
  conclude _ h := h
  requestStop _ h := h
  poke m address word poked h hpoke := by
    rw [poke_eq hpoke]
    exact h
  setInput _ _ h := h
  setTerminal _ _ h := h

/-- **Every recorded fault identifies its cause.** Take a machine that was made and called in any
way. Each of the faults that it ever recorded is one that the step at some moment of the calls
records, and at that moment, when the machine was reduced, it has the cause that it names. None has
two places in front of it, none says that the machine has been started, and at no moment is the
program counter an invalid address. -/
theorem recorded_causes {image : List Word} {made after : Machine} {calls : List Call}
    (hmade : Made image made) (hcalls : made.calls? calls = some after) :
    made.Unmarked ∧ (∃ faults, made.Recorded faults after ∧
      ∀ fault ∈ faults, fault.layers ≤ 1 ∧ fault.root ≠ .alreadyStarted ∧
        ∃ moment ∈ made.moments calls, moment.config = made.config ∧
          fault ∈ moment.stepFaults ∧ moment.Causes fault) ∧
    ∀ moment ∈ made.moments calls, moment.Reduced ∧
      ∀ address, moment.fetch ≠ .error (.invalidAddress address) := by
  have hreduced := Reduced.preserved.moments hmade.reduced calls
  have hconfig := (config_preserved made.config).moments rfl calls
  refine ⟨hmade.unmarked, ⟨_, recorded_calls hcalls, ?_⟩, ?_⟩
  · intro fault hfault
    obtain ⟨moment, hmoment, hrecorded⟩ := List.mem_flatMap.1 hfault
    have hcause := causes_of_stepFaults (hreduced moment hmoment) hrecorded
    obtain ⟨hlayers, hroot⟩ := hcause.layers_le
    exact ⟨hlayers, hroot, moment, hmoment, hconfig moment hmoment, hrecorded, hcause⟩
  · intro moment hmoment
    have hmoment := hreduced moment hmoment
    refine ⟨hmoment, fun address hinvalid => ?_⟩
    rcases fetch_cases hmoment with ⟨-, hfetch⟩ | ⟨i, hfetch, -⟩
    · rw [hfetch] at hinvalid
      cases hinvalid
    · rw [hfetch] at hinvalid
      cases hinvalid

/-- The word of the image has the low byte 22. The step records a fault that names this byte and the
place where it stood. -/
theorem recorded_causes_unknown :
    ∃ made after : Machine, Made [0x0116] made ∧ made.calls? [.step] = some after ∧
      after.lastFault = some (.located (decodingPlace 0) (.unknownOpcode 22)) ∧
      ∃ moment ∈ made.moments [.step],
        .located (decodingPlace 0) (.unknownOpcode 22) ∈ moment.stepFaults ∧
        moment.Causes (.located (decodingPlace 0) (.unknownOpcode 22)) := by
  have hread : Image.read (.ofBytes [0x16, 0x01]) = .ok [0x0116] := by
    rw [Image.read_iff]
    exact .words (by decide) rfl
  obtain ⟨loaded, hload, hloaded⟩ := ofImage_of_read hread .default none
  rw [load?_eq _ (Image.length_of_read hread)] at hload
  obtain rfl := Option.some.inj hload
  have hmade := Made.loaded hread hloaded
  generalize hstart : Machine.report _ _ = made at hmade
  have hpc : made.pc = 0 := by
    rw [← hstart]
    rfl
  have hgoing : made.status ≠ .finished := by
    rw [← hstart]
    decide
  have hlimit : made.limitFaults = [] := by
    rw [← hstart]
    rfl
  have hword : made.core.store.ram.get made.pc = 0x0116 := by
    rw [hpc, hmade.get_ram]
    rfl
  have hfetch : made.fetch = .error (.unknownOpcode 22) := by
    have hlarge : 21 < (made.core.store.ram.get made.pc).toUInt8.toNat := by
      rw [hword]
      decide
    have hdecode := Instruction.decode_peek_of_large hmade.reduced.pc hlarge
    rw [hword] at hdecode
    exact hdecode
  have hstep := made.recorded_step.lastFault
  rw [stepFaults_of_error hgoing hfetch, hlimit, hpc] at hstep
  have hcalls : made.calls? [.step] = some made.step := rfl
  obtain ⟨hunmarked, ⟨faults, hrecorded, hcauses⟩, -⟩ := recorded_causes hmade hcalls
  have hlast := hrecorded.lastFault
  rw [hunmarked.lastFault, Option.or_none, hstep] at hlast
  obtain ⟨-, -, moment, hmoment, -, hrecords, hcause⟩ :=
    hcauses _ (List.mem_of_getLast? hlast.symm)
  exact ⟨made, made.step, hmade, hcalls, hstep, moment, hmoment, hrecords, hcause⟩

end Machine

end WordMachine
