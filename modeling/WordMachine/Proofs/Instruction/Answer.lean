import WordMachine.Proofs.Instruction.Deed

/-! # What instructions answer

Executing an instruction answers with an effect or a fault. Three answers concern more than the
core: `halt` ends the run, an ended input ends it too, and an output goes to the terminal. Each
has one cause, which can be read off the instruction and the core before it is executed. All
other answers are `Regular`: the machine goes on and the world sees nothing.
-/
namespace WordMachine

/-- The effect stays inside the machine. -/
def Effect.Silent : Effect → Prop
  | .proceed | .jump _ => True
  | .output _ | .halt => False

/-- The deed has a silent effect, whatever the stack and the input hold. -/
def Deed.Silent : Deed → Prop
  | .answer effect | .push _ effect => effect.Silent
  | .assign .. | .pop _ => True
  | .ret | .input _ => False

/-- The property holds of the value, or there is a fault that does not end the run. -/
def Regular {α : Type} (P : α → Prop) : Except Fault α → Prop
  | .ok value => P value
  | .error fault => fault ≠ .inputExhausted

theorem Regular.of_accounted {α : Type} {P : α → Prop} {x : Except Fault α}
    (h : Accounted P (· ≠ .inputExhausted) x) : Regular P x := by
  cases x <;> exact h

/-- Carrying out the operation concerns no more than the core, whatever the core holds. -/
def Opcode.Inward (op : Opcode) : Prop := op ≠ .halt ∧ op ≠ .ret ∧ op ≠ .out ∧ op ≠ .input

/-! ## Silent deeds

Looking up finds invalid addresses and divisions by zero, and nothing else goes wrong. The deed that
is found is silent but for the four instructions that speak to the world.
-/

section Silent

variable {C : Fault → Prop} (hinvalid : ∀ word, C (.invalidAddress word))

include hinvalid

/-- What is looked up for an operation that concerns no more than the core is silent. -/
theorem silent_deed (hzero : C .divisionByZero) (i : Instruction) (next : Word) (store : Store) :
    Accounted (fun deed => i.opcode.Inward → deed.Silent) C (i.deed next store) := by
  have hvalue : ∀ raw, Accounted (fun w => store.value raw = .ok w) C (store.value raw) :=
    fun raw => .value store fun _ => hinvalid raw
  have hpeek : ∀ address, Accounted (fun _ => True) C (store.peek address) :=
    fun address => .peek store fun _ => hinvalid address
  unfold Instruction.deed Instruction.resolve
  cases hopcode : i.opcode with
  | halt => exact fun hinward => absurd rfl hinward.1
  | ret => exact fun hinward => absurd rfl hinward.2.1
  | out => exact (hvalue i.a).bind fun _ _ hinward => absurd rfl hinward.2.2.1
  | input => exact fun hinward => absurd rfl hinward.2.2.2
  | pop | noop => exact fun _ => trivial
  | set | push | jmp | not | call => exact (hvalue _).bind fun _ _ _ => trivial
  | eq | gt | add | mult | and | or =>
    exact Instruction.accounted_resolveBoth (hvalue i.b) (hvalue i.c) fun _ _ _ _ _ => trivial
  | mod =>
    refine Instruction.accounted_resolveBoth (hvalue i.b) (hvalue i.c) fun x y _ _ => ?_
    unfold Instruction.remainder
    split
    · exact hzero
    · exact fun _ => trivial
  | rmem => exact (hvalue _).bind fun address _ => (hpeek address).bind fun _ _ _ => trivial
  | wmem => exact (hvalue _).bind fun _ _ => (hvalue _).bind fun _ _ _ => trivial
  | jt | jf =>
    refine (hvalue _).bind fun x _ => ?_
    split
    · exact (hvalue _).bind fun _ _ _ => trivial
    · exact fun _ => trivial

/-- Doing a silent deed has a silent effect and never finds the input ended. -/
theorem silent_perform (hempty : C .emptyStack) (hfailure : ∀ reason, C (.input reason))
    {deed : Deed} (hdry : deed.Silent ∨ C .inputExhausted) (core : Core) :
    Accounted (fun effect => deed.Silent → effect.Silent) C (deed.perform.run core).1 := by
  have hassign : ∀ target word found, Accounted (fun effect => deed.Silent → effect.Silent) C
      ((Instruction.assign target word).run found).1 :=
    fun target => Instruction.accounted_assign (fun _ => trivial) fun _ => hinvalid target
  cases deed with
  | answer effect | push word effect => exact id
  | assign target word => exact hassign target word core
  | pop target =>
    rw [Deed.run_pop]
    cases core.stack.pop? with
    | none => exact hempty
    | some entry => exact hassign target entry.1 _
  | ret =>
    rw [Deed.run_ret]
    cases core.stack.pop? <;> exact False.elim
  | input target =>
    rw [Deed.run_input]
    rcases core.input.next with ⟨byte | reason | _, rest⟩
    · exact hassign target byte.toUInt16 _
    · exact hfailure reason
    · exact hdry.resolve_left id

end Silent

namespace Instruction

/-- The instruction is `halt`, or `ret` with nothing on the stack. -/
def Halts (i : Instruction) (stack : Stack) : Prop :=
  i.opcode = .halt ∨ i.opcode = .ret ∧ stack.toList = []

/-- The instruction is `in`, and there is no more to read. -/
def RunsDry (i : Instruction) (input : Input) : Prop :=
  i.opcode = .input ∧ input.next.1 = .endOfInput

/-- What the instruction puts out: one byte, the value of the operand modulo 256, if it is `out`
and its operand has a value. -/
def sent (i : Instruction) (store : Store) : List UInt8 :=
  match i.opcode, store.value i.a with
  | .out, .ok word => [UInt8.ofNat (word.toNat % 256)]
  | _, _ => []

theorem sent_of_ne_out {i : Instruction} (h : i.opcode ≠ .out) (store : Store) :
    i.sent store = [] := by
  unfold sent
  split
  · contradiction
  · rfl

theorem sent_of_out {i : Instruction} (h : i.opcode = .out) (store : Store) :
    i.sent store =
      match store.value i.a with
      | .ok word => [word.toUInt8]
      | .error _ => [] := by
  unfold sent
  rw [h]
  cases store.value i.a with
  | ok word =>
    have hbyte : UInt8.ofNat (word.toNat % 256) = word.toUInt8 := by
      rw [← UInt8.toNat_inj]
      simp
    exact congrArg (· :: []) hbyte
  | error fault => rfl

/-- Nothing about the instruction concerns more than the core. -/
structure Quiet (i : Instruction) (core : Core) : Prop where
  halts : ¬ i.Halts core.stack
  runsDry : ¬ i.RunsDry core.input
  sent : i.sent core.store = []

/-- What executing an instruction may answer, each answer with its cause. -/
inductive Answers (i : Instruction) (core : Core) : Except Fault Effect → Prop where
  | halt (hhalts : i.Halts core.stack) : Answers i core (.ok .halt)
  | exhausted (hdry : i.RunsDry core.input) : Answers i core (.error .inputExhausted)
  | output {byte : UInt8} (hopcode : i.opcode = .out) (hsent : i.sent core.store = [byte]) :
      Answers i core (.ok (.output byte))
  | regular {answer : Except Fault Effect} (hquiet : i.Quiet core)
      (hregular : Regular Effect.Silent answer) : Answers i core answer

/-- The causes are looked for in store, stack and input. -/
theorem Answers.of_eq {i : Instruction} {core other : Core} {answer : Except Fault Effect}
    (h : i.Answers core answer) (hstore : other.store = core.store)
    (hstack : other.stack = core.stack) (hinput : other.input = core.input) :
    i.Answers other answer := by
  cases h with
  | halt h => exact .halt (hstack ▸ h)
  | exhausted h => exact .exhausted (hinput ▸ h)
  | output h hsent => exact .output h (hstore ▸ hsent)
  | regular h hregular =>
    exact .regular ⟨hstack ▸ h.halts, hinput ▸ h.runsDry, hstore ▸ h.sent⟩ hregular

theorem answers_ret {i : Instruction} (hopcode : i.opcode = .ret) (core : Core) :
    i.Answers core (Deed.ret.perform.run core).1 := by
  rw [Deed.run_ret]
  rcases core.stack.pop?_cases with ⟨hnil, hpop⟩ | ⟨below, w, happ, hpop⟩
  · rw [hpop]
    exact .halt (.inr ⟨hopcode, hnil⟩)
  · have hquiet : i.Quiet core :=
      ⟨by simp [Halts, hopcode, happ], by simp [RunsDry, hopcode],
        sent_of_ne_out (by simp [hopcode]) _⟩
    rw [hpop]
    exact .regular hquiet trivial

theorem answers_input {i : Instruction} (hopcode : i.opcode = .input) (target : Word)
    (core : Core) : i.Answers core ((Deed.input target).perform.run core).1 := by
  have hhalts : ¬ i.Halts core.stack := by simp [Halts, hopcode]
  have hsent : i.sent core.store = [] := sent_of_ne_out (by simp [hopcode]) _
  rw [Deed.run_input]
  rcases hnext : core.input.next with ⟨byte | reason | _, rest⟩
  · exact .regular ⟨hhalts, by simp [RunsDry, hnext], hsent⟩ (.of_accounted (accounted_assign trivial (fun _ => nofun) _ _))
  · exact .regular ⟨hhalts, by simp [RunsDry, hnext], hsent⟩ (by simp [Regular])
  · exact .exhausted ⟨hopcode, by rw [hnext]⟩

/-- **Every answer has its cause.** The run ends at `halt`, at `ret` on an empty stack and at the
end of input, a byte is put out by `out`, and nothing else concerns more than the core. -/
theorem execute_answers (i : Instruction) (next : Word) (core : Core) :
    i.Answers core ((i.execute next).run core).1 := by
  obtain ⟨reads, -, hrun⟩ := i.run_execute next core
  rw [hrun]
  -- the reads change nothing that the causes look at
  suffices h : i.Answers (core.reportAll reads) _ from h.of_eq (by simp) (by simp) (by simp)
  by_cases hhalt : i.opcode = .halt
  · simp only [deed, resolve, hhalt]
    exact .halt (.inl hhalt)
  by_cases hret : i.opcode = .ret
  · simp only [deed, resolve, hret]
    exact answers_ret hret _
  by_cases hinput : i.opcode = .input
  · simp only [deed, resolve, hinput]
    exact answers_input hinput i.a _
  have hhalts : ¬ i.Halts (core.reportAll reads).stack := by simp [Halts, hhalt, hret]
  have hdry : ¬ i.RunsDry (core.reportAll reads).input := by simp [RunsDry, hinput]
  by_cases hout : i.opcode = .out
  · have hsent := sent_of_out hout (core.reportAll reads).store
    have hvalue : Accounted _ (· ≠ .inputExhausted) (core.store.value i.a) :=
      .value core.store fun _ => nofun
    rw [Core.store_reportAll] at hsent
    simp only [deed, resolve, hout]
    cases hoperand : core.store.value i.a with
    | ok word =>
      rw [hoperand] at hsent
      exact .output hout (by simpa using hsent)
    | error fault =>
      rw [hoperand] at hsent
      exact .regular ⟨hhalts, hdry, by simpa using hsent⟩ (hvalue.of_error hoperand)
  · have hquiet : i.Quiet (core.reportAll reads) := ⟨hhalts, hdry, sent_of_ne_out hout _⟩
    have hdeed : Accounted _ (· ≠ .inputExhausted) (i.deed next core.store) :=
      silent_deed (fun _ => nofun) nofun i next core.store
    cases hlookup : i.deed next core.store with
    | error fault => exact .regular hquiet (hdeed.of_error hlookup)
    | ok deed =>
      have hsilent : deed.Silent := hdeed.of_ok hlookup ⟨hhalt, hret, hout, hinput⟩
      have hperform : Accounted (fun effect => deed.Silent → effect.Silent) (· ≠ .inputExhausted)
          (deed.perform.run (core.reportAll reads)).1 :=
        silent_perform (fun _ => nofun) nofun (fun _ => nofun) (.inl hsilent) _
      exact .regular hquiet (.of_accounted (hperform.mono (fun _ h => h hsilent) fun _ => id))

end Instruction

end WordMachine
