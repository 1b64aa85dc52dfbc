import WordMachine.Proofs.Instruction.Decode
import WordMachine.Proofs.Machine.Output
import WordMachine.Proofs.Machine.Record

/-! # What one step commits

A step either skips a word that selects no operation or executes the instruction that stands at the
program counter. Either way there is one new program counter, one entry for the last instruction,
and at most one count; every fault is recorded once. `Performs` says what an executed instruction
leaves, and `Enters` what the step enters into the books when it is over, the step limit included.
-/
namespace WordMachine

/-- Writes bytes to the device if there are any to write. -/
def Terminal.send (terminal : Terminal) : Option (List UInt8) → Option String × Terminal
  | some data => terminal.emit data
  | none => (none, terminal)

/-- The bytes that an instruction with this answer writes: its output, or the line of the machine
that it halts. -/
def Instruction.message? (i : Instruction) : Except Fault Effect → Option (List UInt8)
  | .ok (.output byte) => some [byte]
  | .ok .halt => some i.lastLine
  | _ => none

theorem Instruction.Answers.halts {i : Instruction} {core : Core} (h : i.Answers core (.ok .halt)) :
    i.Halts core.stack := by
  cases h with
  | halt hhalts => exact hhalts
  | regular hquiet hregular => exact hregular.elim

namespace Machine

/-- The address behind an instruction that stands at the program counter. -/
def behind (m : Machine) (i : Instruction) : Word := .ofNat ((m.pc.toNat + i.length) % 0x8000)

theorem toNat_behind (m : Machine) (i : Instruction) :
    (m.behind i).toNat = (m.pc.toNat + i.length) % 0x8000 := by
  rw [behind, UInt16.toNat_ofNat']
  omega

/-- What executing an instruction at the program counter answers, and what it leaves. -/
def outcome (m : Machine) (i : Instruction) : Except Fault Effect × Core :=
  (i.execute (m.behind i)).run m.core

/-- Whether an instruction with this answer is counted. -/
def counts : Except Fault Effect → Bool
  | .ok .halt | .error .inputExhausted => false
  | _ => true

/-- The faults that an instruction with this answer gives rise to. -/
def faultsOf (m : Machine) (i : Instruction) : Except Fault Effect → List Fault
  | .error .inputExhausted => [.inputExhausted]
  | .error fault => [.located (executingPlace i) fault]
  | .ok effect => ((m.terminal.send (i.message? (.ok effect))).1.map Fault.terminal).toList

/-- The fault of the step limit, if the next count reaches it. -/
def limitFaults (m : Machine) : List Fault :=
  match m.config.maxSteps with
  | some limit => if limit.toNat ≤ m.counter + 1 then [.stepLimit limit] else []
  | none => []

/-- The machine afterwards stands behind a word that it has passed over. -/
structure Skips (m after : Machine) : Prop where
  core : after.core.Alike m.core
  lastInstruction : after.lastInstruction = m.lastInstruction
  pc : after.pc.toNat = (m.pc.toNat + 1) % 0x8000
  terminal : after.terminal = m.terminal

/-- The machine afterwards has executed the instruction: it stands behind it or where it jumps. -/
structure Performs (m : Machine) (i : Instruction) (after : Machine) : Prop where
  core : after.core.Alike (m.outcome i).2
  lastInstruction : after.lastInstruction = some i
  pc : after.pc = match (m.outcome i).1 with
    | .ok (.jump target) => target
    | _ => m.behind i
  terminal : after.terminal = (m.terminal.send (i.message? (m.outcome i).1)).2

/-- The step has recorded the faults and is counted or not. If it is counted and reaches the step
limit, that is one fault more, and the machine has finished. -/
structure Enters (m : Machine) (faults : List Fault) (counted : Bool) (after : Machine) : Prop where
  counter : after.counter = if counted then m.counter + 1 else m.counter
  recorded : m.Recorded (faults ++ if counted then m.limitFaults else []) after
  status : after.status = if counted ∧ m.limitFaults = [] then .running else .finished

/-! ## Phases that leave the instruction's work alone -/

/-- Core, program counter, last instruction and terminal are as before. -/
structure Steady (before after : Machine) : Prop where
  core : after.core.Alike before.core
  pc : after.pc = before.pc
  lastInstruction : after.lastInstruction = before.lastInstruction
  terminal : after.terminal = before.terminal

theorem Steady.refl (m : Machine) : m.Steady m := ⟨.refl _, rfl, rfl, rfl⟩

theorem steady_awake (m : Machine) : m.Steady m.awake := by
  unfold awake
  split <;> exact ⟨⟨rfl, rfl, rfl⟩, rfl, rfl, rfl⟩

theorem recorded_awake (m : Machine) : m.Recorded [] m.awake := by
  unfold awake
  split
  · exact .nothing rfl rfl rfl [.started] (by simp [Event.fault?]) rfl
  · exact .nothing rfl rfl rfl [] (by simp) rfl

theorem steady_tick (m : Machine) : m.Steady m.tick := by
  cases hmax : m.config.maxSteps with
  | none =>
    rw [tick_of_unlimited hmax]
    exact ⟨⟨rfl, rfl, rfl⟩, rfl, rfl, rfl⟩
  | some limit =>
    rw [tick_of_limit hmax]
    split <;> exact ⟨⟨rfl, rfl, rfl⟩, rfl, rfl, rfl⟩

theorem tick_of_running {m : Machine} (h : m.status = .running) :
    m.Recorded m.limitFaults m.tick ∧
      m.tick.status = if m.limitFaults = [] then .running else .finished := by
  have hcounted : m.Recorded [] { m with counter := m.counter + 1 } :=
    .nothing rfl rfl rfl [] (by simp) rfl
  unfold limitFaults
  cases hmax : m.config.maxSteps with
  | none =>
    rw [tick_of_unlimited hmax]
    exact ⟨hcounted, h⟩
  | some limit =>
    rw [tick_of_limit hmax]
    by_cases hreached : limit.toNat ≤ m.counter + 1
    · have hrecord := hcounted.trans (.record _ (.stepLimit limit))
      simp only [hreached, h, and_self, if_true]
      exact ⟨{ hrecord with }, rfl⟩
    · simp only [hreached, false_and, if_false]
      exact ⟨hcounted, h⟩

theorem steady_counted (p : Machine × Bool) : p.1.Steady (counted p) := by
  rcases p with ⟨m, _ | _⟩
  · exact ⟨⟨rfl, rfl, rfl⟩, rfl, rfl, rfl⟩
  · exact m.steady_tick

theorem steady_step {m : Machine} (hgoing : m.status ≠ .finished) :
    m.awake.attempt.1.Steady m.step := by
  rw [step_eq hgoing]
  exact { steady_counted m.awake.attempt with }

/-- What an attempt has recorded and whether it counts decides what the step enters. -/
theorem enters_step {m : Machine} (hgoing : m.status ≠ .finished) {faults : List Fault}
    (h : m.awake.Recorded faults m.awake.attempt.1) :
    m.Enters faults m.awake.attempt.2 m.step := by
  have hcounter := counter_step hgoing
  have hstatus := m.awake.status_attempt
  have hrecorded := m.recorded_awake.trans h
  have hlimit : m.awake.attempt.1.limitFaults = m.limitFaults := by
    simp only [limitFaults, config_attempt, config_awake, counter_attempt, counter_awake]
  rw [status_awake hgoing] at hstatus
  rw [List.nil_append] at hrecorded
  rw [step_eq hgoing] at hcounter ⊢
  rcases hattempt : m.awake.attempt with ⟨after, _ | _⟩
  · rw [hattempt] at hcounter hstatus hrecorded
    refine ⟨hcounter, ?_, hstatus⟩
    rw [if_neg Bool.false_ne_true, List.append_nil]
    exact { hrecorded with }
  · rw [hattempt] at hcounter hstatus hrecorded hlimit
    obtain ⟨hticked, hfinished⟩ := tick_of_running hstatus
    rw [hlimit] at hticked hfinished
    refine ⟨hcounter, ?_, ?_⟩
    · rw [if_pos rfl]
      exact { hrecorded.trans hticked with }
    · simp only [true_and]
      exact hfinished

/-! ## Attempts -/

theorem steady_emit (m : Machine) (data : List UInt8) :
    ({ m with terminal := (m.terminal.emit data).2 } : Machine).Steady (m.emit data) := by
  unfold emit
  rcases m.terminal.emit data with ⟨_ | reason, terminal⟩ <;>
    exact ⟨⟨rfl, rfl, rfl⟩, rfl, rfl, rfl⟩

theorem recorded_emit (m : Machine) (data : List UInt8) :
    m.Recorded ((m.terminal.emit data).1.map Fault.terminal).toList (m.emit data) := by
  unfold emit
  rcases m.terminal.emit data with ⟨_ | reason, terminal⟩
  · exact .nothing rfl rfl rfl [] (by simp) rfl
  · exact { Recorded.record { m with terminal } (.terminal reason) with }

/-- What settling an answer leaves and records, and whether it counts. -/
structure Settled (m : Machine) (i : Instruction) (answer : Except Fault Effect)
    (after : Machine × Bool) : Prop where
  core : after.1.core.Alike m.core
  lastInstruction : after.1.lastInstruction = m.lastInstruction
  pc : after.1.pc = match answer with
    | .ok (.jump target) => target
    | _ => m.pc
  terminal : after.1.terminal = (m.terminal.send (i.message? answer)).2
  recorded : m.Recorded (m.faultsOf i answer) after.1
  counted : after.2 = counts answer

theorem settled_settle {m : Machine} {i : Instruction} {core : Core} {answer : Except Fault Effect}
    (hanswers : i.Answers core answer) (hpc : m.pc = Instruction.addressAfter i.address i.length)
    (hlast : m.lastInstruction = some i) : m.Settled i answer (m.settle i answer) := by
  have hnothing : m.Recorded [] m := .nothing rfl rfl rfl [] (by simp) rfl
  cases answer with
  | ok effect =>
    cases effect with
    | proceed => exact ⟨.refl _, rfl, rfl, rfl, hnothing, rfl⟩
    | jump target => exact ⟨⟨rfl, rfl, rfl⟩, rfl, rfl, rfl, { hnothing with }, rfl⟩
    | output byte =>
      have hsteady := m.steady_emit [byte]
      exact ⟨hsteady.core, hsteady.lastInstruction, hsteady.pc, hsteady.terminal,
        m.recorded_emit [byte], rfl⟩
    | halt =>
      -- the machine writes its line for the instruction that it has just executed
      have hline := farewell_of_halts hanswers.halts hpc hlast
      have hsteady := m.steady_emit i.lastLine
      have hrecorded := m.recorded_emit i.lastLine
      have hhalt : m.halt = (m.emit i.lastLine).finish := by rw [halt, hline]
      rw [settle, hhalt]
      exact ⟨hsteady.core, hsteady.lastInstruction, hsteady.pc, hsteady.terminal,
        { hrecorded with }, rfl⟩
  | error fault =>
    cases fault with
    | inputExhausted =>
      have hreported : m.Recorded [] (m.report (.exhausted i.address)) :=
        .nothing rfl rfl rfl [.exhausted i.address] (by simp [Event.fault?]) rfl
      have hrecorded := hreported.trans (.record _ .inputExhausted)
      exact ⟨⟨rfl, rfl, rfl⟩, rfl, rfl, rfl, { hrecorded with }, rfl⟩
    | _ => exact ⟨⟨rfl, rfl, rfl⟩, rfl, rfl, rfl, .record m _, rfl⟩

/-- What executing an instruction comes to is decided by core and program counter. -/
theorem Steady.outcome {before after : Machine} (h : before.Steady after) (i : Instruction) :
    (after.outcome i).1 = (before.outcome i).1 ∧
      (after.outcome i).2.Alike (before.outcome i).2 := by
  unfold Machine.outcome behind
  rw [h.pc]
  exact (Action.IgnoresLog.compositional.execute i _).alike h.core

theorem steady_reportAll (m : Machine) (events : List Event) :
    m.Steady { m with core := m.core.reportAll events } :=
  ⟨(Core.Alike.refl m.core).reportAll events, rfl, rfl, rfl⟩

theorem Performs.of_steady {m other before after : Machine} {i : Instruction}
    (h : other.Performs i before) (hother : m.Steady other) (hafter : before.Steady after) :
    m.Performs i after := by
  obtain ⟨hanswer, hcore⟩ := hother.outcome i
  refine ⟨hafter.core.trans (h.core.trans hcore), hafter.lastInstruction.trans h.lastInstruction,
    ?_, ?_⟩
  · rw [hafter.pc, h.pc, hanswer, behind, behind, hother.pc]
  · rw [hafter.terminal, h.terminal, hanswer, hother.terminal]

theorem attempt_of_error {m : Machine} {fault : Fault} (h : m.fetch = .error fault) :
    m.Skips m.attempt.1 ∧ m.Recorded [.located (decodingPlace m.pc) fault] m.attempt.1 ∧
      m.attempt.2 = true := by
  obtain ⟨reads, hreads, hattempt⟩ := m.attempt_reads
  have hread : m.Recorded [] { m with
      core := m.core.reportAll reads
      pc := Instruction.addressAfter m.pc 1 } :=
    .nothing rfl rfl rfl reads (fun event hevent => (hreads event hevent).isAccess.fault?)
      (by rw [Core.reportAll_eq])
  rw [hattempt, h]
  refine ⟨⟨?_, rfl, ?_, rfl⟩, ?_, rfl⟩
  · exact { (Core.Alike.refl m.core).reportAll reads with }
  · exact Instruction.toNat_addressAfter m.pc 1
  · exact hread.trans (.record _ _)

section Executed

variable {m : Machine} {i : Instruction} (hplace : i.address = m.pc)

include hplace

theorem pc_fetched : (m.fetched i).pc = m.behind i := by
  show Instruction.addressAfter i.address i.length = m.behind i
  rw [hplace, Instruction.addressAfter_eq, behind]

/-- That the fetching is logged does not matter to what executing an instruction comes to. Before
it is settled, core, program counter and last instruction are all that has changed. -/
theorem executed_eq :
    ∃ core, (i.execute (m.behind i)).run (m.fetched i).core = ((m.outcome i).1, core) ∧
      core.Alike (m.outcome i).2 ∧
      m.executed i = { m with core, pc := m.behind i, lastInstruction := some i }.settle i
        (m.outcome i).1 := by
  obtain ⟨hanswer, hcore⟩ := (Action.IgnoresLog.compositional.execute i (m.behind i)).alike
    (⟨rfl, rfl, rfl⟩ : (m.fetched i).core.Alike m.core)
  have hexecuted : m.executed i = { m with
    core := ((i.execute (m.fetched i).pc).run (m.fetched i).core).2
    pc := (m.fetched i).pc
    lastInstruction := some i }.settle i
      ((i.execute (m.fetched i).pc).run (m.fetched i).core).1 := rfl
  rw [pc_fetched hplace, hanswer] at hexecuted
  exact ⟨((i.execute (m.behind i)).run (m.fetched i).core).2, Prod.ext hanswer rfl, hcore,
    hexecuted⟩

theorem executed_of_place :
    m.Performs i (m.executed i).1 ∧ m.Recorded (m.faultsOf i (m.outcome i).1) (m.executed i).1 ∧
      (m.executed i).2 = counts (m.outcome i).1 := by
  obtain ⟨core, hrun, hcore, hexecuted⟩ := executed_eq hplace
  obtain ⟨accesses, haccesses, hlog⟩ :=
    Action.TellsAccesses.compositional.execute i (m.behind i) (m.fetched i).core
  have hanswers := i.execute_answers (m.behind i) (m.fetched i).core
  rw [hrun] at hlog hanswers
  have hran : m.Recorded [] { m with core, pc := m.behind i, lastInstruction := some i } := by
    refine .nothing rfl rfl rfl (.fetched i.opcode i.address m.counter i.operands :: accesses) ?_
      hlog
    rintro event (_ | ⟨_, hevent⟩)
    · rfl
    · exact (haccesses event hevent).fault?
  have hsettled := settled_settle
    (m := { m with core, pc := m.behind i, lastInstruction := some i }) hanswers
    (pc_fetched hplace).symm rfl
  rw [hexecuted]
  exact ⟨⟨hsettled.core.trans hcore, hsettled.lastInstruction, hsettled.pc, hsettled.terminal⟩,
    hran.trans hsettled.recorded, hsettled.counted⟩

end Executed

theorem attempt_of_ok {m : Machine} {i : Instruction} (h : m.fetch = .ok i) :
    m.Performs i m.attempt.1 ∧ m.Recorded (m.faultsOf i (m.outcome i).1) m.attempt.1 ∧
      m.attempt.2 = counts (m.outcome i).1 := by
  obtain ⟨reads, hreads, hattempt⟩ := m.attempt_reads
  have hsteady := m.steady_reportAll reads
  have hread : m.Recorded [] { m with core := m.core.reportAll reads } :=
    .nothing rfl rfl rfl reads (fun event hevent => (hreads event hevent).isAccess.fault?)
      (by rw [Core.reportAll_eq])
  obtain ⟨hanswer, -⟩ := hsteady.outcome i
  obtain ⟨hperforms, hrecorded, hcounted⟩ :=
    executed_of_place (m := { m with core := m.core.reportAll reads })
      (Instruction.address_of_decode h)
  rw [hanswer] at hrecorded hcounted
  rw [hattempt, h]
  exact ⟨hperforms.of_steady hsteady (.refl _), hread.trans hrecorded, hcounted⟩

/-! ## Steps -/

section Step

variable {m : Machine} (hgoing : m.status ≠ .finished)

include hgoing

theorem step_of_error {fault : Fault} (h : m.fetch = .error fault) :
    m.Skips m.step ∧ m.Enters [.located (decodingPlace m.pc) fault] true m.step := by
  obtain ⟨hskips, hrecorded, hcounted⟩ := attempt_of_error (m.fetch_awake.trans h)
  have hawake := m.steady_awake
  have hstep := steady_step hgoing
  have henters := enters_step hgoing hrecorded
  rw [hcounted, hawake.pc] at henters
  refine ⟨⟨hstep.core.trans (hskips.core.trans hawake.core), ?_, ?_, ?_⟩, henters⟩
  · rw [hstep.lastInstruction, hskips.lastInstruction, hawake.lastInstruction]
  · rw [hstep.pc, hskips.pc, hawake.pc]
  · rw [hstep.terminal, hskips.terminal, hawake.terminal]

theorem step_of_ok {i : Instruction} (h : m.fetch = .ok i) :
    m.Performs i m.step ∧
      m.Enters (m.faultsOf i (m.outcome i).1) (counts (m.outcome i).1) m.step := by
  obtain ⟨hperforms, hrecorded, hcounted⟩ := attempt_of_ok (m.fetch_awake.trans h)
  have hawake := m.steady_awake
  have hfaults : m.awake.faultsOf i = m.faultsOf i := by
    unfold faultsOf
    rw [hawake.terminal]
  rw [(hawake.outcome i).1] at hcounted hrecorded
  rw [hfaults] at hrecorded
  have henters := enters_step hgoing hrecorded
  rw [hcounted] at henters
  exact ⟨hperforms.of_steady hawake (steady_step hgoing), henters⟩

end Step

/-- **A step commits one program counter and one set of books.** A word whose low byte selects no
operation is passed over, with one fault, and counted. Any other word is the beginning of an
instruction, which is executed. The machine then stands behind it, or where it jumps if it does,
whatever became of it; its faults are recorded, and it is counted unless it halted or ran out of
input. Only the step limit adds to that. -/
theorem step_commits {m : Machine} (hgoing : m.status ≠ .finished)
    (hinside : m.pc.toNat < 0x8000) :
    let word := m.core.store.ram.get m.pc
    (21 < word.toNat % 256 →
      m.Skips m.step ∧
      m.Enters [.located (decodingPlace m.pc) (.unknownOpcode word.toUInt8)] true m.step) ∧
    (word.toNat % 256 ≤ 21 →
      ∃ i, i.StandsAt m.core.store.ram m.pc ∧ m.Performs i m.step ∧
        m.Enters (m.faultsOf i (m.outcome i).1) (counts (m.outcome i).1) m.step) := by
  intro word
  rw [← UInt16.toNat_toUInt8]
  constructor
  · intro hlarge
    exact step_of_error hgoing (Instruction.decode_peek_of_large hinside hlarge)
  · intro hsmall
    obtain ⟨i, hdecode, hstands⟩ := Instruction.decode_peek_of_small hinside hsmall
    obtain ⟨hperforms, henters⟩ := step_of_ok hgoing hdecode
    exact ⟨i, hstands, hperforms, henters⟩

/-- A machine of zeros that stands at the last cell. -/
def atTop (word : Word) : Machine :=
  let blank := create .default none
  { blank with
    pc := 0x7fff
    core := { blank.core with store := ⟨Ram.zeros.set 0x7fff word, .zeros⟩ } }

/-- Behind the last cell comes the first, for a word that is no operation as for `jmp`, whose
operand is the zero that stands there. -/
theorem step_commits_top :
    ((atTop 0x0116).status ≠ .finished ∧ (atTop 0x0116).pc.toNat < 0x8000 ∧
      (atTop 0x0116).step.pc.toNat = 0 ∧
      (atTop 0x0116).Enters [.located "decode at 0x7FFF" (.unknownOpcode 22)] true
        (atTop 0x0116).step) ∧
    ((atTop 6).status ≠ .finished ∧ (atTop 6).pc.toNat < 0x8000 ∧
      ∃ i, i.StandsAt (atTop 6).core.store.ram 0x7fff ∧ i.opcode = .jmp ∧ i.a = 0 ∧
        (atTop 6).Performs i (atTop 6).step) := by
  have hword : ∀ word, (atTop word).core.store.ram.get 0x7fff = word := by
    simp [atTop, Ram.get_set]
  constructor
  · obtain ⟨hunknown, -⟩ := step_commits (m := atTop 0x0116) (by decide) (by decide)
    rw [show (atTop 0x0116).pc = 0x7fff from rfl, hword] at hunknown
    obtain ⟨hskips, henters⟩ := hunknown (by decide)
    have hplace : decodingPlace 0x7fff = "decode at 0x7FFF" := by decide +kernel
    rw [hplace] at henters
    exact ⟨by decide, by decide, hskips.pc, henters⟩
  · obtain ⟨-, hknown⟩ := step_commits (m := atTop 6) (by decide) (by decide)
    rw [show (atTop 6).pc = 0x7fff from rfl, hword] at hknown
    obtain ⟨i, hstands, hperforms, -⟩ := hknown (by decide)
    have hnumber := hstands.opcode
    rw [hword] at hnumber
    have hopcode : i.opcode = .jmp := by
      revert hnumber
      cases i.opcode <;> decide
    have hoperand := hstands.a
    rw [hopcode] at hoperand
    have hfirst : (atTop 6).core.store.ram.get 0 = 0 := by
      show (Ram.zeros.set 0x7fff 6).get 0 = 0
      rw [Ram.get_set, if_neg (by decide)]
      simp [Ram.get, Ram.get?, Ram.zeros]
    exact ⟨by decide, by decide, i, hstands, hopcode, hoperand.trans hfirst, hperforms⟩

end Machine

end WordMachine
