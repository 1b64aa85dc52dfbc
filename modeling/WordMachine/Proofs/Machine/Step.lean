import WordMachine.Machine.Run
import WordMachine.Proofs.Instruction.Answer

/-! # The parts of a step

A step wakes a new machine, attempts the instruction at the program counter, counts the
attempt unless it ended the run, and publishes a snapshot. An attempt is everything that an
instruction does but the counting. It neither counts nor looks at the step limit, so that
limits and counters are a matter of `tick` alone. What an attempt comes to is decided by the
instruction that is fetched and by what executing it answers: `attempt_cases`.
-/
namespace WordMachine

namespace Instruction

theorem observes_readOperand (address : Word) (opcode : Opcode) (index : Nat) :
    (readOperand Action.read address opcode index).Observes
      fun store => readOperand store.peek address opcode index :=
  .ite (.read _) (.pure 0)

/-- Decoding only looks. -/
theorem observes_decode (address : Word) :
    (decode Action.read address).Observes fun store => decode store.peek address := by
  unfold decode
  refine .bind (.read address) fun word => ?_
  cases Opcode.ofWord word with
  | error fault => exact .throw fault
  | ok opcode =>
    exact .bind (observes_readOperand address opcode 0) fun _ =>
      .bind (observes_readOperand address opcode 1) fun _ =>
        .bind (observes_readOperand address opcode 2) fun _ => .pure _

theorem address_of_decode {read : Word → Except Fault Word} {address : Word} {i : Instruction}
    (h : decode read address = .ok i) : i.address = address := by
  obtain ⟨word, -, h⟩ := bind_eq_ok h
  split at h
  · cases h
  · obtain ⟨a, -, h⟩ := bind_eq_ok h
    obtain ⟨b, -, h⟩ := bind_eq_ok h
    obtain ⟨c, -, h⟩ := bind_eq_ok h
    obtain rfl := Except.ok.inj h
    rfl

end Instruction

namespace Machine

/-- An emission takes the terminal on and records a fault if it failed. -/
theorem emit_cases (m : Machine) (data : List UInt8) :
    ∃ terminal : Terminal, m.emit data = { m with terminal } ∨
      ∃ reason, m.emit data = { m with terminal }.record (.terminal reason) := by
  unfold emit
  rcases m.terminal.emit data with ⟨_ | reason, terminal⟩
  · exact ⟨terminal, .inl rfl⟩
  · exact ⟨terminal, .inr ⟨reason, rfl⟩⟩

/-- The machine as its next cycle finds it. -/
def awake (m : Machine) : Machine := if m.status = .new then m.start else m

theorem status_awake {m : Machine} (h : m.status ≠ .finished) : m.awake.status = .running := by
  unfold awake
  split
  · rfl
  · cases hstatus : m.status with
    | new => contradiction
    | running => rfl
    | finished => exact absurd hstatus h

@[simp] theorem counter_awake (m : Machine) : m.awake.counter = m.counter := by
  unfold awake
  split <;> rfl

@[simp] theorem config_awake (m : Machine) : m.awake.config = m.config := by
  unfold awake
  split <;> rfl

theorem monitor_awake (m : Machine) : m.awake.monitor = m.monitor := by
  unfold awake
  split <;> rfl

theorem terminal_awake (m : Machine) : m.awake.terminal = m.terminal := by
  unfold awake
  split <;> rfl

/-- Commits what executing an instruction answered but for the counting, and tells whether the
instruction is to be counted. -/
def settle (m : Machine) (i : Instruction) : Except Fault Effect → Machine × Bool
  | .ok .halt => (m.halt, false)
  | .ok .proceed => (m, true)
  | .ok (.jump target) => ({ m with pc := target }, true)
  | .ok (.output byte) => (m.emit [byte], true)
  | .error .inputExhausted =>
    (((m.report (.exhausted i.address)).record .inputExhausted).finish, false)
  | .error fault => (m.record (.located (executingPlace i) fault), true)

/-- A decoded instruction moves the program counter behind itself before it is executed. -/
def fetched (m : Machine) (i : Instruction) : Machine :=
  let m := { m with pc := Instruction.addressAfter i.address i.length }
  m.report (.fetched i.opcode i.address m.counter i.operands)

/-- A decoded instruction with what executing it answered and left. -/
def executed (m : Machine) (i : Instruction) : Machine × Bool :=
  let m := m.fetched i
  let run := (i.execute m.pc).run m.core
  { m with core := run.2, lastInstruction := some i }.settle i run.1

/-- Decodes and executes the next instruction, and tells whether it is to be counted. -/
def attempt (m : Machine) : Machine × Bool :=
  match (Instruction.decode Action.read m.pc).run m.core with
  | (.ok i, core) => { m with core }.executed i
  | (.error fault, core) =>
    ({ m with core, pc := Instruction.addressAfter m.pc 1 }.record
      (.located (decodingPlace m.pc) fault), true)

theorem tick_of_unlimited {m : Machine} (h : m.config.maxSteps = none) :
    m.tick = { m with counter := m.counter + 1 } := by
  unfold tick
  simp only [h]

theorem tick_of_limit {m : Machine} {limit : UInt64} (h : m.config.maxSteps = some limit) :
    m.tick =
      if limit.toNat ≤ m.counter + 1 ∧ m.status = .running then
        ({ m with counter := m.counter + 1 }.record (.stepLimit limit)).finish
      else { m with counter := m.counter + 1 } := by
  unfold tick
  simp only [h]

/-- Counting either leaves the status alone or finishes the machine. -/
theorem status_tick (m : Machine) : m.tick.status = m.status ∨ m.tick.status = .finished := by
  cases hmax : m.config.maxSteps with
  | none =>
    rw [tick_of_unlimited hmax]
    exact .inl rfl
  | some limit =>
    rw [tick_of_limit hmax]
    split
    · exact .inr rfl
    · exact .inl rfl

theorem tick_frame (m : Machine) :
    m.tick.counter = m.counter + 1 ∧ m.tick.config = m.config ∧ m.tick.monitor = m.monitor := by
  cases hmax : m.config.maxSteps with
  | none =>
    rw [tick_of_unlimited hmax]
    exact ⟨rfl, rfl, rfl⟩
  | some limit =>
    rw [tick_of_limit hmax]
    split <;> exact ⟨rfl, rfl, rfl⟩

/-- Counts an attempt that is to be counted. -/
def counted : Machine × Bool → Machine
  | (m, true) => m.tick
  | (m, false) => m

theorem commit_eq (m : Machine) (i : Instruction) (result : Except Fault Effect) :
    m.commit i result = counted (m.settle i result) := by
  cases result with
  | ok effect => cases effect <;> rfl
  | error fault => cases fault <;> rfl

/-- A cycle is an attempt and its counting. -/
theorem cycle_eq (m : Machine) : m.cycle = counted m.attempt := by
  unfold cycle attempt
  rcases (Instruction.decode Action.read m.pc).run m.core with ⟨_ | i, core⟩
  · rfl
  · exact commit_eq _ i _

/-! ## What the parts leave alone -/

/-- Counter, settings and monitor are as before. -/
structure Framed (before after : Machine) : Prop where
  counter : after.counter = before.counter
  config : after.config = before.config
  monitor : after.monitor = before.monitor

theorem emit_framed (m : Machine) (data : List UInt8) : Framed m (m.emit data) := by
  obtain ⟨terminal, h | ⟨reason, h⟩⟩ := m.emit_cases data
  · rw [h]
    exact ⟨rfl, rfl, rfl⟩
  · rw [h]
    exact ⟨rfl, rfl, rfl⟩

theorem status_emit (m : Machine) (data : List UInt8) : (m.emit data).status = m.status := by
  obtain ⟨terminal, h | ⟨reason, h⟩⟩ := m.emit_cases data
  · rw [h]
  · rw [h]
    rfl

theorem settle_framed (m : Machine) (i : Instruction) (result : Except Fault Effect) :
    Framed m (m.settle i result).1 := by
  cases result with
  | ok effect =>
    cases effect with
    | proceed | jump target => exact ⟨rfl, rfl, rfl⟩
    | output byte => exact m.emit_framed [byte]
    | halt =>
      obtain ⟨hcounter, hconfig, hmonitor⟩ := m.emit_framed m.farewell.toUTF8.toList
      exact ⟨hcounter, hconfig, hmonitor⟩
  | error fault => cases fault <;> exact ⟨rfl, rfl, rfl⟩

/-- What is to be counted leaves the status alone, and what is not to be counted has finished. -/
theorem status_settle (m : Machine) (i : Instruction) (result : Except Fault Effect) :
    (m.settle i result).1.status =
      if (m.settle i result).2 then m.status else .finished := by
  cases result with
  | ok effect =>
    cases effect with
    | proceed | jump target | halt => rfl
    | output byte => exact m.status_emit [byte]
  | error fault => cases fault <;> rfl

theorem executed_framed (m : Machine) (i : Instruction) : Framed m (m.executed i).1 :=
  ⟨(settle_framed _ i _).counter, (settle_framed _ i _).config, (settle_framed _ i _).monitor⟩

theorem attempt_framed (m : Machine) : Framed m m.attempt.1 := by
  unfold attempt
  rcases (Instruction.decode Action.read m.pc).run m.core with ⟨_ | i, core⟩
  · exact ⟨rfl, rfl, rfl⟩
  · obtain ⟨hcounter, hconfig, hmonitor⟩ := executed_framed { m with core } i
    exact ⟨hcounter, hconfig, hmonitor⟩

@[simp] theorem counter_attempt (m : Machine) : m.attempt.1.counter = m.counter :=
  m.attempt_framed.counter

@[simp] theorem config_attempt (m : Machine) : m.attempt.1.config = m.config :=
  m.attempt_framed.config

theorem status_attempt (m : Machine) :
    m.attempt.1.status = if m.attempt.2 then m.status else .finished := by
  unfold attempt
  rcases (Instruction.decode Action.read m.pc).run m.core with ⟨_ | i, core⟩
  · rfl
  · exact status_settle _ i _

/-! ## What an attempt comes to -/

/-- The instruction at the program counter, or the fault of decoding it. -/
def fetch (m : Machine) : Except Fault Instruction := Instruction.decode m.core.store.peek m.pc

@[simp] theorem fetch_awake (m : Machine) : m.awake.fetch = m.fetch := by
  unfold awake
  split <;> rfl

@[simp] theorem store_awake (m : Machine) : m.awake.core.store = m.core.store := by
  unfold awake
  split <;> rfl

@[simp] theorem stack_awake (m : Machine) : m.awake.core.stack = m.core.stack := by
  unfold awake
  split <;> rfl

@[simp] theorem input_awake (m : Machine) : m.awake.core.input = m.core.input := by
  unfold awake
  split <;> rfl

theorem executed_cases (m : Machine) (i : Instruction) :
    ∃ core answer, i.Answers m.core answer ∧
      m.executed i = { m with
        core
        pc := Instruction.addressAfter i.address i.length
        lastInstruction := some i }.settle i answer :=
  ⟨_, _, (i.execute_answers (m.fetched i).pc (m.fetched i).core).of_eq rfl rfl rfl, rfl⟩

/-- An attempt tells of the words that it reads. Then it skips the word that cannot be decoded, or
executes the fetched instruction. -/
theorem attempt_reads (m : Machine) :
    ∃ reads : List Event, (∀ event ∈ reads, event.IsRead) ∧
      m.attempt = match m.fetch with
        | .ok i => { m with core := m.core.reportAll reads }.executed i
        | .error fault =>
          ({ m with core := m.core.reportAll reads, pc := Instruction.addressAfter m.pc 1 }.record
            (.located (decodingPlace m.pc) fault), true) := by
  obtain ⟨reads, hreads, hrun⟩ := (Instruction.observes_decode m.pc).run m.core
  refine ⟨reads, hreads, ?_⟩
  unfold attempt fetch
  rw [hrun]
  cases Instruction.decode m.core.store.peek m.pc <;> rfl

/-- An attempt skips a word that cannot be decoded, or settles what the fetched instruction
answers. -/
theorem attempt_cases (m : Machine) :
    (∃ fault core, m.fetch = .error fault ∧
      m.attempt = ({ m with core, pc := Instruction.addressAfter m.pc 1 }.record
        (.located (decodingPlace m.pc) fault), true)) ∨
    ∃ i core answer, m.fetch = .ok i ∧ i.address = m.pc ∧ i.Answers m.core answer ∧
      m.attempt = { m with
        core
        pc := Instruction.addressAfter m.pc i.length
        lastInstruction := some i }.settle i answer := by
  obtain ⟨reads, -, hattempt⟩ := m.attempt_reads
  rw [hattempt]
  cases hfetch : m.fetch with
  | error fault => exact .inl ⟨fault, _, rfl, rfl⟩
  | ok i =>
    have haddress := Instruction.address_of_decode hfetch
    obtain ⟨core, answer, hanswers, hexecuted⟩ :=
      { m with core := m.core.reportAll reads }.executed_cases i
    rw [haddress] at hexecuted
    exact .inr ⟨i, core, answer, rfl, haddress, hanswers.of_eq (Core.store_reportAll ..).symm
      (Core.stack_reportAll ..).symm (Core.input_reportAll ..).symm, hexecuted⟩

theorem counted_of_regular {answer : Except Fault Effect} (h : Regular Effect.Silent answer)
    (m : Machine) (i : Instruction) : (m.settle i answer).2 = true := by
  cases answer with
  | ok effect =>
    cases effect with
    | proceed | jump target => rfl
    | output byte | halt => exact h.elim
  | error fault =>
    cases fault with
    | inputExhausted => exact absurd rfl h
    | _ => rfl

/-- What is not counted is an instruction that halts or has run out of input. -/
theorem uncounted_iff (m : Machine) :
    m.attempt.2 = false ↔
      ∃ i, m.fetch = .ok i ∧ (i.Halts m.core.stack ∨ i.RunsDry m.core.input) := by
  rcases m.attempt_cases with ⟨fault, core, hfetch, hattempt⟩ | ⟨i, core, answer, hfetch, -, h, hattempt⟩
  · simp [hattempt, hfetch]
  · have hcounted : (∃ j, m.fetch = .ok j ∧ (j.Halts m.core.stack ∨ j.RunsDry m.core.input)) ↔
        i.Halts m.core.stack ∨ i.RunsDry m.core.input := by
      simp [hfetch]
    rw [hattempt, hcounted]
    cases h with
    | halt hhalts => simp [settle, hhalts]
    | exhausted hdry => simp [settle, hdry]
    | output hopcode => simp [settle, Instruction.Halts, Instruction.RunsDry, hopcode]
    | regular hquiet hregular =>
      simp [counted_of_regular hregular, hquiet.halts, hquiet.runsDry]

theorem uncounted_awake_iff (m : Machine) :
    m.awake.attempt.2 = false ↔
      ∃ i, m.fetch = .ok i ∧ (i.Halts m.core.stack ∨ i.RunsDry m.core.input) := by
  rw [uncounted_iff, fetch_awake, stack_awake, input_awake]

/-! ## Steps -/

theorem isHalted_iff (m : Machine) : m.isHalted = true ↔ m.status = .finished := by
  simp [isHalted]

theorem step_of_finished {m : Machine} (h : m.status = .finished) : m.step = m :=
  step_of_isHalted (m.isHalted_iff.2 h)

/-- A step of a machine that has not finished. -/
theorem step_eq {m : Machine} (h : m.status ≠ .finished) :
    m.step = (counted m.awake.attempt).publish := by
  rw [← cycle_eq]
  unfold step awake
  cases hstatus : m.status with
  | new => rfl
  | running => rfl
  | finished => exact absurd hstatus h

/-- After a step a machine is not new. -/
theorem status_step (m : Machine) : m.step.status = .running ∨ m.step.status = .finished := by
  by_cases hfinished : m.status = .finished
  · rw [step_of_finished hfinished]
    exact .inr hfinished
  · have hstatus := m.awake.status_attempt
    rw [status_awake hfinished] at hstatus
    rw [step_eq hfinished]
    rcases hattempt : m.awake.attempt with ⟨after, _ | _⟩
    · rw [hattempt] at hstatus
      exact .inr hstatus
    · rw [hattempt] at hstatus
      rcases after.status_tick with h | h
      · exact .inl (h.trans hstatus)
      · exact .inr h

theorem counted_frame (p : Machine × Bool) :
    (counted p).counter = (if p.2 then p.1.counter + 1 else p.1.counter) ∧
      (counted p).config = p.1.config ∧ (counted p).monitor = p.1.monitor := by
  rcases p with ⟨m, _ | _⟩
  · exact ⟨rfl, rfl, rfl⟩
  · exact m.tick_frame

theorem counter_step {m : Machine} (h : m.status ≠ .finished) :
    m.step.counter = if m.awake.attempt.2 then m.counter + 1 else m.counter := by
  have hcounter := (counted_frame m.awake.attempt).1
  rw [counter_attempt, counter_awake] at hcounter
  rw [step_eq h]
  exact hcounter

/-- What is not counted has finished the machine. -/
theorem status_step_of_uncounted {m : Machine} (hgoing : m.status ≠ .finished)
    (h : m.awake.attempt.2 = false) : m.step.status = .finished := by
  have hstatus := m.awake.status_attempt
  rw [h] at hstatus
  rw [step_eq hgoing]
  show (counted m.awake.attempt).status = .finished
  rcases hattempt : m.awake.attempt with ⟨after, counts⟩
  rw [hattempt] at h hstatus
  obtain rfl : counts = false := h
  exact hstatus

/-- A step counts once at most, and it does count if the machine goes on. -/
theorem counter_step_le (m : Machine) :
    m.step.counter ≤ m.counter + 1 ∧
      (m.step.status ≠ .finished → m.step.counter = m.counter + 1) := by
  by_cases hfinished : m.status = .finished
  · rw [step_of_finished hfinished]
    exact ⟨Nat.le_succ _, fun hgoing => absurd hfinished hgoing⟩
  · rw [counter_step hfinished]
    cases hcounted : m.awake.attempt.2 with
    | true => exact ⟨Nat.le_refl _, fun _ => rfl⟩
    | false =>
      exact ⟨Nat.le_succ _, fun hgoing =>
        absurd (status_step_of_uncounted hfinished hcounted) hgoing⟩

theorem step_frame (m : Machine) :
    m.step.config = m.config ∧ m.step.monitor.stopRequested = m.monitor.stopRequested := by
  by_cases hfinished : m.status = .finished
  · rw [step_of_finished hfinished]
    exact ⟨rfl, rfl⟩
  · obtain ⟨-, hconfig, hmonitor⟩ := counted_frame m.awake.attempt
    rw [config_attempt, config_awake] at hconfig
    rw [m.awake.attempt_framed.monitor, monitor_awake] at hmonitor
    rw [step_eq hfinished]
    refine ⟨hconfig, ?_⟩
    show (counted m.awake.attempt).monitor.stopRequested = m.monitor.stopRequested
    rw [hmonitor]

theorem config_step (m : Machine) : m.step.config = m.config := m.step_frame.1

theorem stopRequested_step (m : Machine) :
    m.step.monitor.stopRequested = m.monitor.stopRequested := m.step_frame.2

theorem runWithin_succ (m : Machine) (bound : Nat) :
    m.runWithin (bound + 1) =
      if m.step.status ≠ .running then some m.step
      else if m.step.monitor.stopRequested then some m.step.stop
      else m.step.runWithin bound := rfl

/-- The last of several steps may be taken on its own. -/
theorem steps_succ_last (m : Machine) (k : Nat) : m.steps (k + 1) = (m.steps k).step := by
  induction k generalizing m with
  | zero => rw [steps_succ]; rfl
  | succ k ih => rw [steps_succ, ih, steps_succ]

theorem steps_add (m : Machine) (j k : Nat) : m.steps (j + k) = (m.steps j).steps k := by
  induction j generalizing m with
  | zero => rw [Nat.zero_add]; rfl
  | succ j ih => rw [Nat.add_right_comm, steps_succ, ih, steps_succ]

theorem steps_of_finished {m : Machine} {j k : Nat} (h : (m.steps j).status = .finished)
    (hjk : j ≤ k) : m.steps k = m.steps j := by
  obtain ⟨d, rfl⟩ := Nat.exists_eq_add_of_le hjk
  rw [steps_add, steps_of_isHalted ((isHalted_iff _).2 h)]

theorem status_steps (m : Machine) {k : Nat} (hpositive : 0 < k) :
    (m.steps k).status = .running ∨ (m.steps k).status = .finished := by
  obtain ⟨j, rfl⟩ : ∃ j, k = j + 1 := ⟨k - 1, by omega⟩
  rw [steps_succ_last]
  exact (m.steps j).status_step

/-- The counter tells how many steps there were, but for one that finished the machine uncounted and
for those that came later. -/
theorem counter_steps (m : Machine) (k : Nat) :
    (m.steps k).counter ≤ m.counter + k ∧
      ((m.steps k).status ≠ .finished → (m.steps k).counter = m.counter + k) := by
  induction k with
  | zero => exact ⟨Nat.le_refl _, fun _ => rfl⟩
  | succ k ih =>
    obtain ⟨hle, heq⟩ := ih
    obtain ⟨hcounts, hgoes⟩ := (m.steps k).counter_step_le
    rw [steps_succ_last]
    refine ⟨by omega, fun hgoing => ?_⟩
    have hbefore : (m.steps k).status ≠ .finished := by
      intro hfinished
      rw [step_of_finished hfinished] at hgoing
      exact hgoing hfinished
    rw [hgoes hgoing, heq hbefore, Nat.add_assoc]

theorem config_steps (m : Machine) (k : Nat) : (m.steps k).config = m.config := by
  induction k with
  | zero => rfl
  | succ k ih => rw [steps_succ_last, config_step, ih]

end Machine

end WordMachine
