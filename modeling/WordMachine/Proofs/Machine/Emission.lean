import WordMachine.Proofs.Machine.Commit

/-! # Emissions on failing terminals

An emission may fail in the middle, before the first byte, or only when the device is flushed. All
that the machine has from that is one recorded fault. It goes on after an `out` and finishes at a
`halt` as it does on a terminal that never fails.
-/
namespace WordMachine.Machine

open Terminal (Takes)

/-- What an emission changes is for observation only. -/
theorem alike_emit (m : Machine) (data : List UInt8) : (m.emit data).Alike m := by
  have hsteady := m.steady_emit data
  have hframed := m.emit_framed data
  exact ⟨⟨hsteady.core.store, hsteady.core.stack, hsteady.core.input⟩, hsteady.pc,
    m.status_emit data, hframed.counter, hsteady.lastInstruction,
    congrArg (·.maxSteps) hframed.config, congrArg (·.stopRequested) hframed.monitor⟩

theorem terminal_emit_eq (m : Machine) (data : List UInt8) :
    (m.emit data).terminal = (m.terminal.emit data).2 := (m.steady_emit data).terminal

/-- A step that emits has the terminal take the bytes, and enters its failure as any other fault. -/
theorem step_emits {m : Machine} (hconnected : m.terminal.connected = true) {i : Instruction}
    (hnext : m.next? = some i) {effect : Effect} (hanswer : (m.outcome i).1 = .ok effect)
    {data : List UInt8} (hmessage : i.message? (.ok effect) = some data) :
    ∃ count failure, m.terminal.Takes data count failure m.step.terminal ∧
      m.Enters (failure.map Fault.terminal).toList (counts (.ok effect)) m.step := by
  obtain ⟨hgoing, hfetch⟩ := next?_eq_some_iff.1 hnext
  obtain ⟨hperforms, henters⟩ := step_of_ok hgoing hfetch
  obtain ⟨count, htakes⟩ := Terminal.takes_emit hconnected data
  have hterminal := hperforms.terminal
  rw [hanswer] at hterminal henters
  rw [faultsOf] at henters
  rw [hmessage] at hterminal henters
  rw [← show m.step.terminal = (m.terminal.emit data).2 from hterminal] at htakes
  exact ⟨count, _, htakes, henters⟩

/-- **A failing terminal costs a fault and nothing else.** Put a device with any scripts in front of
any machine. An emission delivers a beginning of its bytes, and all of them unless a write fails for
good while some are left. If all are delivered, and only then, the device is flushed, once. One
fault of the terminal is recorded if bytes are left or the flush fails, and none otherwise. Core,
program counter, counter and status are as before. An `out` is counted, and a machine that halts has
finished; after any number of steps all is as if the device were perfect. -/
theorem faulty_terminal (m : Machine) (writes : List WriteOutcome)
    (flushes : List FlushOutcome) :
    let faulty := m.setTerminal ⟨writes, flushes⟩
    (∀ data, ∃ count failure, faulty.terminal.Takes data count failure (faulty.emit data).terminal ∧
      faulty.Recorded (failure.map Fault.terminal).toList (faulty.emit data) ∧
      (faulty.emit data).Alike faulty) ∧
    (∀ i byte, faulty.next? = some i → (faulty.outcome i).1 = .ok (.output byte) →
      ∃ count failure, faulty.terminal.Takes [byte] count failure faulty.step.terminal ∧
        faulty.Enters (failure.map Fault.terminal).toList true faulty.step) ∧
    (∀ i, faulty.next? = some i → (faulty.outcome i).1 = .ok .halt →
      ∃ count failure, faulty.terminal.Takes i.lastLine count failure faulty.step.terminal ∧
        faulty.Enters (failure.map Fault.terminal).toList false faulty.step) ∧
    ∀ n, (faulty.steps n).Alike ((m.setTerminal .perfect).steps n) := by
  intro faulty
  refine ⟨fun data => ?_, fun i byte hnext hanswer => step_emits rfl hnext hanswer rfl,
    fun i hnext hanswer => step_emits rfl hnext hanswer rfl, Alike.steps ?_⟩
  · obtain ⟨count, htakes⟩ := @Terminal.takes_emit faulty.terminal rfl data
    rw [← terminal_emit_eq] at htakes
    exact ⟨count, _, htakes, faulty.recorded_emit data, faulty.alike_emit data⟩
  · exact ⟨⟨rfl, rfl, rfl⟩, rfl, rfl, rfl, rfl, rfl, rfl⟩

/-- A machine that is to write a letter and to halt. -/
def printer : Machine := holding [19, 65, 0] (by decide)

/-- Three bytes are delivered in two parts, with an interruption between them, and then the flush is
interrupted. On another device the letter is refused after an interruption, and the machine goes on
and halts. -/
theorem faulty_terminal_printer :
    let slow := printer.setTerminal ⟨[.atMost 1, .interrupted], [.interrupted, .failure "gone"]⟩
    let full := printer.setTerminal ⟨[.interrupted, .atMost 0], [.done]⟩
    ((slow.emit [72, 105, 33]).terminal.transcript.contents = [72, 105, 33] ∧
      (slow.emit [72, 105, 33]).terminal.device.flushes = [.failure "gone"] ∧
      slow.Recorded [.terminal "operation interrupted"] (slow.emit [72, 105, 33])) ∧
    full.next? = some ⟨0, .out, 65, 0, 0⟩ ∧
    (full.outcome ⟨0, .out, 65, 0, 0⟩).1 = .ok (.output 65) ∧
    WriteOutcome.GivesUpAt [.interrupted, .atMost 0] 1 1 "failed to write whole buffer" ∧
    full.step.terminal.transcript.contents = [] ∧ full.step.terminal.device.flushes = [.done] ∧
    full.Enters [.terminal "failed to write whole buffer"] true full.step ∧
    (full.steps 2).status = .finished := by
  intro slow full
  constructor
  · obtain ⟨hemits, -⟩ := faulty_terminal printer [.atMost 1, .interrupted]
      [.interrupted, .failure "gone"]
    obtain ⟨count, failure, htakes, hrecorded, -⟩ := hemits [72, 105, 33]
    have hall : count = 3 := by
      refine htakes.whole.2 fun k reason hgives => ?_
      have hrefused : [WriteOutcome.atMost 1, .interrupted][k]?.bind WriteOutcome.refusal? =
        some reason := hgives.refused
      rcases k with _ | _ | k <;> cases hrefused
    subst hall
    obtain rfl : failure = some "operation interrupted" := htakes.unflushed rfl
    exact ⟨htakes.contents, htakes.flushes, hrecorded⟩
  · obtain ⟨-, hout, -, hsteps⟩ := faulty_terminal printer [.interrupted, .atMost 0] [.done]
    have hnext : full.next? = some ⟨0, .out, 65, 0, 0⟩ := by decide +kernel
    have hanswer : (full.outcome ⟨0, .out, 65, 0, 0⟩).1 = .ok (.output 65) := by decide +kernel
    have hgives : WriteOutcome.GivesUpAt [.interrupted, .atMost 0] 1 1
        "failed to write whole buffer" := by
      refine ⟨rfl, fun j hj => ?_, by decide⟩
      obtain rfl : j = 0 := by omega
      rfl
    obtain ⟨count, failure, htakes, henters⟩ := hout _ 65 hnext hanswer
    obtain ⟨hcount, rfl⟩ := htakes.refused 1 _ hgives
    obtain rfl : count = 0 := hcount
    have hfinished : ((printer.setTerminal .perfect).steps 2).status = .finished := by
      decide +kernel
    exact ⟨hnext, hanswer, hgives, htakes.contents, htakes.flushes, henters,
      (hsteps 2).status.trans hfinished⟩

end WordMachine.Machine
