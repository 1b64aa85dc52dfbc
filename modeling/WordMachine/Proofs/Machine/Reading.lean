import WordMachine.Proofs.Input
import WordMachine.Proofs.Instruction.Frame
import WordMachine.Proofs.Machine.Commit
import WordMachine.Proofs.Machine.Relabel

/-! # Input is read once, in order, and by `in` only

A source is the sequence of its events. Each `in` that is executed takes the next of them, whatever
becomes of the byte, and nothing else takes any. What a machine does therefore depends on the events
of its source alone: neither on the borders of the chunks nor on the interruptions.
-/
namespace WordMachine

/-! ## Actions and the events of the input -/

namespace Action

variable {α β : Type}

theorem input_write (address word : Word) (core : Core) :
    ((Action.write address word).run core).2.input = core.input := by
  rw [run_write]
  cases Target.of address <;> rfl

/-- On a source with the same events the action does the same, and leaves sources with the same
events again. -/
def SeesEvents (x : Action α) : Prop :=
  ∀ (core : Core) (input : Input), core.input.Agrees input →
    ∃ rest, (x.run core).2.input.Agrees rest ∧
      x.run { core with input } = ((x.run core).1, { (x.run core).2 with input := rest })

namespace SeesEvents

theorem of_untouched {x : Action α} (hkeeps : ∀ core, (x.run core).2.input = core.input)
    (hsame : ∀ (core : Core) (input : Input),
      x.run { core with input } = ((x.run core).1, { (x.run core).2 with input })) :
    SeesEvents x := by
  intro core input hagrees
  exact ⟨input, hkeeps core ▸ hagrees, hsame core input⟩

theorem pure (a : α) : SeesEvents (Pure.pure a) := of_untouched (fun _ => rfl) fun _ _ => rfl

theorem throw (fault : Fault) : SeesEvents (MonadExcept.throw fault : Action α) :=
  of_untouched (fun _ => rfl) fun _ _ => rfl

theorem bind {x : Action α} {f : α → Action β} (hx : SeesEvents x) (hf : ∀ a, SeesEvents (f a)) :
    SeesEvents (x >>= f) := by
  intro core input hagrees
  obtain ⟨rest, hrest, hrun⟩ := hx core input hagrees
  rw [run_bind, run_bind, hrun]
  rcases hfirst : x.run core with ⟨fault | a, after⟩
  · rw [hfirst] at hrest
    exact ⟨rest, hrest, rfl⟩
  · rw [hfirst] at hrest
    exact hf a after rest hrest

theorem of_observes {x : Action α} {answer : Store → Except Fault α} (hx : Observes x answer) :
    SeesEvents x := by
  refine of_untouched (fun core => ?_) fun core input => ?_
  · obtain ⟨reads, -, hrun⟩ := hx.run core
    rw [hrun, Core.input_reportAll]
  · obtain ⟨reads, -, hrun⟩ := hx core.store
    rw [hrun core rfl, hrun { core with input } rfl, Core.reportAll_eq, Core.reportAll_eq]

theorem write (address word : Word) : SeesEvents (Action.write address word) := by
  refine of_untouched (input_write address word) fun core input => ?_
  rw [run_write, run_write]
  cases Target.of address <;> rfl

theorem push (word : Word) : SeesEvents (Action.push word) :=
  of_untouched (fun _ => rfl) fun _ _ => rfl

theorem pop? : SeesEvents Action.pop? := by
  refine of_untouched (fun core => ?_) fun core input => ?_
  · rw [run_pop?]
    cases core.stack.pop? <;> rfl
  · rw [run_pop?, run_pop?]
    cases core.stack.pop? <;> rfl

theorem readByte : SeesEvents Action.readByte := by
  intro core input hagrees
  obtain ⟨hevent, hrest⟩ := hagrees.next
  refine ⟨input.next.2, ?_, ?_⟩
  · rw [run_readByte]
    rcases hnext : core.input.next with ⟨_ | _ | _, rest⟩ <;> rwa [hnext] at hrest
  · rw [run_readByte, run_readByte]
    rcases hother : input.next with ⟨event, rest⟩
    rcases hnext : core.input.next with ⟨other, others⟩
    rw [hother, hnext] at hevent
    obtain rfl : event = other := hevent
    cases event <;> rfl

theorem compositional : Compositional @SeesEvents :=
  ⟨pure, throw, bind, of_observes, write, push, pop?, readByte⟩

end SeesEvents

end Action

namespace Machine

/-! ## Machines with sources that have the same events -/

theorem setInput_eq_dress (m : Machine) (input : Input) :
    m.setInput input = m.dress id fun core => { core with input } := rfl

theorem input_settle (m : Machine) (i : Instruction) (answer : Except Fault Effect) :
    (m.settle i answer).1.core.input = m.core.input := by
  cases answer with
  | ok effect =>
    cases effect with
    | proceed | jump target => rfl
    | output byte | halt => exact (m.steady_emit _).core.input
  | error fault => cases fault <;> rfl

/-- The machines are the same but for their sources, and these have the same events. -/
def FedAlike (first second : Machine) : Prop :=
  ∃ input, first.core.input.Agrees input ∧ second = first.setInput input

namespace FedAlike

/-- Attempts that left machines fed alike and are both counted or both not. -/
def Together (first second : Machine × Bool) : Prop :=
  first.1.FedAlike second.1 ∧ first.2 = second.2

section Agrees

variable {m : Machine} {input : Input} (h : m.core.input.Agrees input)

include h

theorem settle (i : Instruction) (answer : Except Fault Effect) :
    Together (m.settle i answer) ((m.setInput input).settle i answer) := by
  rw [setInput_eq_dress, settle_dress fun _ _ => rfl]
  refine ⟨⟨input, ?_, rfl⟩, rfl⟩
  rwa [input_settle]

theorem executed (i : Instruction) : Together (m.executed i) ((m.setInput input).executed i) := by
  obtain ⟨rest, hrest, hrun⟩ :=
    Action.SeesEvents.compositional.execute i (m.fetched i).pc (m.fetched i).core input h
  have hcore : ((m.setInput input).fetched i).core = { (m.fetched i).core with input } := rfl
  have hpc : ((m.setInput input).fetched i).pc = (m.fetched i).pc := rfl
  unfold Machine.executed
  simp only [hcore, hpc, hrun]
  exact settle (m := { m.fetched i with
    core := ((i.execute (m.fetched i).pc).run (m.fetched i).core).2
    lastInstruction := some i }) hrest i _

theorem attempt : Together m.attempt (m.setInput input).attempt := by
  have hdecode := Action.SeesEvents.of_observes (Instruction.observes_decode m.pc)
  obtain ⟨rest, hrest, hrun⟩ := hdecode m.core input h
  have hcore : (m.setInput input).core = { m.core with input } := rfl
  have hpc : (m.setInput input).pc = m.pc := rfl
  unfold Machine.attempt
  rw [hcore, hpc, hrun]
  rcases hfirst : (Instruction.decode Action.read m.pc).run m.core with ⟨fault | i, core⟩
  · rw [hfirst] at hrest
    exact ⟨⟨rest, hrest, rfl⟩, rfl⟩
  · rw [hfirst] at hrest
    exact executed (m := { m with core }) hrest i

end Agrees

theorem counted {attempt other : Machine × Bool} (h : Together attempt other) :
    (counted attempt).FedAlike (counted other) := by
  obtain ⟨after, counts⟩ := attempt
  obtain ⟨otherAfter, otherCounts⟩ := other
  obtain ⟨⟨input, hagrees, rfl⟩, rfl⟩ :
    after.FedAlike otherAfter ∧ counts = otherCounts := h
  cases counts with
  | true =>
    have htick : (after.setInput input).tick = after.tick.setInput input := by
      rw [setInput_eq_dress, tick_dress (fun _ _ => rfl) Config.unseen_id.maxSteps, setInput_eq_dress]
    refine ⟨input, ?_, htick⟩
    exact (steady_tick after).core.input ▸ hagrees
  | false => exact ⟨input, hagrees, rfl⟩

variable {first second : Machine}

theorem step (h : first.FedAlike second) : first.step.FedAlike second.step := by
  obtain ⟨input, hagrees, rfl⟩ := h
  by_cases hfinished : first.status = .finished
  · have hsecond : (first.setInput input).status = .finished := hfinished
    rw [step_of_finished hfinished, step_of_finished hsecond]
    exact ⟨input, hagrees, rfl⟩
  · have hsecond : (first.setInput input).status ≠ .finished := hfinished
    have hawake : first.awake.core.input.Agrees input := by rwa [input_awake]
    obtain ⟨rest, hrest, hsame⟩ := counted (attempt hawake)
    have hwoken : (first.setInput input).awake = first.awake.setInput input := by
      rw [setInput_eq_dress, awake_dress fun _ _ => rfl, setInput_eq_dress]
    rw [step_eq hfinished, step_eq hsecond, hwoken, hsame]
    exact ⟨rest, hrest, rfl⟩

theorem poke (h : first.FedAlike second) (address word : Word) :
    Option.Rel FedAlike (first.call? (.poke address word)) (second.call? (.poke address word)) := by
  obtain ⟨input, hagrees, rfl⟩ := h
  obtain ⟨rest, hrest, hrun⟩ := Action.SeesEvents.write address word first.core input hagrees
  have hcore : (first.setInput input).core = { first.core with input } := rfl
  simp only [call?, Machine.poke, hcore, hrun]
  rcases hwrite : (Action.write address word).run first.core with ⟨fault | done, core⟩
  · exact .some ⟨input, hagrees, rfl⟩
  · rw [hwrite] at hrest
    exact .some ⟨rest, hrest, rfl⟩

/-- Whatever is asked of machines that are fed alike, they stay so. -/
theorem lockstep : Lockstep FedAlike where
  status := by
    rintro first _ ⟨input, -, rfl⟩
    rfl
  stopRequested := by
    rintro first _ ⟨input, -, rfl⟩
    rfl
  step h := h.step
  stop := by
    rintro first _ ⟨input, hagrees, rfl⟩
    exact ⟨input, hagrees, rfl⟩
  conclude := by
    rintro first _ ⟨input, hagrees, rfl⟩
    exact ⟨input, hagrees, rfl⟩
  requestStop := by
    rintro first _ ⟨input, hagrees, rfl⟩
    exact ⟨input, hagrees, rfl⟩
  poke address word h := h.poke address word
  setInput := by
    rintro first _ source ⟨input, -, rfl⟩
    exact ⟨source, fun _ => rfl, rfl⟩
  setTerminal := by
    rintro first _ device ⟨input, hagrees, rfl⟩
    exact ⟨input, hagrees, rfl⟩

end FedAlike

/-! ## What is read -/

/-- Whether the next step executes `in`. -/
def reads (m : Machine) : Bool := m.next?.any fun i => i.opcode = .input

/-- How many of so many steps execute `in`. -/
def readsWithin (m : Machine) (n : Nat) : Nat := (List.range n).countP fun j => (m.steps j).reads

theorem reads_eq_false_iff (m : Machine) :
    m.reads = false ↔ ∀ i, m.next? = some i → i.opcode ≠ .input := by
  unfold reads
  cases m.next? <;> simp

theorem reads_eq_true_iff (m : Machine) :
    m.reads = true ↔ ∃ i, m.next? = some i ∧ i.opcode = .input := by
  unfold reads
  cases m.next? <;> simp

/-- A step that does not execute `in` leaves the source as it is. -/
theorem input_step {m : Machine} (h : m.reads = false) : m.step.core.input = m.core.input := by
  by_cases hfinished : m.status = .finished
  · rw [step_of_finished hfinished]
  · cases hfetch : m.fetch with
    | error fault => exact (step_of_error hfinished hfetch).1.core.input
    | ok i =>
      have hopcode := m.reads_eq_false_iff.1 h i (next?_eq_some_iff.2 ⟨hfinished, hfetch⟩)
      rw [(step_of_ok hfinished hfetch).1.core.input]
      exact Instruction.input_execute hopcode _ _

/-- The place of a fault of the `in` at an address. -/
def readingPlace (address : Word) : String := "in at " ++ Hex.render address

/-- What becomes of the event that an `in` with this operand reads. -/
def Receives (m : Machine) (operand : Word) (after : Machine) : InputEvent → Prop
  | .byte byte =>
    if operand.toNat < 0x8008 then
      ∃ target, Target.of operand = .ok target ∧
        after.core.store = m.core.store.set target (.ofNat byte.toNat) ∧ m.Enters [] true after
    else
      after.core.store = m.core.store ∧
        m.Enters [.located (readingPlace m.pc) (.invalidAddress operand)] true after
  | .failure reason =>
    after.core.store = m.core.store ∧
      m.Enters [.located (readingPlace m.pc) (.input reason)] true after
  | .endOfInput => after.core.store = m.core.store ∧ m.Enters [.inputExhausted] false after

/-- The machine afterwards has executed the `in`, which has read this event. -/
structure Reads (m : Machine) (i : Instruction) (event : InputEvent) (after : Machine) : Prop where
  first : m.core.input.event 0 = event
  rest : ∀ k, after.core.input.event k = m.core.input.event (k + 1)
  received : m.Receives i.a after event
  stack : after.core.stack = m.core.stack
  terminal : after.terminal = m.terminal
  pc : after.pc.toNat = (m.pc.toNat + 2) % 0x8000
  lastInstruction : after.lastInstruction = some i

section Reads

variable {m : Machine} {i : Instruction} (hnext : m.next? = some i) (hopcode : i.opcode = .input)

include hnext hopcode

theorem reads_of_outcome {event : InputEvent} {rest : Input} {answer : Except Fault Effect}
    {core : Core} (hinput : m.core.input.next = (event, rest))
    (houtcome : m.outcome i = (answer, core))
    (hanswer : answer = .ok .proceed ∨ ∃ fault, answer = .error fault) (hrest : core.input = rest)
    (hstack : core.stack = m.core.stack)
    (hreceived : m.step.core.store = core.store →
      m.Enters (m.faultsOf i answer) (counts answer) m.step → m.Receives i.a m.step event) :
    m.Reads i event m.step := by
  obtain ⟨hgoing, hfetch⟩ := next?_eq_some_iff.1 hnext
  obtain ⟨hperforms, henters⟩ := step_of_ok hgoing hfetch
  obtain ⟨hcore, hlast, hpc, hterminal⟩ := hperforms
  rw [houtcome] at hcore hpc hterminal henters
  have hlength : i.length = 2 := by rw [Instruction.length, hopcode]; rfl
  refine ⟨?_, fun k => ?_, hreceived hcore.store henters, hcore.stack.trans hstack, ?_, ?_, hlast⟩
  · rw [Input.event_zero, hinput]
  · rw [hcore.input, hrest, ← Input.event_next, hinput]
  · rcases hanswer with rfl | ⟨fault, rfl⟩ <;> exact hterminal
  · have hbehind : m.step.pc = m.behind i := by
      rcases hanswer with rfl | ⟨fault, rfl⟩ <;> exact hpc
    rw [hbehind, toNat_behind, hlength]

theorem executingPlace_of_input : executingPlace i = readingPlace m.pc := by
  rw [executingPlace, hopcode, Instruction.address_of_decode (next?_eq_some_iff.1 hnext).2]
  rfl

theorem reads_byte {byte : UInt8} {rest : Input} (hinput : m.core.input.next = (.byte byte, rest)) :
    m.Reads i (.byte byte) m.step := by
  have hrun : m.outcome i = _ := congrArg (·.run m.core) (Instruction.execute_input hopcode _)
  rw [Deed.run_input, hinput] at hrun
  have hassign : m.outcome i =
      (Instruction.assign i.a byte.toUInt16).run { m.core with input := rest } := hrun
  rw [Instruction.run_assign] at hassign
  rcases Target.of_cases i.a with ⟨hvalid, target, htarget⟩ | ⟨hinvalid, htarget⟩
  · rw [htarget, toUInt16_mod_modulus] at hassign
    refine reads_of_outcome hnext hopcode hinput hassign (.inl rfl) rfl rfl
      fun hstore henters => ?_
    rw [Receives, if_pos hvalid]
    exact ⟨target, htarget, hstore, henters⟩
  · rw [htarget] at hassign
    refine reads_of_outcome hnext hopcode hinput hassign (.inr ⟨_, rfl⟩) rfl rfl
      fun hstore henters => ?_
    rw [Receives, if_neg (by omega), ← executingPlace_of_input hnext hopcode]
    exact ⟨hstore, henters⟩

/-- A step that executes `in` takes the next event. -/
theorem reads_step : m.Reads i (m.core.input.event 0) m.step := by
  have hrun : m.outcome i = _ := congrArg (·.run m.core) (Instruction.execute_input hopcode _)
  rw [Deed.run_input] at hrun
  rcases hinput : m.core.input.next with ⟨event, rest⟩
  rw [Input.event_zero, hinput]
  rw [hinput] at hrun
  cases event with
  | byte byte => exact reads_byte hnext hopcode hinput
  | failure reason =>
    refine reads_of_outcome hnext hopcode hinput hrun (.inr ⟨_, rfl⟩) rfl rfl
      fun hstore henters => ?_
    rw [Receives, ← executingPlace_of_input hnext hopcode]
    exact ⟨hstore, henters⟩
  | endOfInput =>
    exact reads_of_outcome hnext hopcode hinput hrun (.inr ⟨_, rfl⟩) rfl rfl fun hstore henters =>
      ⟨hstore, henters⟩

end Reads

/-! ## Steps and calls -/

theorem event_step (m : Machine) (k : Nat) :
    m.step.core.input.event k = m.core.input.event ((if m.reads then 1 else 0) + k) := by
  cases hreads : m.reads with
  | false => rw [input_step hreads, if_neg Bool.false_ne_true, Nat.zero_add]
  | true =>
    obtain ⟨i, hnext, hopcode⟩ := m.reads_eq_true_iff.1 hreads
    rw [(reads_step hnext hopcode).rest, if_pos rfl, Nat.add_comm]

/-- Steps have taken as many events as there were `in`s among them. -/
theorem event_steps (m : Machine) (n k : Nat) :
    (m.steps n).core.input.event k = m.core.input.event (m.readsWithin n + k) := by
  induction n generalizing k with
  | zero =>
    show m.core.input.event k = m.core.input.event (0 + k)
    rw [Nat.zero_add]
  | succ n ih =>
    have hcount : m.readsWithin (n + 1) = m.readsWithin n + if (m.steps n).reads then 1 else 0 := by
      rw [readsWithin, List.range_succ, List.countP_append, List.countP_singleton, readsWithin]
    rw [steps_succ_last, event_step, ih, hcount, Nat.add_assoc]

/-- How many steps a call takes. -/
def Takes (m : Machine) : Call → Nat → Prop
  | .step, k => k = 1
  | .run bound, k =>
    if m.status = .new then
      k ≤ bound ∧ if m.monitor.stopRequested then k = 1 else m.FinishesAt k
    else k = 0
  | _, k => k = 0

theorem input_of_run {m after : Machine} {bound : Nat}
    (hcall : m.call? (.run bound) = some after) :
    ∃ k, m.Takes (.run bound) k ∧ after.core.input = (m.steps k).core.input := by
  simp only [Takes]
  by_cases hnew : m.status = .new
  · rw [call?_run, if_pos hnew] at hcall
    have hrun : m.run bound = some (.ok after) := by
      obtain ⟨last, hlast, rfl⟩ := Option.map_eq_some_iff.1 hcall
      rw [run, if_pos hnew, hlast]
      rfl
    simp only [if_pos hnew]
    obtain ⟨k, hbound, hk, log, rfl | rfl⟩ := run_cases hrun
    · exact ⟨k, ⟨hbound, hk⟩, rfl⟩
    · exact ⟨k, ⟨hbound, hk⟩, rfl⟩
  · rw [call?_run, if_neg hnew] at hcall
    obtain rfl := Option.some.inj hcall
    simp only [if_neg hnew]
    exact ⟨0, rfl, rfl⟩

theorem input_of_poke {m after : Machine} {address word : Word}
    (hcall : m.call? (.poke address word) = some after) : after.core.input = m.core.input := by
  rw [call?] at hcall
  cases hpoke : m.poke address word with
  | ok poked =>
    rw [hpoke] at hcall
    obtain rfl := Option.some.inj hcall
    rw [poke_eq hpoke]
    exact Action.input_write address word m.core
  | error fault =>
    rw [hpoke] at hcall
    obtain rfl := Option.some.inj hcall
    rfl

/-- A call leaves the source as the steps leave it that it takes, unless it exchanges the source. -/
theorem input_of_call {m after : Machine} {call : Call} (hsource : ∀ input, call ≠ .setInput input)
    (hcall : m.call? call = some after) :
    ∃ k, m.Takes call k ∧ after.core.input = (m.steps k).core.input := by
  cases call with
  | step =>
    obtain rfl := Option.some.inj hcall
    exact ⟨1, rfl, by rw [steps_succ]; rfl⟩
  | run bound => exact input_of_run hcall
  | requestStop | setTerminal device =>
    obtain rfl := Option.some.inj hcall
    exact ⟨0, rfl, rfl⟩
  | poke address word => exact ⟨0, rfl, input_of_poke hcall⟩
  | setInput input => exact absurd rfl (hsource input)

/-- **Input is read once, in order, and by `in` only.** Each `in` takes the next event of the source
and nothing else takes any. Its byte is stored if the operand names a place, and is gone if it does
not; a failure and the end of input are recorded, and the end of input finishes the machine. Two
machines whose sources have the same events are the same at every step but for these sources. -/
theorem input_read_once (m : Machine) :
    (∀ n k, (m.steps n).core.input.event k = m.core.input.event (m.readsWithin n + k)) ∧
    (∀ n i, (m.steps n).next? = some i → i.opcode = .input →
      (m.steps n).Reads i (m.core.input.event (m.readsWithin n)) (m.steps (n + 1))) ∧
    (∀ n, (∀ i, (m.steps n).next? = some i → i.opcode ≠ .input) →
      (m.steps (n + 1)).core.input = (m.steps n).core.input) ∧
    (∀ call after, (∀ input, call ≠ .setInput input) → m.call? call = some after →
      ∃ k, m.Takes call k ∧ after.core.input = (m.steps k).core.input) ∧
    ∀ input, m.core.input.Agrees input →
      (∀ n, (m.steps n).FedAlike ((m.setInput input).steps n)) ∧
      ∀ calls, Option.Rel FedAlike (m.calls? calls) ((m.setInput input).calls? calls) := by
  refine ⟨m.event_steps, ?_, ?_, ?_, ?_⟩
  · intro n i hnext hopcode
    have hreads := reads_step hnext hopcode
    rw [event_steps, Nat.add_zero] at hreads
    rwa [steps_succ_last]
  · intro n hother
    rw [steps_succ_last]
    exact input_step ((m.steps n).reads_eq_false_iff.2 hother)
  · intro call after hsource hcall
    exact input_of_call hsource hcall
  · intro input hagrees
    have hfed : m.FedAlike (m.setInput input) := ⟨input, hagrees, rfl⟩
    exact ⟨fun n => FedAlike.lockstep.steps hfed n, fun calls => FedAlike.lockstep.calls hfed calls⟩

/-- A machine that is to read four times, the second time to where nothing is. -/
def reader : Machine :=
  (holding [20, 0x8000, 20, 0x8008, 20, 0x8001, 20, 0x8001] (by decide)).setInput
    ⟨[.interrupted, .bytes [65, 66], .failure "cut"]⟩

/-- It reads a byte, a byte that is gone, a failure and the end. The same goes for a source that
delivers the two bytes by themselves and is interrupted elsewhere. -/
theorem input_read_once_reader :
    let other : Input := ⟨[.bytes [65], .bytes [], .interrupted, .repeated [66] 1, .failure "cut"]⟩
    let events := [.byte 65, .byte 66, .failure "cut", .endOfInput]
    reader.core.input.Agrees other ∧
    (∀ j : Fin 4, ∃ i, (reader.steps j).next? = some i ∧ i.opcode = .input ∧
      (reader.steps j).Reads i events[j] (reader.steps (j + 1))) ∧
    (reader.steps 4).FedAlike ((reader.setInput other).steps 4) := by
  intro other events
  have hagrees : reader.core.input.Agrees other := by
    have hevents : other.events = reader.core.input.events := by decide +kernel
    intro k
    rw [Input.event, Input.event, hevents]
  obtain ⟨-, hreads, -, -, hfed⟩ := input_read_once reader
  refine ⟨hagrees, fun j => ?_, (hfed other hagrees).1 4⟩
  have hnext : ∀ j : Fin 4, (reader.steps j).next?.map (·.opcode) = some .input := by decide +kernel
  have hevent : ∀ j : Fin 4, reader.core.input.event (reader.readsWithin j) = events[j] := by
    decide +kernel
  obtain ⟨i, hi, hopcode⟩ := Option.map_eq_some_iff.1 (hnext j)
  refine ⟨i, hi, hopcode, ?_⟩
  rw [← hevent j]
  exact hreads j i hi hopcode

end Machine

end WordMachine
