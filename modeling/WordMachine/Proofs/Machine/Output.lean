import WordMachine.Proofs.Machine.Lifecycle
import WordMachine.Proofs.Machine.Observation
import WordMachine.Proofs.Machine.Run
import WordMachine.Proofs.Terminal

/-! # What a machine puts out

On a terminal that takes everything, the bytes of a machine are those of its `out` instructions in
the order of execution, and one line more if it halts. An observer may take bytes away at any time:
what was taken away and what is still there make up the same stream.
-/
namespace WordMachine

/-! ## Terminals that take everything -/

/-- A terminal whose device is the transcript itself. -/
def Terminal.shared (t : Transcript) : Terminal := ⟨true, .perfect, t⟩

theorem Terminal.emit_shared (t : Transcript) (data : List UInt8) :
    (shared t).emit data = (none, shared (t.append data)) := by
  cases data with
  | nil => rfl
  | cons byte rest => rfl

/-! ## What one instruction puts out -/

namespace Instruction

instance (i : Instruction) (stack : Stack) : Decidable (i.Halts stack) :=
  inferInstanceAs (Decidable (i.opcode = .halt ∨ i.opcode = .ret ∧ stack.toList = []))

/-- The line for the instruction that halts: the address behind it, and its text. -/
def lastLine (i : Instruction) : List UInt8 :=
  ("TERMINATING: mem ind = " ++ toString ((i.address.toNat + 1) % 32768) ++ ", "
    ++ (if i.opcode = .halt then "halt" else "ret") ++ "\n").toUTF8.toList

theorem Halts.length_eq {i : Instruction} {stack : Stack} (h : i.Halts stack) : i.length = 1 := by
  rcases h with hopcode | ⟨hopcode, -⟩ <;> simp [length, hopcode, Opcode.arity]

theorem Halts.text_eq {i : Instruction} {stack : Stack} (h : i.Halts stack) :
    i.text = if i.opcode = .halt then "halt" else "ret" := by
  rcases h with hopcode | ⟨hopcode, -⟩ <;>
    simp [text, operands, hopcode, Opcode.arity, Opcode.mnemonic, String.join]

theorem Halts.not_runsDry {i : Instruction} {stack : Stack} (h : i.Halts stack) (input : Input) :
    ¬ i.RunsDry input := by
  rcases h with hopcode | ⟨hopcode, -⟩ <;> simp [RunsDry, hopcode]

theorem Halts.sent_eq {i : Instruction} {stack : Stack} (h : i.Halts stack) (store : Store) :
    i.sent store = [] := by
  rcases h with hopcode | ⟨hopcode, -⟩ <;> exact sent_of_ne_out (by simp [hopcode]) store

end Instruction

namespace Machine

/-- The instruction that the next step executes. There is none once the machine has finished, or
where no instruction can be decoded. -/
def next? (m : Machine) : Option Instruction :=
  if m.status = .finished then none else m.fetch.toOption

/-- What the next step puts out if it does not halt. -/
def sent (m : Machine) : List UInt8 :=
  match m.next? with
  | some i => i.sent m.core.store
  | none => []

/-- The instruction at which the next step halts. -/
def halting? (m : Machine) : Option Instruction := m.next?.filter fun i => i.Halts m.core.stack

/-- What the next step puts out. -/
def written (m : Machine) : List UInt8 := m.sent ++ m.halting?.elim [] Instruction.lastLine

theorem next?_of_going {m : Machine} (h : m.status ≠ .finished) : m.next? = m.fetch.toOption :=
  if_neg h

theorem written_of_error {m : Machine} (hgoing : m.status ≠ .finished) {fault : Fault}
    (hfetch : m.fetch = .error fault) : m.written = [] := by
  have hnext : m.next? = none := by rw [next?_of_going hgoing, hfetch]; rfl
  simp [written, sent, halting?, hnext]

theorem written_of_ok {m : Machine} (hgoing : m.status ≠ .finished) {i : Instruction}
    (hfetch : m.fetch = .ok i) :
    m.written = i.sent m.core.store ++ if i.Halts m.core.stack then i.lastLine else [] := by
  have hnext : m.next? = some i := by rw [next?_of_going hgoing, hfetch]; rfl
  by_cases hhalts : i.Halts m.core.stack <;> simp [written, sent, halting?, hnext, hhalts, Option.filter]

theorem written_of_finished {m : Machine} (h : m.status = .finished) : m.written = [] := by
  simp [written, sent, halting?, next?, h]

/-- What is put out does not depend on what is for observation. -/
theorem Alike.written {first second : Machine} (h : first.Alike second) :
    first.written = second.written := by
  simp only [Machine.written, sent, halting?, next?, fetch, h.status, h.pc, h.core.store,
    h.core.stack]

theorem written_awake {m : Machine} (h : m.status ≠ .finished) : m.awake.written = m.written := by
  have hawake : m.awake.status ≠ .finished := by rw [status_awake h]; decide
  simp only [written, sent, halting?, next?_of_going h, next?_of_going hawake, fetch_awake,
    store_awake, stack_awake]

/-! ## What one step puts out -/

section Shared

variable {m : Machine} {t : Transcript}

theorem terminal_emit (h : m.terminal = .shared t) (data : List UInt8) :
    (m.emit data).terminal = .shared (t.append data) := by
  unfold emit
  rw [h, Terminal.emit_shared]

theorem farewell_of_halts {i : Instruction} {stack : Stack} (hhalts : i.Halts stack)
    (hpc : m.pc = Instruction.addressAfter i.address i.length)
    (hlast : m.lastInstruction = some i) : m.farewell.toUTF8.toList = i.lastLine := by
  have hnext : m.pc.toNat = (i.address.toNat + 1) % 32768 := by
    rw [hpc, hhalts.length_eq]
    exact toNat_wrap_add i.address 1
  unfold farewell Instruction.lastLine
  rw [hlast, hnext, ← hhalts.text_eq]
  simp [String.append_assoc]

theorem terminal_settle_of_regular {answer : Except Fault Effect}
    (h : Regular Effect.Silent answer) (m : Machine) (i : Instruction) :
    (m.settle i answer).1.terminal = m.terminal := by
  cases answer with
  | ok effect =>
    cases effect with
    | proceed | jump target => rfl
    | output byte | halt => exact h.elim
  | error fault => cases fault <;> rfl

theorem terminal_settle {i : Instruction} {core : Core} {answer : Except Fault Effect}
    (hanswers : i.Answers core answer) (h : m.terminal = .shared t)
    (hpc : m.pc = Instruction.addressAfter i.address i.length)
    (hlast : m.lastInstruction = some i) :
    (m.settle i answer).1.terminal = .shared
      (t.append (i.sent core.store ++ if i.Halts core.stack then i.lastLine else [])) := by
  cases hanswers with
  | halt hhalts =>
    rw [if_pos hhalts, hhalts.sent_eq, List.nil_append, ← farewell_of_halts hhalts hpc hlast]
    exact terminal_emit h _
  | exhausted hdry =>
    have hsent : i.sent core.store = [] := Instruction.sent_of_ne_out (by simp [hdry.1]) _
    rw [if_neg fun hhalts => hhalts.not_runsDry _ hdry, hsent, List.nil_append, t.append_nil]
    exact h
  | output hopcode hsent =>
    rw [if_neg (by simp [Instruction.Halts, hopcode]), hsent, List.append_nil]
    exact terminal_emit h _
  | regular hquiet hregular =>
    rw [if_neg hquiet.halts, hquiet.sent, List.nil_append, t.append_nil,
      terminal_settle_of_regular hregular]
    exact h

theorem terminal_attempt (hgoing : m.status ≠ .finished) (h : m.terminal = .shared t) :
    m.attempt.1.terminal = .shared (t.append m.written) := by
  rcases m.attempt_cases with
    ⟨fault, core, hfetch, hattempt⟩ | ⟨i, core, answer, hfetch, haddress, hanswers, hattempt⟩
  · rw [hattempt, written_of_error hgoing hfetch, t.append_nil]
    exact h
  · rw [hattempt, written_of_ok hgoing hfetch]
    exact terminal_settle hanswers h (by rw [haddress]) rfl

theorem terminal_tick (m : Machine) : m.tick.terminal = m.terminal := by
  cases hmax : m.config.maxSteps with
  | none => rw [tick_of_unlimited hmax]
  | some limit =>
    rw [tick_of_limit hmax]
    split <;> rfl

theorem terminal_counted (p : Machine × Bool) : (counted p).terminal = p.1.terminal := by
  rcases p with ⟨m, _ | _⟩
  · rfl
  · exact m.terminal_tick

theorem terminal_step (h : m.terminal = .shared t) :
    m.step.terminal = .shared (t.append m.written) := by
  by_cases hfinished : m.status = .finished
  · rw [step_of_finished hfinished, written_of_finished hfinished, t.append_nil, h]
  · have hawake : m.awake.status ≠ .finished := by rw [status_awake hfinished]; decide
    have hterminal : m.awake.terminal = .shared t := by rw [terminal_awake, h]
    rw [step_eq hfinished, ← written_awake hfinished]
    show (counted m.awake.attempt).terminal = _
    rw [terminal_counted, terminal_attempt hawake hterminal]

end Shared

/-! ## What steps put out -/

/-- What so many steps put out. -/
def writtenWithin (m : Machine) (n : Nat) : List UInt8 :=
  (List.range n).flatMap fun j => (m.steps j).written

/-- The bytes that the `out` instructions among so many steps put out, in the order of execution. -/
def sentWithin (m : Machine) (n : Nat) : List UInt8 :=
  (List.range n).flatMap fun j => (m.steps j).sent

/-- The instruction at which the machine halts within so many steps. -/
def haltedWithin? (m : Machine) (n : Nat) : Option Instruction :=
  (List.range n).findSome? fun j => (m.steps j).halting?

/-- The bytes of the `out` instructions among so many steps, and the line for the instruction at
which the machine halts, if it does. -/
def stream (m : Machine) (n : Nat) : List UInt8 :=
  m.sentWithin n ++ (m.haltedWithin? n).elim [] Instruction.lastLine

theorem halting?_eq_some_iff {m : Machine} {i : Instruction} :
    m.halting? = some i ↔ m.next? = some i ∧ i.Halts m.core.stack := by
  simp [halting?, Option.filter_eq_some_iff]

theorem next?_eq_some_iff {m : Machine} {i : Instruction} :
    m.next? = some i ↔ m.status ≠ .finished ∧ m.fetch = .ok i := by
  unfold next?
  cases m.fetch <;> simp [Except.toOption]

/-- What halts, finishes the machine. -/
theorem status_step_of_halting {m : Machine} {i : Instruction} (h : m.halting? = some i) :
    m.step.status = .finished := by
  obtain ⟨hnext, hhalts⟩ := halting?_eq_some_iff.1 h
  obtain ⟨hgoing, hfetch⟩ := next?_eq_some_iff.1 hnext
  exact (status_step_iff hgoing).2 (.halts hfetch hhalts)

section Ending

variable {m : Machine} {i : Instruction} {j n : Nat}

theorem finishesAt_of_halting (h : (m.steps j).halting? = some i) : m.FinishesAt (j + 1) := by
  have hgoing := (next?_eq_some_iff.1 (halting?_eq_some_iff.1 h).1).1
  refine finishesAt_succ hgoing ?_
  rw [steps_succ_last]
  exact status_step_of_halting h

theorem finishesAt_of_runsDry (hnext : (m.steps j).next? = some i)
    (hdry : i.RunsDry (m.steps j).core.input) : m.FinishesAt (j + 1) := by
  obtain ⟨hgoing, hfetch⟩ := next?_eq_some_iff.1 hnext
  refine finishesAt_succ hgoing ?_
  rw [steps_succ_last]
  exact (status_step_iff hgoing).2 (.runsDry hfetch hdry)

theorem haltedWithin?_eq_some_iff :
    m.haltedWithin? n = some i ↔ ∃ j < n, (m.steps j).halting? = some i := by
  constructor
  · intro h
    obtain ⟨j, hj, hhalting⟩ := List.exists_of_findSome?_eq_some h
    exact ⟨j, List.mem_range.1 hj, hhalting⟩
  · rintro ⟨j, hj, hhalting⟩
    cases h : m.haltedWithin? n with
    | none =>
      rw [List.findSome?_eq_none_iff.1 h j (List.mem_range.2 hj)] at hhalting
      cases hhalting
    | some found =>
      obtain ⟨k, -, hfound⟩ := List.exists_of_findSome?_eq_some h
      obtain rfl := Nat.succ.inj
        ((finishesAt_of_halting hhalting).unique (finishesAt_of_halting hfound))
      exact hfound.symm.trans hhalting

/-- A machine that a step finishes without halting has not halted and will not. -/
theorem FinishesAt.haltedWithin?_eq_none (h : m.FinishesAt (j + 1))
    (hnone : ∀ i, (m.steps j).halting? ≠ some i) (n : Nat) : m.haltedWithin? n = none := by
  rw [Option.eq_none_iff_forall_ne_some]
  intro i hhalted
  obtain ⟨k, -, hhalting⟩ := haltedWithin?_eq_some_iff.1 hhalted
  obtain rfl := Nat.succ.inj (h.unique (finishesAt_of_halting hhalting))
  exact hnone i hhalting

/-- A machine that has not finished has not halted. -/
theorem haltedWithin?_of_going (h : (m.steps n).status ≠ .finished) : m.haltedWithin? n = none := by
  rw [Option.eq_none_iff_forall_ne_some]
  intro i hhalted
  obtain ⟨j, hj, hhalting⟩ := haltedWithin?_eq_some_iff.1 hhalted
  have hlt := (finishesAt_of_halting hhalting).lt_of_going h
  omega

theorem haltedWithin?_of_runsDry (hnext : (m.steps j).next? = some i)
    (hdry : i.RunsDry (m.steps j).core.input) (n : Nat) : m.haltedWithin? n = none := by
  refine (finishesAt_of_runsDry hnext hdry).haltedWithin?_eq_none ?_ n
  intro other hhalting
  obtain ⟨hother, hhalts⟩ := halting?_eq_some_iff.1 hhalting
  obtain rfl := Option.some.inj (hnext.symm.trans hother)
  exact hhalts.not_runsDry _ hdry

/-- A step that counts up to the limit does not halt, and no other step does. -/
theorem haltedWithin?_of_limit {limit : UInt64} (hlimit : m.config.maxSteps = some limit)
    (hraised : (m.steps j).counter < (m.steps (j + 1)).counter)
    (hreached : limit.toNat ≤ (m.steps (j + 1)).counter) (n : Nat) : m.haltedWithin? n = none := by
  rw [steps_succ_last] at hraised hreached
  have hgoing : (m.steps j).status ≠ .finished := by
    intro hfinished
    rw [step_of_finished hfinished] at hraised
    omega
  have hfinishes : m.FinishesAt (j + 1) := by
    refine finishesAt_succ hgoing ?_
    rw [steps_succ_last]
    refine (status_step_iff hgoing).2 (.reachesLimit ?_ hraised hreached)
    rw [config_steps, hlimit]
  refine hfinishes.haltedWithin?_eq_none ?_ n
  intro i hhalting
  obtain ⟨hnext, hhalts⟩ := halting?_eq_some_iff.1 hhalting
  have huncounted : (m.steps j).awake.attempt.2 = false :=
    (m.steps j).uncounted_awake_iff.2 ⟨i, (next?_eq_some_iff.1 hnext).2, .inl hhalts⟩
  have hcounter := counter_step hgoing
  rw [huncounted, if_neg Bool.false_ne_true] at hcounter
  omega

/-- Steps put out the bytes of `out` instructions, and after them the line of the machine that
halts. -/
theorem writtenWithin_eq_stream (m : Machine) (n : Nat) : m.writtenWithin n = m.stream n := by
  induction n with
  | zero => rfl
  | succ n ih =>
    have hhalted : m.haltedWithin? (n + 1) = (m.haltedWithin? n).or (m.steps n).halting? := by
      simp [haltedWithin?, List.range_succ]
    have hwritten : m.writtenWithin (n + 1) = m.writtenWithin n ++ (m.steps n).written := by
      simp [writtenWithin, List.range_succ]
    have hsent : m.sentWithin (n + 1) = m.sentWithin n ++ (m.steps n).sent := by
      simp [sentWithin, List.range_succ]
    rw [hwritten, ih, stream, stream, hsent, hhalted]
    cases hbefore : m.haltedWithin? n with
    | none => simp [written]
    | some i =>
      -- the machine has halted already, and this step puts nothing out
      have hfinished : (m.steps n).status = .finished := by
        by_contra hgoing
        rw [haltedWithin?_of_going hgoing] at hbefore
        cases hbefore
      have hnothing : (m.steps n).sent = [] := by simp [sent, next?, hfinished]
      rw [written_of_finished hfinished, hnothing]
      simp

end Ending

theorem writtenWithin_succ_first (m : Machine) (n : Nat) :
    m.writtenWithin (n + 1) = m.written ++ m.step.writtenWithin n := by
  unfold writtenWithin
  rw [List.range_succ_eq_map, List.flatMap_cons, List.flatMap_map]
  simp only [steps_succ]
  rfl

theorem writtenWithin_of_finished {m : Machine} (h : m.status = .finished) (n : Nat) :
    m.writtenWithin n = [] := by
  have hnothing : ∀ j, (m.steps j).written = [] := by
    intro j
    rw [steps_of_isHalted (m.isHalted_iff.2 h), written_of_finished h]
  simp [writtenWithin, hnothing]

theorem Alike.writtenWithin {first second : Machine} (h : first.Alike second) (n : Nat) :
    first.writtenWithin n = second.writtenWithin n := by
  simp only [Machine.writtenWithin, (h.steps _).written]

theorem terminal_steps {m : Machine} {t : Transcript} (h : m.terminal = .shared t) (n : Nat) :
    (m.steps n).terminal = .shared (t.append (m.writtenWithin n)) := by
  induction n generalizing m t with
  | zero => rw [writtenWithin, List.range_zero, List.flatMap_nil, t.append_nil, ← h]; rfl
  | succ n ih =>
    rw [steps_succ, ih (terminal_step h), t.append_append, writtenWithin_succ_first]

/-! ## Observers and runs -/

/-- What happens to a machine that an observer has an eye on. -/
inductive Turn where
  | step
  /-- The observer takes away what the transcript holds. -/
  | drain
  /-- The run that takes the steps ends on request. -/
  | stop

/-- All that the observer takes away, and the machine after the last turn. -/
def session (m : Machine) : List Turn → List UInt8 × Machine
  | [] => ([], m)
  | .step :: rest => m.step.session rest
  | .drain :: rest =>
    let (data, m) := m.drain
    let (later, m) := m.session rest
    (data ++ later, m)
  | .stop :: rest => m.stop.session rest

/-- How many steps are taken before the run ends on request, if it does. -/
def stepsTaken : List Turn → Nat
  | [] => 0
  | .step :: rest => stepsTaken rest + 1
  | .drain :: rest => stepsTaken rest
  | .stop :: _ => 0

theorem drain_alike (m : Machine) : m.drain.2.Alike m :=
  ⟨⟨rfl, rfl, rfl⟩, rfl, rfl, rfl, rfl, rfl, rfl⟩

/-- What was taken away and what is still there is what was there and what the steps put out. -/
theorem session_eq {m : Machine} {t : Transcript} (h : m.terminal = .shared t)
    (turns : List Turn) :
    (m.session turns).1 ++ (m.session turns).2.terminal.transcript.contents =
      t.contents ++ m.writtenWithin (stepsTaken turns) := by
  induction turns generalizing m t with
  | nil =>
    show [] ++ m.terminal.transcript.contents = t.contents ++ []
    rw [h, List.nil_append, List.append_nil]
    rfl
  | cons turn rest ih =>
    cases turn with
    | step =>
      have hrest := ih (terminal_step h)
      rw [Transcript.contents_append, List.append_assoc, ← writtenWithin_succ_first] at hrest
      exact hrest
    | drain =>
      have hempty : m.drain.2.terminal = .shared .empty := by
        show { m.terminal with transcript := .empty } = Terminal.shared .empty
        rw [h]
        rfl
      have hdata : m.drain.1 = t.contents := congrArg (·.transcript.contents) h
      have hrest := ih hempty
      rw [m.drain_alike.writtenWithin] at hrest
      show (m.drain.1 ++ (m.drain.2.session rest).1) ++
        (m.drain.2.session rest).2.terminal.transcript.contents = _
      rw [List.append_assoc, hrest, hdata]
      rfl
    | stop =>
      have hstopped : m.stop.terminal = .shared t := h
      have hrest := ih hstopped
      rw [writtenWithin_of_finished rfl] at hrest
      exact hrest

/-- A run leaves the terminal as steps leave it: as one step if a stop was requested beforehand, and
otherwise as all the steps up to the one that finishes the machine. -/
theorem terminal_of_run {m after : Machine} {bound : Nat} (h : m.run bound = some (.ok after)) :
    ∃ k ≤ bound, (if m.monitor.stopRequested then k = 1 else m.FinishesAt k) ∧
      after.terminal = (m.steps k).terminal := by
  obtain ⟨k, hbound, hk, log, rfl | rfl⟩ := run_cases h
  · exact ⟨k, hbound, hk, rfl⟩
  · exact ⟨k, hbound, hk, rfl⟩

/-- How the stream of so many steps ends: with the line of the machine that halts, and without one
if it goes on, runs out of input or reaches the limit. -/
structure Farewells (m : Machine) (n : Nat) : Prop where
  halts : ∀ i, m.haltedWithin? n = some i ↔
    ∃ j < n, (m.steps j).next? = some i ∧ i.Halts (m.steps j).core.stack
  going : (m.steps n).status ≠ .finished → m.haltedWithin? n = none
  runsDry : ∀ j i, (m.steps j).next? = some i → i.RunsDry (m.steps j).core.input →
    m.haltedWithin? n = none
  reachesLimit : ∀ j limit, m.config.maxSteps = some limit →
    (m.steps j).counter < (m.steps (j + 1)).counter →
    limit.toNat ≤ (m.steps (j + 1)).counter → m.haltedWithin? n = none

theorem farewells (m : Machine) (n : Nat) : m.Farewells n where
  halts i := by
    simp only [← halting?_eq_some_iff]
    exact haltedWithin?_eq_some_iff
  going h := haltedWithin?_of_going h
  runsDry _ _ hnext hdry := haltedWithin?_of_runsDry hnext hdry n
  reachesLimit _ _ hlimit hraised hreached := haltedWithin?_of_limit hlimit hraised hreached n

/-- **The bytes of `out` in their order, and a last line if the machine halts.** On a terminal that
takes everything, that is what the steps of a machine add to the transcript, whenever an observer
takes bytes away and whenever the run is asked to stop. A run adds what its steps add. A machine
that has not halted, because it goes on or was stopped, ran out of input or reached its limit,
adds no line. -/
theorem session_stream {m : Machine} {t : Transcript} (h : m.terminal = .shared t) :
    (∀ turns, (m.session turns).1 ++ (m.session turns).2.terminal.transcript.contents =
      t.contents ++ m.stream (stepsTaken turns)) ∧
    (∀ bound after, m.run bound = some (.ok after) →
      ∃ k ≤ bound, (if m.monitor.stopRequested then k = 1 else m.FinishesAt k) ∧
        after.terminal.transcript.contents = t.contents ++ m.stream k) ∧
    ∀ n, m.Farewells n := by
  refine ⟨?_, ?_, m.farewells⟩
  · intro turns
    rw [← writtenWithin_eq_stream]
    exact session_eq h turns
  · intro bound after hrun
    obtain ⟨k, hbound, hk, hterminal⟩ := terminal_of_run hrun
    refine ⟨k, hbound, hk, ?_⟩
    rw [hterminal, terminal_steps h, ← writtenWithin_eq_stream]
    exact t.contents_append _

/-- A new machine that is to put out one letter and to halt. -/
def letter : Machine :=
  let blank := create .default none
  let ram : Ram := ⟨⟨(19 :: 72 :: List.replicate 32766 0).toArray, by
    rw [List.size_toArray, List.length_cons, List.length_cons, List.length_replicate]⟩⟩
  { blank with core := { blank.core with store := ⟨ram, .zeros⟩ }, terminal := .shared .empty }

/-- The letter is taken away after the first step. The second step halts, and the third adds
nothing. -/
theorem session_stream_letter :
    let turns : List Turn := [.step, .drain, .step, .step]
    letter.terminal = .shared .empty ∧
    (letter.session turns).1 ++ (letter.session turns).2.terminal.transcript.contents =
      "HTERMINATING: mem ind = 3, halt\n".toUTF8.toList ∧
    (letter.session turns).1 = [72] := by
  intro turns
  obtain ⟨hsession, -, -⟩ := session_stream (m := letter) (t := .empty) rfl
  have hstream : letter.stream 3 = "HTERMINATING: mem ind = 3, halt\n".toUTF8.toList := by
    decide +kernel
  refine ⟨rfl, ?_, by decide +kernel⟩
  rw [← hstream]
  exact hsession turns

end Machine

end WordMachine
