import WordMachine.Proofs.Machine.Listed

/-! # Counter and log account for every step

A step finds an instruction and tells the log of it, or it finds a word that selects none and
records that. Either is counted, but for the instruction that ends the run: one that halts or has
run out of input. So the entries of the log and the recorded unknown words make up the steps, of
which the counter has all but that last one. Each entry has the number of its step.
-/
namespace WordMachine

namespace Fault

/-- Whether a fault comes of a word whose opcode is unknown. -/
def isUnknownOpcode (fault : Fault) : Bool :=
  match fault.root with
  | .unknownOpcode _ => true
  | _ => false

theorem isUnknownOpcode_iff {fault : Fault} :
    fault.isUnknownOpcode = true ↔ ∃ byte, fault.root = .unknownOpcode byte := by
  unfold isUnknownOpcode
  cases fault.root <;> simp

end Fault

namespace Event

/-- Whether an event tells how far a machine has come: that it has started, or which instruction it
executes. -/
def isProgress (event : Event) : Bool := event.level = .info || event.level = .debug

theorem IsAccess.not_progress {event : Event} (h : event.IsAccess) : event.isProgress = false := by
  cases event with
  | read address target | write address target value => rfl
  | _ => exact h.elim

end Event

namespace Log

/-- The events of a level, the first of them first. -/
def ofLevel (log : Log) (level : Level) : List Event :=
  log.events.filter fun event => event.level = level

theorem keeps_add (log : Log) (event : Event) (level : Level) :
    (log.add event).keeps level = log.keeps level := by
  rw [keeps, keeps, threshold_add]

theorem ofLevel_add {log : Log} {level : Level} (h : log.keeps level = true) (event : Event) :
    (log.add event).ofLevel level =
      log.ofLevel level ++ [event].filter fun event => event.level = level := by
  by_cases hlevel : event.level = level
  · rw [add, hlevel, if_pos h]
    simp [ofLevel, events, hlevel]
  · rw [List.filter_cons_of_neg (by simpa using hlevel), List.filter_nil, List.append_nil]
    unfold add
    split
    · simp [ofLevel, events, hlevel]
    · rfl

theorem ofLevel_foldl_add {log : Log} {level : Level} (h : log.keeps level = true)
    (told : List Event) :
    (told.foldl add log).ofLevel level =
      log.ofLevel level ++ told.filter fun event => event.level = level := by
  induction told generalizing log with
  | nil => exact (List.append_nil _).symm
  | cons event rest ih =>
    rw [List.foldl_cons, ih (by rwa [keeps_add]), ofLevel_add h, List.append_assoc,
      ← List.filter_append, List.singleton_append]

end Log

/-- Between the two moments the log was told of this progress, in this order. -/
def Core.Reports (before : Core) (progress : List Event) (after : Core) : Prop :=
  ∃ told : List Event, after.log = told.foldl Log.add before.log ∧
    told.filter Event.isProgress = progress

namespace Core.Reports

variable {before between after : Core} {first second progress : List Event}

theorem refl (core : Core) : core.Reports [] core := ⟨[], rfl, rfl⟩

theorem report (core : Core) (event : Event) :
    core.Reports ([event].filter Event.isProgress) (core.report event) := ⟨[event], rfl, rfl⟩

theorem trans (h : before.Reports first between) (h' : between.Reports second after) :
    before.Reports (first ++ second) after := by
  obtain ⟨told, hlog, rfl⟩ := h
  obtain ⟨others, hlog', rfl⟩ := h'
  exact ⟨told ++ others, by rw [hlog', hlog, List.foldl_append], List.filter_append ..⟩

/-- What tells of no progress may come before and after. -/
theorem within {earlier later : Core} (h : before.Reports progress after)
    (hbefore : earlier.Reports [] before) (hafter : after.Reports [] later) :
    earlier.Reports progress later := by
  have hall := (hbefore.trans h).trans hafter
  rwa [List.nil_append, List.append_nil] at hall

theorem of_accesses {events : List Event} (hevents : ∀ event ∈ events, event.IsAccess)
    (hlog : after.log = events.foldl Log.add before.log) : before.Reports [] after := by
  refine ⟨events, hlog, List.filter_eq_nil_iff.2 fun event hevent => ?_⟩
  rw [(hevents event hevent).not_progress]
  exact Bool.false_ne_true

theorem of_remarked (h : before.Remarked after) : before.Reports [] after := by
  obtain ⟨remarks, hremarks, rfl⟩ := h
  refine ⟨remarks, by rw [reportAll_eq], List.filter_eq_nil_iff.2 fun event hevent => ?_⟩
  rcases hremarks event hevent with hlevel | hlevel <;> simp [Event.isProgress, hlevel]

/-- What a log keeps of the progress is what has the level. -/
theorem ofLevel (h : before.Reports progress after) {level : Level}
    (hlevel : level = .info ∨ level = .debug) (hkept : before.log.keeps level = true) :
    after.log.ofLevel level =
      before.log.ofLevel level ++ progress.filter fun event => event.level = level := by
  obtain ⟨told, hlog, rfl⟩ := h
  rw [hlog, Log.ofLevel_foldl_add hkept, List.filter_filter]
  refine congrArg (before.log.ofLevel level ++ ·) (List.filter_congr fun event _ => ?_)
  rcases hlevel with rfl | rfl <;> cases event <;> rfl

end Core.Reports

namespace Machine

/-! ## What a step tells of -/

/-- The entry for the instruction that the next step executes, with the number of that step. -/
def logged? (m : Machine) (number : Nat) : Option Event :=
  m.next?.map fun i => .fetched i.opcode m.pc number i.operands

theorem logged?_of_error {m : Machine} {fault : Fault} (hfetch : m.fetch = .error fault)
    (number : Nat) : m.logged? number = none := by
  unfold logged? next?
  rw [hfetch]
  split <;> rfl

theorem logged?_of_ok {m : Machine} (hgoing : m.status ≠ .finished) {i : Instruction}
    (hfetch : m.fetch = .ok i) (number : Nat) :
    m.logged? number = some (.fetched i.opcode m.pc number i.operands) := by
  rw [logged?, next?_eq_some_iff.2 ⟨hgoing, hfetch⟩]
  rfl

theorem logged?_of_finished {m : Machine} (hfinished : m.status = .finished) (number : Nat) :
    m.logged? number = none := by
  rw [logged?, next?, if_pos hfinished]
  rfl

theorem reports_awake (m : Machine) :
    m.core.Reports (if m.status = .new then [.started] else []) m.awake.core := by
  unfold awake
  split
  · exact .report m.core .started
  · exact .refl m.core

theorem reports_executed {m : Machine} {i : Instruction} (hplace : i.address = m.pc) :
    m.core.Reports [.fetched i.opcode m.pc m.counter i.operands] (m.executed i).1.core := by
  obtain ⟨core, hrun, -, hexecuted⟩ := executed_eq hplace
  obtain ⟨accesses, haccesses, hlog⟩ :=
    Action.TellsAccesses.compositional.execute i (m.behind i) (m.fetched i).core
  rw [hrun] at hlog
  have hfetched : m.core.Reports [.fetched i.opcode m.pc m.counter i.operands]
      (m.fetched i).core := by
    rw [← hplace]
    exact .report m.core (.fetched i.opcode i.address m.counter i.operands)
  have hsettled := remarked_settle { m with core, pc := m.behind i, lastInstruction := some i } i
    (m.outcome i).1
  rw [hexecuted]
  exact (hfetched.within (.refl _) (.of_accesses haccesses hlog)).within (.refl _)
    (.of_remarked hsettled)

theorem reports_attempt {m : Machine} (hgoing : m.status ≠ .finished) :
    m.core.Reports (m.logged? m.counter).toList m.attempt.1.core := by
  obtain ⟨reads, hreads, hattempt⟩ := m.attempt_reads
  have hread : m.core.Reports [] (m.core.reportAll reads) :=
    .of_accesses (fun event hevent => (hreads event hevent).isAccess) (by rw [Core.reportAll_eq])
  rw [hattempt]
  cases hfetch : m.fetch with
  | error fault =>
    rw [logged?_of_error hfetch]
    exact hread.trans (.of_remarked (remarked_record _ _))
  | ok i =>
    rw [logged?_of_ok hgoing hfetch]
    exact (reports_executed (m := { m with core := m.core.reportAll reads })
      (Instruction.address_of_decode hfetch)).within hread (.refl _)

/-- A step tells of the start, if it is the first, and of the instruction that it executes. -/
theorem reports_step (m : Machine) :
    m.core.Reports ((if m.status = .new then [.started] else []) ++ (m.logged? m.counter).toList)
      m.step.core := by
  by_cases hfinished : m.status = .finished
  · rw [step_of_finished hfinished, logged?_of_finished hfinished, if_neg (by simp [hfinished])]
    exact .refl m.core
  · have hawake : m.awake.status ≠ .finished := by rw [status_awake hfinished]; decide
    have hlogged : m.awake.logged? m.awake.counter = m.logged? m.counter := by
      rw [counter_awake]
      cases hfetch : m.fetch with
      | error fault => rw [logged?_of_error (m.fetch_awake.trans hfetch), logged?_of_error hfetch]
      | ok i =>
        rw [logged?_of_ok hawake (m.fetch_awake.trans hfetch), logged?_of_ok hfinished hfetch,
          m.steady_awake.pc]
    have hattempt := reports_attempt hawake
    rw [hlogged] at hattempt
    rw [step_eq hfinished]
    exact (m.reports_awake.trans hattempt).within (.refl _) (.of_remarked (remarked_counted _))

/-! ## What so many steps tell of and count -/

/-- How many of so many steps find the machine going. -/
def goingWithin (m : Machine) (n : Nat) : Nat :=
  (List.range n).countP fun j => (m.steps j).status ≠ .finished

/-- The entries for the instructions that so many steps execute. -/
def loggedWithin (m : Machine) (n : Nat) : List Event :=
  (List.range n).filterMap fun j => (m.steps j).logged? j

/-- The faults that so many steps record. -/
def faultsWithin (m : Machine) (n : Nat) : List Fault :=
  (List.range n).flatMap fun j => (m.steps j).stepFaults

/-- The next step executes an instruction that ends the run by itself: it halts or has run out of
input. -/
def EndsItself (m : Machine) : Prop :=
  ∃ i, m.next? = some i ∧ (i.Halts m.core.stack ∨ i.RunsDry m.core.input)

/-- One of so many steps executes an instruction that ends the run by itself. -/
def EndsUncounted (m : Machine) (n : Nat) : Prop := ∃ j < n, (m.steps j).EndsItself

theorem goingWithin_succ (m : Machine) (n : Nat) :
    m.goingWithin (n + 1) =
      m.goingWithin n + if (m.steps n).status ≠ .finished then 1 else 0 := by
  rw [goingWithin, List.range_succ, List.countP_append, List.countP_singleton]
  simp [goingWithin]

theorem loggedWithin_succ (m : Machine) (n : Nat) :
    m.loggedWithin (n + 1) = m.loggedWithin n ++ ((m.steps n).logged? n).toList := by
  rw [loggedWithin, List.range_succ, List.filterMap_append]
  cases hlogged : (m.steps n).logged? n <;> simp [loggedWithin, hlogged]

/-- Entries are of the level for debugging. -/
theorem level_of_mem_loggedWithin {m : Machine} {n : Nat} {event : Event}
    (h : event ∈ m.loggedWithin n) : event.level = .debug := by
  obtain ⟨j, -, hlogged⟩ := List.mem_filterMap.1 h
  obtain ⟨i, -, rfl⟩ := Option.map_eq_some_iff.1 hlogged
  rfl

theorem faultsWithin_succ (m : Machine) (n : Nat) :
    m.faultsWithin (n + 1) = m.faultsWithin n ++ (m.steps n).stepFaults := by
  rw [faultsWithin, List.range_succ, List.flatMap_append, List.flatMap_singleton]
  rfl

theorem recorded_steps (m : Machine) (n : Nat) : m.Recorded (m.faultsWithin n) (m.steps n) := by
  induction n with
  | zero => exact m.recorded_refl
  | succ n ih =>
    rw [faultsWithin_succ, steps_succ_last]
    exact ih.trans (m.steps n).recorded_step

theorem EndsUncounted.finishesAt {m : Machine} {n : Nat} (h : m.EndsUncounted n) :
    ∃ k ≤ n, m.FinishesAt k := by
  obtain ⟨j, hj, i, hnext, hhalts | hdry⟩ := h
  · exact ⟨j + 1, hj, finishesAt_of_halting (halting?_eq_some_iff.2 ⟨hnext, hhalts⟩)⟩
  · exact ⟨j + 1, hj, finishesAt_of_runsDry hnext hdry⟩

theorem EndsUncounted.finished {m : Machine} {n : Nat} (h : m.EndsUncounted n) :
    (m.steps n).status = .finished := by
  obtain ⟨k, hk, hfinishes⟩ := h.finishesAt
  rw [steps_of_finished hfinishes.finished hk, hfinishes.finished]

/-- While a machine goes on, it has not ended. -/
theorem not_endsUncounted {m : Machine} {n : Nat} (hgoing : (m.steps n).status ≠ .finished) :
    ¬m.EndsUncounted n := fun h => hgoing h.finished

theorem endsUncounted_succ (m : Machine) (n : Nat) :
    m.EndsUncounted (n + 1) ↔ m.EndsUncounted n ∨ (m.steps n).EndsItself := by
  constructor
  · rintro ⟨j, hj, hends⟩
    rcases Nat.lt_succ_iff_lt_or_eq.1 hj with hearlier | rfl
    · exact .inl ⟨j, hearlier, hends⟩
    · exact .inr hends
  · rintro (⟨j, hj, hends⟩ | hends)
    · exact ⟨j, by omega, hends⟩
    · exact ⟨n, n.lt_succ_self, hends⟩

theorem not_endsItself {m : Machine} (hfinished : m.status = .finished) : ¬m.EndsItself := by
  rintro ⟨i, hnext, -⟩
  exact (next?_eq_some_iff.1 hnext).1 hfinished

/-- What a going machine does not count is what ends it. -/
theorem counter_step_cases {m : Machine} (hgoing : m.status ≠ .finished) :
    (m.EndsItself ∧ m.step.counter = m.counter) ∨
      (¬m.EndsItself ∧ m.step.counter = m.counter + 1) := by
  have hends : m.EndsItself ↔ m.awake.attempt.2 = false := by
    rw [uncounted_awake_iff]
    simp only [EndsItself, next?_eq_some_iff, hgoing, not_false_eq_true, true_and, ne_eq]
  have hcounter := counter_step hgoing
  cases hcounted : m.awake.attempt.2 with
  | false =>
    rw [hcounted] at hcounter hends
    exact .inl ⟨hends.2 rfl, hcounter⟩
  | true =>
    rw [hcounted] at hcounter hends
    exact .inr ⟨fun h => Bool.noConfusion (hends.1 h), hcounter⟩

/-- The counter has counted the steps of the going machine, but for the one that ended it. -/
theorem counter_steps_cases {m : Machine} (hcounter : m.counter = 0) (n : Nat) :
    (m.EndsUncounted n ∧ (m.steps n).counter + 1 = m.goingWithin n) ∨
      (¬m.EndsUncounted n ∧ (m.steps n).counter = m.goingWithin n) := by
  induction n with
  | zero => exact .inr ⟨fun ⟨j, hj, _⟩ => absurd hj (Nat.not_lt_zero j), hcounter⟩
  | succ n ih =>
    rw [endsUncounted_succ, steps_succ_last, goingWithin_succ]
    by_cases hfinished : (m.steps n).status = .finished
    · rw [step_of_finished hfinished, if_neg (by simp [hfinished])]
      simpa only [not_endsItself hfinished, or_false, Nat.add_zero] using ih
    · -- a machine that is going on has not been ended, so the count is exact before this step
      have hbefore := not_endsUncounted hfinished
      have hcount := (ih.resolve_left fun h => hbefore h.1).2
      rw [if_pos hfinished, ← hcount]
      rcases counter_step_cases hfinished with ⟨hends, hsame⟩ | ⟨hnot, hnext⟩
      · exact .inl ⟨.inr hends, by rw [hsame]⟩
      · exact .inr ⟨fun h => h.elim hbefore hnot, hnext⟩

/-- The log of a new machine is told of the start by the first step, and by each step of the
instruction that it executes, with the number of the step. -/
theorem reports_steps {m : Machine} (hnew : m.status = .new) (hcounter : m.counter = 0) (n : Nat) :
    m.core.Reports ((if n = 0 then [] else [.started]) ++ m.loggedWithin n) (m.steps n).core := by
  induction n with
  | zero => exact .refl m.core
  | succ n ih =>
    -- a machine that is going on has counted all its steps, so that its counter is their number
    have hlogged : (m.steps n).logged? (m.steps n).counter = (m.steps n).logged? n := by
      by_cases hfinished : (m.steps n).status = .finished
      · rw [logged?_of_finished hfinished, logged?_of_finished hfinished]
      · rw [(m.counter_steps n).2 hfinished, hcounter, Nat.zero_add]
    have hstep := (m.steps n).reports_step
    rw [hlogged] at hstep
    rw [steps_succ_last, loggedWithin_succ, if_neg n.succ_ne_zero]
    cases n with
    | zero => simpa [hnew, steps, loggedWithin] using hstep
    | succ n =>
      have hstarted : (m.steps (n + 1)).status ≠ .new := by
        rcases m.status_steps n.succ_pos with h | h <;> simp [h]
      rw [if_neg hstarted, List.nil_append] at hstep
      rw [if_neg n.succ_ne_zero] at ih
      rw [← List.append_assoc]
      exact ih.trans hstep

/-! ## The account -/

theorem countP_faults_of_ok {m : Machine} {i : Instruction} (h : m.next? = some i) :
    m.stepFaults.countP Fault.isUnknownOpcode = 0 := by
  refine List.countP_eq_zero.2 fun fault hfault hunknown => ?_
  obtain ⟨byte, hroot⟩ := Fault.isUnknownOpcode_iff.1 hunknown
  exact known_of_stepFaults h hfault byte hroot

theorem countP_faults_of_error {m : Machine} (hpc : m.pc.toNat < 0x8000)
    (hgoing : m.status ≠ .finished) {fault : Fault} (h : m.fetch = .error fault) :
    m.stepFaults.countP Fault.isUnknownOpcode = 1 := by
  have hlimit : m.limitFaults.countP Fault.isUnknownOpcode = 0 := by
    rcases m.limitFaults_cases with hnone | ⟨limit, -, hlimit⟩
    · rw [hnone, List.countP_nil]
    · rw [hlimit]
      rfl
  rw [stepFaults_of_error hgoing h, fault_of_fetch hpc h, List.countP_cons_of_pos rfl, hlimit]

/-- A step of a going machine is logged or records an unknown word, and one of the two only. -/
theorem logged_or_unknown {m : Machine} (hpc : m.pc.toNat < 0x8000) (number : Nat) :
    (m.logged? number).toList.length + m.stepFaults.countP Fault.isUnknownOpcode =
      if m.status ≠ .finished then 1 else 0 := by
  by_cases hfinished : m.status = .finished
  · rw [logged?_of_finished hfinished, stepFaults, if_pos hfinished, if_neg (by simp [hfinished])]
    rfl
  · rw [if_pos hfinished]
    cases hfetch : m.fetch with
    | error fault =>
      rw [logged?_of_error hfetch, countP_faults_of_error hpc hfinished hfetch]
      rfl
    | ok i =>
      rw [logged?_of_ok hfinished hfetch,
        countP_faults_of_ok (next?_eq_some_iff.2 ⟨hfinished, hfetch⟩)]
      rfl

theorem logged_and_unknown {m : Machine} (hpc : m.pc.toNat < 0x8000) (n : Nat) :
    (m.loggedWithin n).length + (m.faultsWithin n).countP Fault.isUnknownOpcode =
      m.goingWithin n := by
  induction n with
  | zero => rfl
  | succ n ih =>
    have hstep := logged_or_unknown (pc_steps_lt hpc n) n
    rw [loggedWithin_succ, faultsWithin_succ, goingWithin_succ, List.length_append,
      List.countP_append]
    omega

/-- What a step of this number finds. If it is an instruction, its entry in the log has the number,
the address, the mnemonic and the words of the operands. If it is a word that selects no operation,
there is no entry but a fault. -/
structure Finds (m : Machine) (number : Nat) : Prop where
  instruction : (m.core.store.ram.get m.pc).toNat % 256 ≤ 21 →
    ∃ i event, m.next? = some i ∧ i.StandsAt m.core.store.ram m.pc ∧
      m.logged? number = some event ∧ event.message = i.opcode.mnemonic ∧
      event.fields = [("addr", toString m.pc.toNat), ("cnt", toString number),
        ("ops", Event.wordsText (i.operandCells.map m.core.store.ram.get))]
  unknown : 21 < (m.core.store.ram.get m.pc).toNat % 256 →
    m.logged? number = none ∧ ∃ fault ∈ m.stepFaults,
      fault.root = .unknownOpcode (m.core.store.ram.get m.pc).toUInt8

theorem finds_of_going {m : Machine} (hpc : m.pc.toNat < 0x8000) (hgoing : m.status ≠ .finished)
    (number : Nat) : m.Finds number := by
  constructor <;> rw [← UInt16.toNat_toUInt8]
  · intro hsmall
    obtain ⟨i, hdecode, hstands⟩ := Instruction.decode_peek_of_small hpc hsmall
    refine ⟨i, _, next?_eq_some_iff.2 ⟨hgoing, hdecode⟩, hstands,
      logged?_of_ok hgoing hdecode number, rfl, ?_⟩
    rw [← hstands.operands_eq]
    rfl
  · intro hlarge
    have hfetch : m.fetch = .error (.unknownOpcode (m.core.store.ram.get m.pc).toUInt8) :=
      Instruction.decode_peek_of_large hpc hlarge
    refine ⟨logged?_of_error hfetch number, .located (decodingPlace m.pc)
      (.unknownOpcode (m.core.store.ram.get m.pc).toUInt8), ?_, rfl⟩
    rw [stepFaults_of_error hgoing hfetch]
    exact List.mem_cons_self

/-- **Counter and log account for every step.** Take any number of steps of a new machine that has
counted nothing and stands at a memory cell, as every machine does. Its counter is the number of
steps that found it going, less one if it has come to an instruction that halts or has run out of
input. Those that found an instruction are in the log, and those that found a word that selects none
have recorded that: together they are all that found it going. The log has one entry for each
instruction, in the order of the steps and with the number of the step, and no other event of the
level of entries. The first step alone tells of the start, and there is no other event of that
level. -/
theorem steps_accounted {m : Machine} (hnew : m.status = .new) (hcounter : m.counter = 0)
    (hpc : m.pc.toNat < 0x8000) (n : Nat) :
    let after := m.steps n
    let unknown := (m.faultsWithin n).countP Fault.isUnknownOpcode
    (m.EndsUncounted n → after.status = .finished ∧ after.counter + 1 = m.goingWithin n ∧
      (m.loggedWithin n).length + unknown = after.counter + 1) ∧
    (¬m.EndsUncounted n → after.counter = m.goingWithin n ∧
      (m.loggedWithin n).length + unknown = after.counter) ∧
    m.Recorded (m.faultsWithin n) after ∧
    (m.core.log.keeps .debug = true →
      after.core.log.ofLevel .debug = m.core.log.ofLevel .debug ++ m.loggedWithin n) ∧
    (m.core.log.keeps .info = true →
      after.core.log.ofLevel .info =
        m.core.log.ofLevel .info ++ if n = 0 then [] else [.started]) ∧
    ∀ j < n, (m.steps j).status ≠ .finished → (m.steps j).Finds j := by
  intro after unknown
  have hsum := logged_and_unknown hpc n
  have hreports := reports_steps hnew hcounter n
  refine ⟨fun hends => ?_, fun hends => ?_, m.recorded_steps n, fun hkept => ?_, fun hkept => ?_,
    fun j _ hgoing => finds_of_going (pc_steps_lt hpc j) hgoing j⟩
  · have hcount := ((counter_steps_cases hcounter n).resolve_right fun h => h.1 hends).2
    exact ⟨hends.finished, hcount, hsum.trans hcount.symm⟩
  · have hcount := ((counter_steps_cases hcounter n).resolve_left fun h => hends h.1).2
    exact ⟨hcount, hsum.trans hcount.symm⟩
  · have hall : (m.loggedWithin n).filter (fun event => event.level = .debug) =
        m.loggedWithin n :=
      List.filter_eq_self.2 fun event hevent => decide_eq_true (level_of_mem_loggedWithin hevent)
    rw [hreports.ofLevel (.inr rfl) hkept, List.filter_append, hall]
    split <;> rfl
  · have hnone : (m.loggedWithin n).filter (fun event => event.level = .info) = [] :=
      List.filter_eq_nil_iff.2 fun event hevent => by simp [level_of_mem_loggedWithin hevent]
    rw [hreports.ofLevel (.inl rfl) hkept, List.filter_append, hnone, List.append_nil]
    split <;> rfl

/-- A machine that logs everything. The first word of its program selects no operation. -/
def skipper : Machine := (holding [250, 19, 65, 0] (by decide)).traced

/-- Of five steps three find the machine going. One passes over the word, one writes a letter, and
one halts; the first two are counted, and the last two are in the log. -/
theorem steps_accounted_skipper :
    (skipper.status = .new ∧ skipper.counter = 0 ∧ skipper.pc.toNat < 0x8000 ∧
      skipper.EndsUncounted 5 ∧ skipper.goingWithin 5 = 3) ∧
    (skipper.steps 5).counter = 2 ∧
    skipper.Recorded [.located "decode at 0x0000" (.unknownOpcode 250)] (skipper.steps 5) ∧
    (skipper.steps 5).core.log.ofLevel .debug =
      [.fetched .out 1 1 [65], .fetched .halt 3 2 []] ∧
    (skipper.steps 5).core.log.ofLevel .info = [.started] := by
  have hends : skipper.EndsUncounted 5 := by
    have hlast : (skipper.steps 2).next? = some ⟨3, .halt, 0, 0, 0⟩ := by decide +kernel
    exact ⟨2, by decide, _, hlast, .inl (.inl rfl)⟩
  have hgoing : skipper.goingWithin 5 = 3 := by decide +kernel
  have hfaults : skipper.faultsWithin 5 =
      [.located "decode at 0x0000" (.unknownOpcode 250)] := by decide +kernel
  have hlogged : skipper.loggedWithin 5 = [.fetched .out 1 1 [65], .fetched .halt 3 2 []] := by
    decide +kernel
  obtain ⟨huncounted, -, hrecorded, hdebug, hinfo, -⟩ :=
    steps_accounted (m := skipper) rfl rfl (by decide) 5
  have hcount := (huncounted hends).2.1
  rw [hgoing] at hcount
  rw [hfaults] at hrecorded
  have hentries := hdebug rfl
  rw [hlogged] at hentries
  exact ⟨⟨rfl, rfl, by decide, hends, hgoing⟩, Nat.succ.inj hcount, hrecorded, hentries, hinfo rfl⟩

end Machine

end WordMachine
