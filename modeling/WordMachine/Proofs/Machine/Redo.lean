import WordMachine.Proofs.Instruction.Redo
import WordMachine.Proofs.Machine.Moments

/-! # The store can be redone from the log

Whatever is asked of a machine whose log keeps everything, the events tell of every change of
memory and registers. Redoing them one after the other makes the store that the machine has out of
the one it had. An instruction tells of one write at most, and of none if it faults; a store from
outside tells of one, or has changed nothing.
-/
namespace WordMachine.Machine

theorem tells_of_remarked {before after : Core} (h : before.Remarked after) :
    before.Tells 0 after := by
  obtain ⟨remarks, hremarks, rfl⟩ := h
  refine .reportAll (fun event hevent => ?_) before
  cases event with
  | write address target value => rcases hremarks _ hevent with h | h <;> cases h
  | _ => rfl

theorem tells_awake (m : Machine) : m.core.Tells 0 m.awake.core := by
  unfold awake
  split
  · exact .report m.core rfl
  · exact .refl m.core

/-! ## Steps -/

theorem tells_executed {m : Machine} {i : Instruction} (hplace : i.address = m.pc) :
    m.core.Tells (Instruction.writesAtMost (m.outcome i).1) (m.executed i).1.core := by
  have hfetched : m.core.Tells 0 (m.fetched i).core := .report m.core rfl
  obtain ⟨core, hrun, -, hexecuted⟩ := executed_eq hplace
  have htold := i.tells_execute (m.behind i) (m.fetched i).core
  rw [hrun] at htold
  have hsettled := remarked_settle { m with core, pc := m.behind i, lastInstruction := some i } i
    (m.outcome i).1
  rw [hexecuted]
  exact (htold.following hfetched).trans (tells_of_remarked hsettled)

theorem tells_attempt_of_error {m : Machine} {fault : Fault} (hfetch : m.fetch = .error fault) :
    m.core.Tells 0 m.attempt.1.core := by
  obtain ⟨reads, hreads, hattempt⟩ := m.attempt_reads
  rw [hattempt, hfetch]
  exact (Core.Tells.of_reads hreads m.core).trans (.report _ rfl)

theorem tells_attempt_of_ok {m : Machine} {i : Instruction} (hfetch : m.fetch = .ok i) :
    m.core.Tells (Instruction.writesAtMost (m.outcome i).1) m.attempt.1.core := by
  obtain ⟨reads, hreads, hattempt⟩ := m.attempt_reads
  have hexecuted := tells_executed (m := { m with core := m.core.reportAll reads })
    (Instruction.address_of_decode hfetch)
  rw [((m.steady_reportAll reads).outcome i).1] at hexecuted
  rw [hattempt, hfetch]
  exact hexecuted.following (.of_reads hreads m.core)

/-- Waking, counting and publishing write nothing, so a step writes what its attempt writes. -/
theorem tells_step_of_attempt {m : Machine} (hgoing : m.status ≠ .finished) {n : Nat}
    (h : m.awake.core.Tells n m.awake.attempt.1.core) : m.core.Tells n m.step.core := by
  rw [step_eq hgoing]
  exact (h.following m.tells_awake).trans (tells_of_remarked (remarked_counted _))

theorem tells_step_of_error {m : Machine} (hgoing : m.status ≠ .finished) {fault : Fault}
    (hfetch : m.fetch = .error fault) : m.core.Tells 0 m.step.core :=
  tells_step_of_attempt hgoing (tells_attempt_of_error (m.fetch_awake.trans hfetch))

theorem tells_step_of_ok {m : Machine} (hgoing : m.status ≠ .finished) {i : Instruction}
    (hfetch : m.fetch = .ok i) :
    m.core.Tells (Instruction.writesAtMost (m.outcome i).1) m.step.core := by
  have hattempt := tells_attempt_of_ok (m.fetch_awake.trans hfetch)
  rw [(m.steady_awake.outcome i).1] at hattempt
  exact tells_step_of_attempt hgoing hattempt

/-- The next step faults: it records a fault, and not only that of the step limit. -/
def Faults (m : Machine) : Prop := ∃ fault ∈ m.stepFaults, fault ∉ m.limitFaults

/-- An instruction that proceeds has not faulted. -/
theorem writesAtMost_of_faults {m : Machine} (hgoing : m.status ≠ .finished) {i : Instruction}
    (hfetch : m.fetch = .ok i) (h : m.Faults) :
    Instruction.writesAtMost (m.outcome i).1 = 0 := by
  obtain ⟨fault, hfault, hother⟩ := h
  rw [stepFaults_of_ok hgoing hfetch] at hfault
  have hown : fault ∈ m.faultsOf i (m.outcome i).1 := by
    rcases List.mem_append.1 hfault with hown | hlimit
    · exact hown
    · split at hlimit
      · exact absurd hlimit hother
      · cases hlimit
  cases hanswer : (m.outcome i).1 with
  | error found => rfl
  | ok effect =>
    cases effect with
    | proceed =>
      rw [hanswer] at hown
      cases hown
    | jump target | output byte | halt => rfl

/-- A step writes once at most, and not at all if it faults. -/
theorem tells_step (m : Machine) :
    m.core.Tells 1 m.step.core ∧ (m.Faults → m.core.Tells 0 m.step.core) := by
  by_cases hfinished : m.status = .finished
  · have hsame : m.core.Tells 0 m.step.core := by
      rw [step_of_finished hfinished]
      exact .refl m.core
    exact ⟨hsame.mono (Nat.zero_le 1), fun _ => hsame⟩
  · cases hfetch : m.fetch with
    | error fault =>
      have hstep := tells_step_of_error hfinished hfetch
      exact ⟨hstep.mono (Nat.zero_le 1), fun _ => hstep⟩
    | ok i =>
      have hstep := tells_step_of_ok hfinished hfetch
      refine ⟨hstep.mono ?_, fun hfaults => ?_⟩
      · unfold Instruction.writesAtMost
        split <;> omega
      · rwa [writesAtMost_of_faults hfinished hfetch hfaults] at hstep

/-! ## Calls -/

theorem tells_poke {m poked : Machine} {address word : Word} (h : m.poke address word = .ok poked)
    (htrace : m.core.log.threshold = some .trace) :
    ∃ event : Event, event.isWrite = true ∧ m.core.Redo [event] poked.core := by
  rw [poke_eq h]
  rcases Target.of_cases address with ⟨-, target, htarget⟩ | ⟨-, htarget⟩
  · exact ⟨_, rfl, Core.redo_write htrace htarget word⟩
  · rw [poke, Action.run_write, htarget] at h
    cases h

/-- Whatever is asked of a machine, the log tells of all writes. -/
theorem tells_preserved (m : Machine) : Preserved fun after => ∃ n, m.core.Tells n after.core where
  step after h := by
    obtain ⟨n, hn⟩ := h
    exact ⟨n + 1, hn.trans after.tells_step.1⟩
  stop after h := by
    obtain ⟨n, hn⟩ := h
    have hstop : after.core.Tells 0 after.stop.core := .report after.core rfl
    exact ⟨n, hn.trans hstop⟩
  conclude after h := by
    obtain ⟨n, hn⟩ := h
    have hconclude : after.core.Tells 0 after.conclude.core := .report after.core rfl
    exact ⟨n, hn.trans hconclude⟩
  requestStop after h := h
  poke after address word poked h hpoke := by
    obtain ⟨n, hn⟩ := h
    refine ⟨n + 1, hn.trans fun htrace => ?_⟩
    obtain ⟨event, hwrite, hredo⟩ := tells_poke hpoke htrace
    exact ⟨[event], hredo, by simp [hwrite]⟩
  setInput after input h := by
    obtain ⟨n, hn⟩ := h
    have hset : after.core.Tells 0 (after.setInput input).core := .of_same rfl rfl
    exact ⟨n, hn.trans hset⟩
  setTerminal after device h := h

/-- **The log is a complete redo log.** If it keeps everything, redoing what it tells of calls makes
the store after them out of the store before them, and every word stored is below `0x8000`. Each
step within the calls tells of one write at most, and of none if it faults. A store from outside
tells of one write if it succeeds, and a refused one has touched nothing. -/
theorem redo_log {m after : Machine} {calls : List Call}
    (htrace : m.core.log.threshold = some .trace) (hcalls : m.calls? calls = some after) :
    (∃ events, m.core.Redo events after.core) ∧
    (∀ moment ∈ m.moments calls, ∃ events, moment.core.Redo events moment.step.core ∧
      events.countP Event.isWrite ≤ 1 ∧ (moment.Faults → events.countP Event.isWrite = 0)) ∧
    ∀ address word,
      match after.poke address word with
      | .ok poked => ∃ event : Event, event.isWrite = true ∧ after.core.Redo [event] poked.core
      | .error _ => ((Action.write address word).run after.core).2 = after.core := by
  have hself : ∃ n, m.core.Tells n m.core := ⟨0, .refl m.core⟩
  have htold : ∀ later : Machine, (∃ n, m.core.Tells n later.core) →
      ∃ events, m.core.Redo events later.core := by
    rintro later ⟨n, hn⟩
    obtain ⟨events, hredo, -⟩ := hn htrace
    exact ⟨events, hredo⟩
  obtain ⟨events, hredo⟩ := htold after (m.tells_preserved.calls hself hcalls)
  refine ⟨⟨events, hredo⟩, ?_, ?_⟩
  · intro moment hmoment
    have hreached := m.tells_preserved.moments hself calls moment hmoment
    obtain ⟨earlier, hearlier⟩ := htold moment hreached
    have hkept := hearlier.threshold.trans htrace
    obtain ⟨honce, hnever⟩ := moment.tells_step
    by_cases hfaults : moment.Faults
    · obtain ⟨told, hstep, hcount⟩ := hnever hfaults hkept
      exact ⟨told, hstep, by omega, fun _ => by omega⟩
    · obtain ⟨told, hstep, hcount⟩ := honce hkept
      exact ⟨told, hstep, hcount, fun h => absurd h hfaults⟩
  · intro address word
    cases hpoke : after.poke address word with
    | ok poked => exact tells_poke hpoke (hredo.threshold.trans htrace)
    | error fault =>
      rw [poke, Action.run_write] at hpoke
      rw [Action.run_write]
      cases htarget : Target.of address with
      | ok target =>
        rw [htarget] at hpoke
        cases hpoke
      | error found => rfl

/-- A machine that logs everything. It is to add, and then to pop off the empty stack. -/
def adder : Machine := (holding [9, 0x8000, 0x7fff, 2, 3, 0x8001] (by decide)).traced

/-- The sum is stored reduced, and so is the word that is stored from outside. The `pop` faults and
writes nothing. -/
theorem redo_log_adder :
    let calls : List Call := [.step, .poke 0x8001 0x8009, .step]
    let writes : List Event :=
      [.write 0x8000 (.register 0) 1, .write 0x8001 (.register 1) 9]
    adder.core.log.threshold = some .trace ∧
    (∃ after events, adder.calls? calls = some after ∧ adder.core.Redo events after.core ∧
      events.filter Event.isWrite = writes) ∧
    ∃ moment ∈ adder.moments calls, moment.Faults ∧
      ∃ events, moment.core.Redo events moment.step.core ∧ events.countP Event.isWrite = 0 := by
  intro calls writes
  obtain ⟨after, hcalls⟩ : ∃ after, adder.calls? calls = some after := ⟨_, rfl⟩
  obtain ⟨⟨events, hredo⟩, hsteps, -⟩ := redo_log (m := adder) rfl hcalls
  refine ⟨rfl, ⟨after, events, hcalls, hredo, ?_⟩, ?_⟩
  · have hwrites : (adder.calls? calls).map (fun m => m.core.log.events.filter Event.isWrite) =
        some writes := by decide +kernel
    have hlog : after.core.log.events = events := hredo.log
    rw [hcalls, Option.map_some, hlog] at hwrites
    exact Option.some.inj hwrites
  · obtain ⟨moment, hmoment⟩ : ∃ moment, (adder.moments calls)[1]? = some moment := ⟨_, rfl⟩
    have hfaults : (adder.moments calls)[1]?.map (fun m => (m.stepFaults, m.limitFaults)) =
        some ([.located "pop at 0x0004" .emptyStack], []) := by decide +kernel
    rw [hmoment, Option.map_some, Option.some.injEq, Prod.mk.injEq] at hfaults
    have hmem := List.mem_of_getElem? hmoment
    have hpop : moment.Faults := ⟨.located "pop at 0x0004" .emptyStack, by simp [hfaults]⟩
    obtain ⟨told, hstep, -, hnone⟩ := hsteps moment hmem
    exact ⟨moment, hmem, hpop, told, hstep, hnone hpop⟩

end WordMachine.Machine
