import WordMachine.Proofs.Machine.Moments

/-! # Slot, count, snapshots and log agree

A machine tells of its faults in four places: the slot of the last fault, the count, the snapshots
and the error events of the log. All four are written whenever a fault is recorded and at no other
time, so they agree after any calls. A step records one fault at most and that of the step limit
after it. What succeeds records nothing and leaves all four as they are.
-/
namespace WordMachine

namespace Event

/-- Recording a fault is an event of the most severe level, and no other event is. -/
theorem level_eq_error_iff {event : Event} : event.level = .error ↔ event.fault? ≠ none := by
  cases event <;> simp [level, fault?]

/-- A recorded fault is told of with its wording. -/
theorem message_of_fault? {event : Event} {fault : Fault} (h : event.fault? = some fault) :
    event.message = fault.message := by
  cases event with
  | recorded recorded address counter =>
    obtain rfl := Option.some.inj h
    rfl
  | _ => cases h

end Event

namespace Log

/-- The events of the most severe level. -/
def errors (log : Log) : List Event := log.events.filter fun event => event.level = .error

/-- The errors tell of the recorded faults, one after the other. -/
theorem message_errors (log : Log) :
    log.errors.map Event.message = log.faults.map Fault.message := by
  unfold errors faults
  induction log.events with
  | nil => rfl
  | cons event rest ih =>
    cases hfault : event.fault? with
    | none =>
      have hlevel : event.level ≠ .error := fun h => Event.level_eq_error_iff.1 h hfault
      simpa [hfault, hlevel] using ih
    | some fault =>
      have hlevel : event.level = .error := Event.level_eq_error_iff.2 (by simp [hfault])
      simpa [hfault, hlevel, Event.message_of_fault? hfault] using ih

theorem length_errors (log : Log) : log.errors.length = log.faults.length := by
  simpa using congrArg List.length log.message_errors

end Log

namespace Machine

/-! ## What was published -/

/-- The published snapshot has the last wording and the count as they are. -/
structure ShowsErrors (m : Machine) : Prop where
  lastError : m.monitor.latest.lastError = m.faultText
  errorCount : m.monitor.latest.errorCount = m.errorCount

/-- Only steps record anything, and a step publishes what it leaves. -/
theorem showsErrors_preserved : Preserved ShowsErrors where
  step m h := by
    by_cases hfinished : m.status = .finished
    · rwa [step_of_finished hfinished]
    · rw [step_eq hfinished]
      exact ⟨rfl, rfl⟩
  stop _ h := ⟨h.lastError, h.errorCount⟩
  conclude _ _ := ⟨rfl, rfl⟩
  requestStop _ h := ⟨h.lastError, h.errorCount⟩
  poke m address word poked h hpoke := by
    rw [poke_eq hpoke]
    exact ⟨h.lastError, h.errorCount⟩
  setInput _ _ h := ⟨h.lastError, h.errorCount⟩
  setTerminal _ _ h := ⟨h.lastError, h.errorCount⟩

/-! ## Agreement -/

/-- The slot, the count, the snapshots and the log tell of the same faults. -/
structure ErrorsAgree (m : Machine) : Prop where
  present : m.lastFault.isSome ↔ 0 < m.errorCount
  snapshot : m.snapshot.lastError = m.lastFault.map Fault.message
  published : m.monitor.latest.lastError = m.lastFault.map Fault.message
  publishedCount : m.monitor.latest.errorCount = m.errorCount
  /-- A log that keeps anything has one error for each count, the newest with the last wording. -/
  log : m.core.log.threshold ≠ none →
    m.core.log.errors.length = m.errorCount ∧
    m.core.log.errors.getLast?.map Event.message = m.lastFault.map Fault.message

/-- Nothing has been recorded, and the published snapshot shows it. -/
structure Unmarked (m : Machine) : Prop where
  errorCount : m.errorCount = 0
  lastFault : m.lastFault = none
  faultText : m.faultText = none
  shows : m.ShowsErrors
  log : m.core.log.threshold ≠ none → m.core.log.faults = []

theorem unmarked_create (config : Config) (threshold : Option Level) :
    (create config threshold).Unmarked := by
  refine ⟨rfl, rfl, rfl, ⟨rfl, rfl⟩, fun hkept => ?_⟩
  have hempty : (Log.empty threshold).threshold ≠ none := by
    rwa [← Log.threshold_add _ .created]
  exact Log.faults_add hempty .created

theorem Unmarked.report {m : Machine} (h : m.Unmarked) {event : Event}
    (hevent : event.fault? = none) : (m.report event).Unmarked := by
  refine ⟨h.errorCount, h.lastFault, h.faultText, ⟨h.shows.lastError, h.shows.errorCount⟩, ?_⟩
  intro hkept
  have hbefore : m.core.log.threshold ≠ none := by
    rwa [← Log.threshold_add _ event]
  exact (Log.faults_add hbefore event).trans (by simp [h.log hbefore, hevent])

theorem Made.unmarked {image : List Word} {m : Machine} (h : Made image m) : m.Unmarked := by
  cases h with
  | blank config threshold => exact unmarked_create config threshold
  | @loaded source image config threshold m hread hmade =>
    obtain ⟨loaded, hload, hloaded⟩ := ofImage_of_read hread config threshold
    obtain rfl := Except.ok.inj (hloaded.symm.trans hmade)
    rw [load?_eq _ (Image.length_of_read hread)] at hload
    obtain rfl := Option.some.inj hload
    have hblank := unmarked_create config threshold
    refine Unmarked.report ?_ rfl
    exact ⟨rfl, rfl, rfl, ⟨rfl, rfl⟩, hblank.log⟩

/-- What was recorded since nothing was is found in all four places. -/
theorem Unmarked.agree {m after : Machine} {faults : List Fault} (h : m.Unmarked)
    (hrecorded : m.Recorded faults after) (hshows : after.ShowsErrors) : after.ErrorsAgree := by
  have hcount : after.errorCount = faults.length := by
    rw [hrecorded.errorCount, h.errorCount, Nat.zero_add]
  have hlast : after.lastFault = faults.getLast? := by
    rw [hrecorded.lastFault, h.lastFault, Option.or_none]
  have htext : after.faultText = after.lastFault.map Fault.message := by
    rw [hrecorded.faultText, h.faultText, Option.or_none, hlast]
  refine ⟨?_, htext, hshows.lastError.trans htext, hshows.errorCount, fun hkept => ?_⟩
  · rw [hlast, hcount, List.getLast?_isSome, List.length_pos_iff]
  · have hbefore : m.core.log.threshold ≠ none := by
      rwa [← hrecorded.threshold]
    have hfaults : after.core.log.faults = faults := by
      rw [hrecorded.log hbefore, h.log hbefore, List.nil_append]
    constructor
    · rw [Log.length_errors, hfaults, hcount]
    · rw [← List.getLast?_map, Log.message_errors, hfaults, List.getLast?_map, hlast]

/-! ## What one step records -/

theorem length_faultsOf_le (m : Machine) (i : Instruction) (answer : Except Fault Effect) :
    (m.faultsOf i answer).length ≤ 1 := by
  cases answer with
  | ok effect =>
    unfold faultsOf
    cases (m.terminal.send (i.message? (.ok effect))).1 <;> simp
  | error fault => cases fault <;> exact Nat.le_refl 1

theorem limitFaults_cases (m : Machine) :
    m.limitFaults = [] ∨
      ∃ limit, m.config.maxSteps = some limit ∧ m.limitFaults = [.stepLimit limit] := by
  unfold limitFaults
  cases m.config.maxSteps with
  | none => exact .inl rfl
  | some limit =>
    by_cases hreached : limit.toNat ≤ m.counter + 1
    · exact .inr ⟨limit, rfl, if_pos hreached⟩
    · exact .inl (if_neg hreached)

/-- A step enters one fault of its own at most. -/
theorem enters_own {m : Machine} (hgoing : m.status ≠ .finished) :
    ∃ own counted, own.length ≤ 1 ∧ m.Enters own counted m.step ∧
      m.stepFaults = own ++ if counted then m.limitFaults else [] := by
  cases hfetch : m.fetch with
  | error fault =>
    exact ⟨[.located (decodingPlace m.pc) fault], true, Nat.le_refl 1,
      (step_of_error hgoing hfetch).2, stepFaults_of_error hgoing hfetch⟩
  | ok i =>
    exact ⟨_, _, m.length_faultsOf_le i _, (step_of_ok hgoing hfetch).2,
      stepFaults_of_ok hgoing hfetch⟩

/-- A step records a second fault only if it reaches the step limit, and then it has finished the
machine. -/
theorem stepFaults_cases (m : Machine) :
    m.stepFaults.length ≤ 1 ∨
      ∃ fault limit, m.stepFaults = [fault, .stepLimit limit] ∧
        m.config.maxSteps = some limit ∧ m.step.status = .finished := by
  by_cases hfinished : m.status = .finished
  · rw [stepFaults, if_pos hfinished]
    exact .inl (Nat.zero_le 1)
  · obtain ⟨own, counted, hown, henters, hfaults⟩ := enters_own hfinished
    have hstatus := henters.status
    rw [hfaults]
    cases counted with
    | false => exact .inl (by simpa using hown)
    | true =>
      rw [if_pos rfl]
      rcases m.limitFaults_cases with hnone | ⟨limit, hmax, hlimit⟩
      · exact .inl (by simpa [hnone] using hown)
      · rw [hlimit]
        cases own with
        | nil => exact .inl (Nat.le_refl 1)
        | cons fault rest =>
          obtain rfl : rest = [] := List.eq_nil_of_length_eq_zero (by simpa using hown)
          exact .inr ⟨fault, limit, rfl, hmax, by simpa [hlimit] using hstatus⟩

/-- The next step executes an instruction without a fault: there is an effect, the terminal takes
what is to be written, and the step limit is not reached. -/
def Succeeds (m : Machine) : Prop :=
  ∃ i effect, m.fetch = .ok i ∧ (m.outcome i).1 = .ok effect ∧
    (m.terminal.send (i.message? (.ok effect))).1 = none ∧
    (counts (.ok effect) = true → m.limitFaults = [])

theorem stepFaults_of_succeeds {m : Machine} (h : m.status ≠ .finished → m.Succeeds) :
    m.stepFaults = [] := by
  by_cases hfinished : m.status = .finished
  · rw [stepFaults, if_pos hfinished]
  · obtain ⟨i, effect, hfetch, hanswer, hsent, hlimit⟩ := h hfinished
    rw [stepFaults_of_ok hfinished hfetch, hanswer, faultsOf, hsent]
    split
    · rw [hlimit ‹_›]
      rfl
    · rfl

/-! ## The four places -/

/-- **Slot, count, snapshots and log agree.** Take a machine that was made and called in any way.
There is a last fault if and only if the count is not zero; its wording is that in the snapshots
and in the newest error of the log, which has one error for each count. Nothing that is called
later lowers the count, and the slot changes with the count only; while all instructions succeed,
both stay. A step raises the count by two at most, and by two only if the second fault is that of
the step limit and the machine has finished. -/
theorem errors_agree {image : List Word} {made after : Machine} {calls : List Call}
    (hmade : Made image made) (hcalls : made.calls? calls = some after) :
    after.ErrorsAgree ∧
    (∀ later last, after.calls? later = some last →
      after.errorCount ≤ last.errorCount ∧
      ((∀ moment ∈ after.moments later, moment.status ≠ .finished → moment.Succeeds) →
        last.errorCount = after.errorCount) ∧
      (last.errorCount = after.errorCount →
        last.lastFault = after.lastFault ∧ last.faultText = after.faultText)) ∧
    after.step.errorCount ≤ after.errorCount + 2 ∧
    (after.step.errorCount = after.errorCount + 2 →
      ∃ fault limit, after.config.maxSteps = some limit ∧
        after.Recorded [fault, .stepLimit limit] after.step ∧ after.step.status = .finished) := by
  have hunmarked := hmade.unmarked
  have hshows := showsErrors_preserved.calls hunmarked.shows hcalls
  have hstep := after.recorded_step
  have hcount := hstep.errorCount
  refine ⟨hunmarked.agree (recorded_calls hcalls) hshows, ?_, ?_⟩
  · intro later last hlater
    have hrecorded := recorded_calls hlater
    have htotal := hrecorded.errorCount
    refine ⟨by omega, ?_, ?_⟩
    · intro hsucceeds
      have hnone : (after.moments later).flatMap stepFaults = [] :=
        List.flatMap_eq_nil_iff.2 fun moment hmoment =>
          stepFaults_of_succeeds (hsucceeds moment hmoment)
      rw [htotal, hnone]
      rfl
    · intro hsame
      have hnone : (after.moments later).flatMap stepFaults = [] :=
        List.eq_nil_of_length_eq_zero (by omega)
      rw [hnone] at hrecorded
      exact ⟨hrecorded.lastFault, hrecorded.faultText⟩
  · rcases after.stepFaults_cases with hfew | ⟨fault, limit, htwo, hmax, hfinished⟩
    · exact ⟨by omega, fun h => absurd h (by omega)⟩
    · rw [htwo] at hstep
      exact ⟨Nat.le_of_eq hstep.errorCount, fun _ => ⟨fault, limit, hmax, hstep, hfinished⟩⟩

/-- With a limit of one step, a `pop` off the empty stack is recorded and then the limit. Neither
the run nor the store that are refused afterwards leave a trace. -/
theorem errors_agree_pop :
    let made := ofImage (.ofBytes [3, 0, 0, 0x80]) { Config.default with maxSteps := some 1 }
      (some .error)
    ∃ start after, made = .ok start ∧ Made [3, 0x8000] start ∧
      start.calls? [.step, .run 5, .poke 0x9000 1] = some after ∧ after.ErrorsAgree ∧
      after.errorCount = 2 ∧ after.lastFault = some (.stepLimit 1) ∧
      after.core.log.errors.length = 2 ∧
      after.core.log.errors.getLast?.map Event.message = some (Fault.stepLimit 1).message := by
  intro made
  have hread : Image.read (.ofBytes [3, 0, 0, 0x80]) = .ok [3, 0x8000] := by
    rw [Image.read_iff]
    exact .words (by decide) rfl
  obtain ⟨loaded, -, hloaded⟩ := ofImage_of_read hread { Config.default with maxSteps := some 1 }
    (some .error)
  have hstart : made = .ok (loaded.report (.imageLoaded 2)) := hloaded
  have hmade : Made [3, 0x8000] (loaded.report (.imageLoaded 2)) := .loaded hread hstart
  have hseen : (made.toOption.bind fun m => m.calls? [.step, .run 5, .poke 0x9000 1]).map
      (fun m => (m.errorCount, m.lastFault, m.core.log.threshold)) =
        some (2, some (.stepLimit 1), some .error) := by
    decide +kernel
  rw [hstart, Except.toOption, Option.bind_some] at hseen
  obtain ⟨after, hafter, heq⟩ := Option.map_eq_some_iff.1 hseen
  obtain ⟨hcount, hlast, hthreshold⟩ : after.errorCount = 2 ∧
      after.lastFault = some (.stepLimit 1) ∧ after.core.log.threshold = some .error := by
    simpa using heq
  obtain ⟨hagree, -, -⟩ := errors_agree hmade hafter
  obtain ⟨hlength, hnewest⟩ := hagree.log (by simp [hthreshold])
  rw [hcount] at hlength
  rw [hlast] at hnewest
  exact ⟨_, after, hstart, hmade, hafter, hagree, hcount, hlast, hlength, hnewest⟩

end Machine

end WordMachine
