import WordMachine.Proofs.Machine.Step

/-! # What is recorded

A machine keeps the last fault it recorded with its wording, counts how many there were, and tells
its log of each. `Recorded` says which faults were recorded between two moments of a machine. The
slot, the count and the log are then those of these faults; no later fault and no success takes
one back. To the core, settling and counting add such remarks and nothing else: `Remarked`.
-/
namespace WordMachine

/-- The fault whose recording an event tells of. -/
def Event.fault? : Event → Option Fault
  | .recorded fault .. => some fault
  | _ => none

theorem Event.IsAccess.fault? {event : Event} (h : event.IsAccess) : event.fault? = none := by
  cases event with
  | recorded fault address counter => exact h.elim
  | _ => rfl

namespace Log

/-- The recorded faults, the first of them first. -/
def faults (log : Log) : List Fault := log.events.filterMap Event.fault?

/-- A log that keeps anything at all keeps every fault. -/
theorem faults_add {log : Log} (h : log.threshold ≠ none) (event : Event) :
    (log.add event).faults = log.faults ++ event.fault?.toList := by
  obtain ⟨threshold, hthreshold⟩ := Option.ne_none_iff_exists'.1 h
  cases hkeeps : log.keeps event.level with
  | true =>
    rw [add, if_pos hkeeps]
    unfold faults events
    rw [List.reverse_cons, List.filterMap_append]
    cases hfault : event.fault? <;> simp [hfault]
  | false =>
    have hfault : event.fault? = none := by
      cases event with
      | recorded fault address counter =>
        have herror : log.keeps .error = true := by
          rw [keeps, hthreshold]
          exact decide_eq_true (Nat.zero_le _)
        exact absurd (herror.symm.trans hkeeps) (by decide)
      | _ => rfl
    rw [add, if_neg (by simp [hkeeps]), hfault, Option.toList_none, List.append_nil]

/-- Other events leave the recorded faults as they are. -/
theorem faults_foldl_add {events : List Event} (hevents : ∀ event ∈ events, event.fault? = none)
    (log : Log) :
    (events.foldl add log).threshold = log.threshold ∧
      (log.threshold ≠ none → (events.foldl add log).faults = log.faults) := by
  induction events generalizing log with
  | nil => exact ⟨rfl, fun _ => rfl⟩
  | cons event rest ih =>
    obtain ⟨hthreshold, hfaults⟩ := ih (fun e he => hevents e (.tail _ he)) (log.add event)
    rw [threshold_add] at hthreshold hfaults
    refine ⟨hthreshold, fun hkept => ?_⟩
    rw [List.foldl_cons, hfaults hkept, faults_add hkept, hevents event (.head _),
      Option.toList_none, List.append_nil]

end Log

/-- Nothing has happened to a core but that the log was told of warnings and errors. -/
def Core.Remarked (before after : Core) : Prop :=
  ∃ remarks : List Event, (∀ event ∈ remarks, event.level = .warn ∨ event.level = .error) ∧
    after = before.reportAll remarks

namespace Core.Remarked

theorem refl (core : Core) : core.Remarked core := ⟨[], by simp, rfl⟩

theorem report (core : Core) {event : Event} (h : event.level = .warn ∨ event.level = .error) :
    core.Remarked (core.report event) :=
  ⟨[event], by simpa using h, rfl⟩

theorem trans {before between after : Core} (h : before.Remarked between)
    (h' : between.Remarked after) : before.Remarked after := by
  obtain ⟨first, hfirst, rfl⟩ := h
  obtain ⟨second, hsecond, rfl⟩ := h'
  exact ⟨first ++ second, List.forall_mem_append.2 ⟨hfirst, hsecond⟩, (reportAll_append _ _ _).symm⟩

end Core.Remarked

namespace Machine

/-! ## Phases that only make remarks -/

theorem remarked_record (m : Machine) (fault : Fault) : m.core.Remarked (m.record fault).core :=
  .report m.core (.inr rfl)

theorem remarked_emit (m : Machine) (data : List UInt8) : m.core.Remarked (m.emit data).core := by
  obtain ⟨terminal, h | ⟨reason, h⟩⟩ := m.emit_cases data
  · rw [h]
    exact .refl m.core
  · rw [h]
    exact remarked_record { m with terminal } _

theorem remarked_settle (m : Machine) (i : Instruction) (answer : Except Fault Effect) :
    m.core.Remarked (m.settle i answer).1.core := by
  cases answer with
  | ok effect =>
    cases effect with
    | proceed | jump target => exact .refl m.core
    | output byte => exact m.remarked_emit [byte]
    | halt => exact m.remarked_emit m.farewell.toUTF8.toList
  | error fault =>
    cases fault with
    | inputExhausted =>
      have hreport : m.core.Remarked (m.report (.exhausted i.address)).core :=
        .report m.core (.inl rfl)
      exact hreport.trans (remarked_record _ _)
    | _ => exact m.remarked_record _

theorem remarked_tick (m : Machine) : m.core.Remarked m.tick.core := by
  cases hmax : m.config.maxSteps with
  | none =>
    rw [tick_of_unlimited hmax]
    exact .refl m.core
  | some limit =>
    rw [tick_of_limit hmax]
    split
    · exact remarked_record { m with counter := m.counter + 1 } _
    · exact .refl m.core

theorem remarked_counted (p : Machine × Bool) : p.1.core.Remarked (counted p).core := by
  rcases p with ⟨m, _ | _⟩
  · exact .refl m.core
  · exact m.remarked_tick

/-! ## The recorded faults -/

/-- Between the two moments these faults were recorded, one after the other, and no others. -/
structure Recorded (before : Machine) (faults : List Fault) (after : Machine) : Prop where
  errorCount : after.errorCount = before.errorCount + faults.length
  lastFault : after.lastFault = faults.getLast?.or before.lastFault
  faultText : after.faultText = (faults.getLast?.map Fault.message).or before.faultText
  threshold : after.core.log.threshold = before.core.log.threshold
  log : before.core.log.threshold ≠ none →
    after.core.log.faults = before.core.log.faults ++ faults

namespace Recorded

variable {before between after : Machine} {first second : List Fault}

theorem trans (h : before.Recorded first between) (h' : between.Recorded second after) :
    before.Recorded (first ++ second) after where
  errorCount := by rw [h'.errorCount, h.errorCount, List.length_append, Nat.add_assoc]
  lastFault := by rw [h'.lastFault, h.lastFault, List.getLast?_append, Option.or_assoc]
  faultText := by
    rw [h'.faultText, h.faultText, List.getLast?_append, Option.map_or, Option.or_assoc]
  threshold := h'.threshold.trans h.threshold
  log hkept := by
    rw [h'.log (h.threshold ▸ hkept), h.log hkept, List.append_assoc]

/-- Nothing is recorded while the slot stays and the log is told of other things. -/
theorem nothing (herrors : after.errorCount = before.errorCount)
    (hlast : after.lastFault = before.lastFault) (htext : after.faultText = before.faultText)
    (events : List Event) (hevents : ∀ event ∈ events, event.fault? = none)
    (hlog : after.core.log = events.foldl Log.add before.core.log) : before.Recorded [] after := by
  obtain ⟨hthreshold, hfaults⟩ := Log.faults_foldl_add hevents before.core.log
  refine ⟨herrors, hlast, htext, ?_, fun hkept => ?_⟩
  · rw [hlog, hthreshold]
  · rw [hlog, hfaults hkept, List.append_nil]

theorem record (m : Machine) (fault : Fault) : m.Recorded [fault] (m.record fault) where
  errorCount := rfl
  lastFault := rfl
  faultText := rfl
  threshold := Log.threshold_add _ _
  log hkept := Log.faults_add hkept _

end Recorded

end Machine

end WordMachine
