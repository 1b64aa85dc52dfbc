import WordMachine.Proofs.Instruction.Deed

/-! # The log as a redo log

A log that keeps everything tells of each write where it went and what was stored. Redoing what it
tells, one event after the other, makes the later store out of the earlier one. `Core.Redo` says so
of two moments of a core, and `Core.Tells` counts the writes between them. Only an instruction that
proceeds has written, and it has written once.
-/
namespace WordMachine

namespace Event

/-- Whether an event tells of a write. -/
def isWrite : Event → Bool
  | .write .. => true
  | _ => false

/-- Stores the value of a write at its target. -/
def redo (store : Store) : Event → Store
  | .write _ target value => store.set target value
  | _ => store

/-- A write has gone where its address says, and its value is below `0x8000`. -/
def Proper : Event → Prop
  | .write address target value => Target.of address = .ok target ∧ value.toNat < 0x8000
  | _ => True

theorem redo_of_not_write {event : Event} (h : event.isWrite = false) (store : Store) :
    redo store event = store := by
  cases event <;> first | rfl | cases h

theorem proper_of_not_write {event : Event} (h : event.isWrite = false) : event.Proper := by
  cases event <;> trivial

theorem IsRead.not_write {event : Event} (h : event.IsRead) : event.isWrite = false := by
  cases event with
  | read address target => rfl
  | _ => exact h.elim

end Event

/-- The store after events were redone one after the other. -/
def Store.redo (store : Store) (events : List Event) : Store := events.foldl Event.redo store

theorem Store.redo_append (store : Store) (first second : List Event) :
    store.redo (first ++ second) = (store.redo first).redo second :=
  List.foldl_append

/-- A log that keeps everything has the newest event at its end. -/
theorem Log.events_add {log : Log} (h : log.threshold = some .trace) (event : Event) :
    (log.add event).events = log.events ++ [event] := by
  rw [events, newest_add h, List.reverse_cons]
  rfl

namespace Core

/-- The log tells of these events between the two moments, and redoing them makes the later store
out of the earlier one. -/
structure Redo (before : Core) (events : List Event) (after : Core) : Prop where
  threshold : after.log.threshold = before.log.threshold
  log : after.log.events = before.log.events ++ events
  store : before.store.redo events = after.store
  proper : ∀ event ∈ events, event.Proper

theorem Redo.trans {before between after : Core} {first second : List Event}
    (h : before.Redo first between) (h' : between.Redo second after) :
    before.Redo (first ++ second) after where
  threshold := h'.threshold.trans h.threshold
  log := by rw [h'.log, h.log, List.append_assoc]
  store := by rw [Store.redo_append, h.store, h'.store]
  proper := List.forall_mem_append.2 ⟨h.proper, h'.proper⟩

/-- If everything is logged, the log tells of all writes between the two moments, and there are at
most so many. -/
def Tells (n : Nat) (before after : Core) : Prop :=
  before.log.threshold = some .trace →
    ∃ events, before.Redo events after ∧ events.countP Event.isWrite ≤ n

namespace Tells

variable {before between after : Core} {n k : Nat}

/-- What touches neither the store nor the log goes untold. -/
theorem of_same (hstore : after.store = before.store) (hlog : after.log = before.log) :
    before.Tells 0 after := by
  intro _
  refine ⟨[], ⟨by rw [hlog], by rw [hlog, List.append_nil], hstore.symm, by simp⟩, by simp⟩

theorem refl (core : Core) : core.Tells 0 core := of_same rfl rfl

theorem mono (h : before.Tells n after) (hle : n ≤ k) : before.Tells k after := by
  intro htrace
  obtain ⟨events, hredo, hcount⟩ := h htrace
  exact ⟨events, hredo, Nat.le_trans hcount hle⟩

theorem trans (h : before.Tells n between) (h' : between.Tells k after) :
    before.Tells (n + k) after := by
  intro htrace
  obtain ⟨first, hfirst, hn⟩ := h htrace
  obtain ⟨second, hsecond, hk⟩ := h' (hfirst.threshold.trans htrace)
  refine ⟨first ++ second, hfirst.trans hsecond, ?_⟩
  rw [List.countP_append]
  exact Nat.add_le_add hn hk

/-- What happens beforehand without writing does not count. -/
theorem following (h : between.Tells n after) (hbefore : before.Tells 0 between) :
    before.Tells n after := by
  rw [← Nat.zero_add n]
  exact hbefore.trans h

theorem report (core : Core) {event : Event} (h : event.isWrite = false) :
    core.Tells 0 (core.report event) := by
  intro htrace
  refine ⟨[event], ⟨Log.threshold_add _ _, Log.events_add htrace event, ?_, ?_⟩, by simp [h]⟩
  · exact event.redo_of_not_write h core.store
  · simpa using event.proper_of_not_write h

theorem reportAll {events : List Event} (hevents : ∀ event ∈ events, event.isWrite = false)
    (core : Core) : core.Tells 0 (core.reportAll events) := by
  induction events generalizing core with
  | nil => exact refl core
  | cons event rest ih =>
    have hrest := ih (fun e he => hevents e (by simp [he])) (core.report event)
    exact hrest.following (report core (hevents event (by simp)))

theorem of_reads {reads : List Event} (hreads : ∀ event ∈ reads, event.IsRead) (core : Core) :
    core.Tells 0 (core.reportAll reads) :=
  reportAll (fun event hevent => (hreads event hevent).not_write) core

end Tells

/-- A store through the address space is told of with the place and the word that was stored. -/
theorem redo_write {core : Core} (htrace : core.log.threshold = some .trace) {address : Word}
    {target : Target} (htarget : Target.of address = .ok target) (word : Word) :
    core.Redo [.write address target (word % modulus)]
      ((Action.write address word).run core).2 := by
  rw [Action.run_write, htarget]
  refine ⟨Log.threshold_add _ _, Log.events_add htrace _, rfl, ?_⟩
  simpa [Event.Proper] using ⟨htarget, mod_modulus_lt word⟩

end Core

/-! ## Instructions -/

namespace Instruction

/-- How often an instruction with this answer has written. -/
def writesAtMost : Except Fault Effect → Nat
  | .ok .proceed => 1
  | _ => 0

theorem tells_assign (target word : Word) (core : Core) :
    core.Tells (writesAtMost ((assign target word).run core).1)
      ((assign target word).run core).2 := by
  rw [run_assign]
  cases htarget : Target.of target with
  | error fault => exact .refl core
  | ok found =>
    intro htrace
    have hredo := Core.redo_write htrace htarget word
    rw [Action.run_write, htarget] at hredo
    exact ⟨_, hredo, by simp [writesAtMost, Event.isWrite]⟩

theorem tells_perform (deed : Deed) (core : Core) :
    core.Tells (writesAtMost (deed.perform.run core).1) (deed.perform.run core).2 := by
  cases deed with
  | answer effect => exact (Core.Tells.refl core).mono (Nat.zero_le _)
  | assign target word => exact tells_assign target word core
  | push word effect =>
    have hpushed : core.Tells 0 { core with stack := core.stack.push word } := .of_same rfl rfl
    exact hpushed.mono (Nat.zero_le _)
  | pop target =>
    rw [Deed.run_pop]
    cases core.stack.pop? with
    | none => exact .refl core
    | some entry => exact (tells_assign target entry.1 _).following (.of_same rfl rfl)
  | ret =>
    rw [Deed.run_ret]
    cases core.stack.pop? <;> exact .of_same rfl rfl
  | input target =>
    rw [Deed.run_input]
    rcases core.input.next with ⟨byte | reason | _, rest⟩
    · exact (tells_assign target byte.toUInt16 _).following (.of_same rfl rfl)
    · exact .of_same rfl rfl
    · exact .of_same rfl rfl

/-- An instruction is told of with its one write if it proceeds, and has not written otherwise. -/
theorem tells_execute (i : Instruction) (next : Word) (core : Core) :
    core.Tells (writesAtMost ((i.execute next).run core).1) ((i.execute next).run core).2 := by
  obtain ⟨reads, hreads, hrun⟩ := i.run_execute next core
  have hlooked := Core.Tells.of_reads hreads core
  rw [hrun]
  cases i.deed next core.store with
  | error fault => exact hlooked
  | ok deed => exact (tells_perform deed _).following hlooked

end Instruction

end WordMachine
