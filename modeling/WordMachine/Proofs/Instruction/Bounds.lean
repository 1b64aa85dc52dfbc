import WordMachine.Proofs.Instruction.Deed

/-! # What instructions keep in bounds

The invariant of the core. Registers and stack entries are words below `0x8000`. A memory
cell that was written holds such a word too, and a cell that was never written holds what it
held in the beginning, which may be any word. Which cells were written is read off a log that
keeps everything. Only the six deeds change anything, so the invariant is proved for them and
for the lookup of a deed.
-/
namespace WordMachine

/-- The memory cell whose writing an event tells of. -/
def Event.cell? : Event → Option Word
  | .write _ (.memory address) _ => some address
  | _ => none

theorem Event.IsRead.cell? {event : Event} (h : event.IsRead) : event.cell? = none := by
  cases event with
  | read address target => rfl
  | _ => cases h

namespace Log

/-- The memory cells whose writing the log tells of. -/
def cells (log : Log) : List Word := log.newest.filterMap Event.cell?

theorem cells_add_of_none {log : Log} (h : log.threshold = some .trace) {event : Event}
    (hevent : event.cell? = none) : (log.add event).cells = log.cells := by
  rw [cells, newest_add h, List.filterMap_cons_none hevent]
  rfl

theorem cells_add_of_some {log : Log} (h : log.threshold = some .trace) {event : Event}
    {address : Word} (hevent : event.cell? = some address) :
    (log.add event).cells = address :: log.cells := by
  rw [cells, newest_add h, List.filterMap_cons_some hevent]
  rfl

end Log

/-- The address of a jump is below `0x8000`. -/
def Effect.Bounded : Effect → Prop
  | .jump target => target.toNat < 0x8000
  | _ => True

/-- What the deed puts on the stack and where it jumps is below `0x8000`. -/
def Deed.Bounded : Deed → Prop
  | .answer effect => effect.Bounded
  | .push word effect => word.toNat < 0x8000 ∧ effect.Bounded
  | _ => True

/-- Where the deed jumps, there is a cell. -/
def Deed.JumpsInside : Deed → Prop
  | .answer effect | .push _ effect => effect.Bounded
  | _ => True

/-! ## Jumps and pushes -/

namespace Instruction

theorem accounted_jumps (i : Instruction) (next : Word) (store : Store) :
    Accounted Deed.JumpsInside (fun _ => True) (i.deed next store) := by
  unfold deed resolve
  cases i.opcode with
  | halt | pop | ret | input | noop => trivial
  | set | push | not | out => exact (Accounted.any (store.value _)).bind fun _ _ => trivial
  | jmp | call => exact (Accounted.any (store.value _)).bind fun x _ => mod_modulus_lt x
  | jt | jf =>
    refine (Accounted.any (store.value _)).bind fun x _ => ?_
    split
    · exact (Accounted.any (store.value _)).bind fun y _ => mod_modulus_lt y
    · trivial
  | eq | gt | add | mult | mod | and | or =>
    refine accounted_resolveBoth (.any _) (.any _) fun x y _ _ => ?_
    exact (Accounted.any _).mono (fun _ _ => trivial) fun _ => id
  | rmem =>
    exact (Accounted.any (store.value _)).bind fun _ _ =>
      (Accounted.any (store.peek _)).bind fun _ _ => trivial
  | wmem =>
    exact (Accounted.any (store.value _)).bind fun _ _ =>
      (Accounted.any (store.value _)).bind fun _ _ => trivial

theorem accounted_perform_jumps {deed : Deed} (h : deed.JumpsInside) (core : Core) :
    Accounted Effect.Bounded (fun _ => True) (deed.perform.run core).1 := by
  cases deed with
  | answer effect | push word effect => exact h
  | assign target word => exact accounted_assign trivial (fun _ => trivial) word core
  | pop target =>
    rw [Deed.run_pop]
    cases core.stack.pop? with
    | none => trivial
    | some entry => exact accounted_assign trivial (fun _ => trivial) entry.1 _
  | ret =>
    rw [Deed.run_ret]
    cases core.stack.pop? with
    | none => trivial
    | some entry => exact mod_modulus_lt entry.1
  | input target =>
    rw [Deed.run_input]
    rcases core.input.next with ⟨byte | reason | _, rest⟩
    · exact accounted_assign trivial (fun _ => trivial) byte.toUInt16 _
    · trivial
    · trivial

/-- An instruction jumps to a memory cell, whatever registers and stack hold. -/
theorem bounded_of_execute {i : Instruction} {next : Word} {core : Core} {effect : Effect}
    (h : ((i.execute next).run core).1 = .ok effect) : effect.Bounded := by
  have hjumps : Accounted Effect.Bounded (fun _ => True) ((i.execute next).run core).1 :=
    accounted_execute (i.accounted_jumps next core.store)
      fun _ _ _ hinside => accounted_perform_jumps hinside _
  exact hjumps.of_ok h

/-- What is pushed is the address behind a call or the value of an operand. -/
theorem pushed_of_deed {i : Instruction} {next word : Word} {store : Store} {effect : Effect}
    (h : i.deed next store = .ok (.push word effect)) :
    word = next ∨ store.value i.a = .ok word := by
  rcases fits_of_deed h with hopcode | hopcode
  · simp only [deed, resolve, hopcode] at h
    obtain ⟨x, hx, h⟩ := bind_eq_ok h
    cases h
    exact .inr hx
  · simp only [deed, resolve, hopcode] at h
    obtain ⟨x, -, h⟩ := bind_eq_ok h
    cases h
    exact .inl rfl

/-- With reduced registers everything that a deed is to push or to jump to is in bounds. -/
theorem deed_bounded {i : Instruction} {next : Word} {store : Store} {deed : Deed}
    (hregisters : store.registers.Reduced) (hnext : next.toNat < 0x8000)
    (h : i.deed next store = .ok deed) : deed.Bounded := by
  have hjumps := (i.accounted_jumps next store).of_ok h
  cases deed with
  | push word effect =>
    rcases pushed_of_deed h with rfl | hvalue
    · exact ⟨hnext, hjumps⟩
    · exact ⟨Store.value_lt hregisters hvalue, hjumps⟩
  | answer effect => exact hjumps
  | assign | pop | ret | input => trivial

end Instruction

/-! ## The invariant -/

/-- Registers and stack are reduced; a memory cell was written and is reduced, or was not written
and is as it was initially. -/
structure Core.Sound (initial : Ram) (core : Core) : Prop where
  traced : core.log.threshold = some .trace
  registers : core.store.registers.Reduced
  stack : core.stack.Reduced
  cells : ∀ address, if address ∈ core.log.cells
    then (core.store.ram.get address).toNat < 0x8000
    else core.store.ram.get address = initial.get address

namespace Core.Sound

variable {initial : Ram} {core : Core}

theorem report (h : core.Sound initial) {event : Event} (hevent : event.cell? = none) :
    (core.report event).Sound initial := by
  have hcells : (core.report event).log.cells = core.log.cells :=
    Log.cells_add_of_none h.traced hevent
  refine ⟨(Log.threshold_add _ event).trans h.traced, h.registers, h.stack, ?_⟩
  rw [hcells]
  exact h.cells

theorem reportAll (h : core.Sound initial) {reads : List Event}
    (hreads : ∀ event ∈ reads, event.IsRead) : (core.reportAll reads).Sound initial := by
  induction reads generalizing core with
  | nil => exact h
  | cons event rest ih =>
    have hevent := (hreads event List.mem_cons_self).cell?
    exact ih (h.report hevent) fun e he => hreads e (List.mem_cons_of_mem event he)

theorem withStack (h : core.Sound initial) {stack : Stack} (hstack : stack.Reduced) :
    { core with stack }.Sound initial :=
  ⟨h.traced, h.registers, hstack, h.cells⟩

theorem withInput (h : core.Sound initial) (input : Input) : { core with input }.Sound initial :=
  ⟨h.traced, h.registers, h.stack, h.cells⟩

/-- A store through the address space writes a reduced word and tells of it. -/
theorem write (h : core.Sound initial) (address word : Word) :
    ((Action.write address word).run core).2.Sound initial := by
  rw [Action.run_write]
  cases htarget : Target.of address with
  | error fault => exact h
  | ok target =>
    have hword := mod_modulus_lt word
    cases target with
    | register index =>
      have hcells : (core.report (.write address (.register index) (word % modulus))).log.cells =
          core.log.cells := Log.cells_add_of_none h.traced rfl
      refine ⟨(Log.threshold_add _ _).trans h.traced, h.registers.set index hword, h.stack, ?_⟩
      show ∀ a, if a ∈ (core.report _).log.cells then _ else _
      rw [hcells]
      exact h.cells
    | memory cell =>
      have hcells : (core.report (.write address (.memory cell) (word % modulus))).log.cells =
          cell :: core.log.cells := Log.cells_add_of_some h.traced rfl
      have hinside : cell.toNat < ramSize := Target.inRange_of htarget
      refine ⟨(Log.threshold_add _ _).trans h.traced, h.registers, h.stack, fun a => ?_⟩
      show if a ∈ (core.report _).log.cells then
          ((core.store.ram.set cell (word % modulus)).get a).toNat < 0x8000
        else (core.store.ram.set cell (word % modulus)).get a = initial.get a
      rw [hcells, Ram.get_set]
      by_cases ha : cell = a
      · rw [if_pos (by rw [ha]; exact List.mem_cons_self), if_pos ⟨ha, hinside⟩]
        exact hword
      · have hmem : a ∈ cell :: core.log.cells ↔ a ∈ core.log.cells := by
          simp [Ne.symm ha]
        simp only [ha, false_and, if_false, hmem]
        exact h.cells a

theorem assign (h : core.Sound initial) (target word : Word) :
    ((Instruction.assign target word).run core).2.Sound initial := by
  have hwrite := h.write target word
  rw [Instruction.assign, Action.run_bind]
  rcases hrun : (Action.write target word).run core with ⟨fault | _, after⟩
  · rwa [hrun] at hwrite
  · rwa [hrun] at hwrite

/-- The six deeds keep the invariant if what they push is in bounds. -/
theorem perform (h : core.Sound initial) {deed : Deed} (hdeed : deed.Bounded) :
    (deed.perform.run core).2.Sound initial := by
  cases deed with
  | answer effect => exact h
  | assign target word => exact h.assign target word
  | push word effect => exact h.withStack (h.stack.push hdeed.1)
  | pop target =>
    rw [Deed.run_pop]
    cases hpop : core.stack.pop? with
    | none => exact h
    | some entry =>
      obtain ⟨word, rest⟩ := entry
      exact (h.withStack (h.stack.of_pop? hpop).2).assign target word
  | ret =>
    rw [Deed.run_ret]
    cases hpop : core.stack.pop? with
    | none => exact h
    | some entry => exact h.withStack (h.stack.of_pop? hpop).2
  | input target =>
    rw [Deed.run_input]
    rcases core.input.next with ⟨byte | reason | _, rest⟩
    · exact (h.withInput rest).assign target byte.toUInt16
    · exact h.withInput rest
    · exact h.withInput rest

/-- Executing an instruction keeps the invariant. -/
theorem execute (h : core.Sound initial) (i : Instruction) {next : Word}
    (hnext : next.toNat < 0x8000) : ((i.execute next).run core).2.Sound initial := by
  obtain ⟨reads, hreads, hrun⟩ := i.run_execute next core
  have hread := h.reportAll hreads
  rw [hrun]
  cases hdeed : i.deed next core.store with
  | error fault => exact hread
  | ok deed => exact hread.perform (Instruction.deed_bounded h.registers hnext hdeed)

end Core.Sound

end WordMachine
