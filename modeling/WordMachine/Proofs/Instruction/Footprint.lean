import WordMachine.Proofs.Instruction.Decode
import WordMachine.Proofs.Instruction.Deed

/-! # Which memory cells an instruction has to do with

Decoding looks at the cells that the instruction takes up and `rmem` at one more; literals,
registers and destinations are no cells to look at. At most one cell is stored to. All other cells
have no part in it: on any memory with the same words in the cells that are looked at, an
instruction answers the same, tells the log the same and stores the same word.
-/
namespace WordMachine

namespace Ram

/-- Memory after a word was stored in a cell, if one was. -/
def storing (ram : Ram) : Option (Word × Word) → Ram
  | some (address, word) => ram.set address word
  | none => ram

theorem get_of_ge (ram : Ram) {address : Word} (h : ramSize ≤ address.toNat) :
    ram.get address = 0 := by
  rw [get, get?, Vector.getElem?_eq_none h]
  rfl

/-- Only the cell that is stored to changes. -/
theorem get_storing_of_ne (ram : Ram) {stored : Option (Word × Word)} {cell : Word}
    (h : stored.map Prod.fst ≠ some cell) : (ram.storing stored).get cell = ram.get cell := by
  cases stored with
  | none => rfl
  | some entry =>
    have hne : entry.1 ≠ cell := fun heq => h (congrArg some heq)
    rw [storing, get_set, if_neg fun hsame => hne hsame.1]

/-- Two memories have the same word in a cell where they had it before or it is stored. -/
theorem get_storing_congr {first second : Ram} {stored : Option (Word × Word)} {cell : Word}
    (h : second.get cell = first.get cell ∨ stored.map Prod.fst = some cell) :
    (second.storing stored).get cell = (first.storing stored).get cell := by
  by_cases hstored : stored.map Prod.fst = some cell
  · obtain ⟨⟨address, word⟩, rfl, rfl⟩ := Option.map_eq_some_iff.1 hstored
    rcases Nat.lt_or_ge address.toNat ramSize with hin | hout
    · rw [storing, storing, get_set, get_set, if_pos ⟨rfl, hin⟩, if_pos ⟨rfl, hin⟩]
    · rw [get_of_ge _ hout, get_of_ge _ hout]
  · rw [get_storing_of_ne _ hstored, get_storing_of_ne _ hstored]
    exact h.resolve_right hstored

end Ram

/-- The store with other memory cells. -/
def Store.withRam (store : Store) (ram : Ram) : Store := { store with ram }

/-- The core with other memory cells. -/
def Core.withRam (core : Core) (ram : Ram) : Core := { core with store := core.store.withRam ram }

theorem Core.withRam_reportAll (core : Core) (ram : Ram) (events : List Event) :
    (core.withRam ram).reportAll events = (core.reportAll events).withRam ram := by
  rw [reportAll_eq, reportAll_eq]
  rfl

/-! ## What is looked at -/

namespace Store

/-- The stores have the same registers, and the same words in these memory cells. -/
structure AgreesOn (store : Store) (cells : List Word) (other : Store) : Prop where
  registers : other.registers = store.registers
  cells : ∀ cell ∈ cells, other.ram.get cell = store.ram.get cell

variable {store other : Store} {cells : List Word}

theorem AgreesOn.refl (store : Store) (cells : List Word) : store.AgreesOn cells store :=
  ⟨rfl, fun _ _ => rfl⟩

theorem AgreesOn.peek (h : store.AgreesOn cells other) {address : Word} (hcell : address ∈ cells) :
    other.peek address = store.peek address := by
  rw [peek_eq, peek_eq, h.registers, h.cells address hcell]

/-- The value of an operand is no matter of memory. -/
theorem AgreesOn.value (h : store.AgreesOn cells other) (raw : Word) :
    other.value raw = store.value raw := by
  rw [value_eq, value_eq, h.registers]

end Store

namespace Action

variable {α β : Type}

/-- On every core whose store agrees with this one on these cells, the action has this result and
leaves nothing but certain reads in the log. -/
def Sees (x : Action α) (store : Store) (cells : List Word) (result : Except Fault α) : Prop :=
  ∃ reads : List Event, (∀ event ∈ reads, event.IsRead) ∧
    ∀ core : Core, store.AgreesOn cells core.store → x.run core = (result, core.reportAll reads)

namespace Sees

variable {store : Store} {cells : List Word}

theorem pure (a : α) : Sees (Pure.pure a) store cells (.ok a) :=
  ⟨[], by simp, fun _ _ => rfl⟩

theorem throw (fault : Fault) :
    Sees (MonadExcept.throw fault : Action α) store cells (.error fault) :=
  ⟨[], by simp, fun _ _ => rfl⟩

theorem read {address : Word} (h : address ∈ cells) :
    Sees (Action.read address) store cells (store.peek address) := by
  cases htarget : Target.of address with
  | error fault =>
    refine ⟨[], by simp, fun core hagrees => ?_⟩
    rw [← hagrees.peek h, run_read, Store.peek, htarget]
    rfl
  | ok target =>
    refine ⟨[.read address target], by simp [Event.IsRead], fun core hagrees => ?_⟩
    rw [← hagrees.peek h, run_read, Store.peek, htarget]
    rfl

theorem value (raw : Word) : Sees (Action.value raw) store cells (store.value raw) := by
  by_cases hliteral : raw < modulus
  · rw [Action.value, Store.value, if_pos hliteral, if_pos hliteral]
    exact pure raw
  · rw [Action.value, if_neg hliteral]
    cases htarget : Target.of raw with
    | error fault =>
      refine ⟨[], by simp, fun core hagrees => ?_⟩
      rw [← hagrees.value raw, run_read, Store.value, if_neg hliteral, Store.peek, htarget]
      rfl
    | ok target =>
      refine ⟨[.read raw target], by simp [Event.IsRead], fun core hagrees => ?_⟩
      rw [← hagrees.value raw, run_read, Store.value, if_neg hliteral, Store.peek, htarget]
      rfl

/-- What comes second is seen where the first has a value, and may look at cells that depend on
it. -/
theorem bind {x : Action α} {f : α → Action β} {result : Except Fault α}
    {next : α → Except Fault β} (hx : Sees x store cells result)
    (hf : ∀ a, result = .ok a → Sees (f a) store cells (next a)) :
    Sees (x >>= f) store cells (result >>= next) := by
  obtain ⟨first, hfirst, hrun⟩ := hx
  cases result with
  | error fault =>
    refine ⟨first, hfirst, fun core hagrees => ?_⟩
    rw [run_bind, hrun core hagrees]
    rfl
  | ok a =>
    obtain ⟨second, hsecond, hrest⟩ := hf a rfl
    refine ⟨first ++ second, ?_, fun core hagrees => ?_⟩
    · exact List.forall_mem_append.2 ⟨hfirst, hsecond⟩
    · have hafter : store.AgreesOn cells (core.reportAll first).store := by simpa using hagrees
      rw [run_bind, hrun core hagrees, Core.reportAll_append]
      exact hrest _ hafter

theorem ite {condition : Prop} [Decidable condition] {x y : Action α}
    {result other : Except Fault α} (hx : Sees x store cells result)
    (hy : Sees y store cells other) :
    Sees (if condition then x else y) store cells (if condition then result else other) := by
  by_cases h : condition
  · simpa only [if_pos h] using hx
  · simpa only [if_neg h] using hy

/-- What an observation answers is what it sees. -/
theorem answer_eq {x : Action α} {answer : Store → Except Fault α} {result : Except Fault α}
    (h : Sees x store cells result) (hx : Observes x answer) {other : Store}
    (hagrees : store.AgreesOn cells other) : answer other = result := by
  obtain ⟨reads, -, hsees⟩ := h
  obtain ⟨events, -, hobserves⟩ := hx other
  have hrun := hsees ⟨other, .empty, .empty, .empty none⟩ hagrees
  rw [hobserves _ rfl] at hrun
  exact (Prod.mk.inj hrun).1

end Sees

end Action

namespace Instruction

/-! ## The cells of an instruction -/

/-- The cells of the operand words of an instruction, which continue at 0 behind the top of
memory. -/
def operandCells (i : Instruction) : List Word :=
  (List.range i.opcode.arity).map fun index => addressAfter i.address (1 + index)

/-- The address that an instruction loads a word from. Only `rmem` does. -/
def loadedCells (i : Instruction) (store : Store) : List Word :=
  match i.opcode, store.value i.b with
  | .rmem, .ok address => [address]
  | _, _ => []

theorem mem_operandCells {i : Instruction} {index : Nat} (h : index < i.opcode.arity) :
    addressAfter i.address (1 + index) ∈ i.operandCells :=
  List.mem_map.2 ⟨index, List.mem_range.2 h, rfl⟩

section Decode

variable {store : Store} {address : Word} {cells : List Word}

theorem sees_readOperand (opcode : Opcode) (index : Nat)
    (hcell : index < opcode.arity → addressAfter address (1 + index) ∈ cells) :
    (readOperand Action.read address opcode index).Sees store cells
      (readOperand store.peek address opcode index) := by
  unfold readOperand
  by_cases h : index < opcode.arity
  · rw [if_pos h, if_pos h]
    exact .read (hcell h)
  · rw [if_neg h, if_neg h]
    exact .pure 0

/-- What is decoded has the operation that the first word selects. -/
theorem exists_decode_peek {word : Word} {op : Opcode} (hword : store.peek address = .ok word)
    (hop : Opcode.ofWord word = .ok op) :
    ∃ i, decode store.peek address = .ok i ∧ i.address = address ∧ i.opcode = op := by
  refine ⟨⟨address, op, operandAt store.ram address op 0, operandAt store.ram address op 1,
    operandAt store.ram address op 2⟩, ?_, rfl, rfl⟩
  rw [decode, hword]
  simp only [bind, Except.bind, hop, readOperand_peek]
  rfl

/-- Decoding looks at the first word and at the operand words of what it finds. -/
theorem sees_decode (haddress : address ∈ cells)
    (hoperands : ∀ i, decode store.peek address = .ok i → ∀ cell ∈ i.operandCells, cell ∈ cells) :
    (decode Action.read address).Sees store cells (decode store.peek address) := by
  unfold decode
  refine .bind (.read haddress) fun word hword => ?_
  cases hop : Opcode.ofWord word with
  | error fault => exact .throw fault
  | ok op =>
    obtain ⟨i, hdecode, rfl, rfl⟩ := exists_decode_peek hword hop
    have hcell : ∀ index, index < i.opcode.arity →
        addressAfter i.address (1 + index) ∈ cells :=
      fun index hindex => hoperands i hdecode _ (mem_operandCells hindex)
    exact .bind (sees_readOperand i.opcode 0 (hcell 0)) fun _ _ =>
      .bind (sees_readOperand i.opcode 1 (hcell 1)) fun _ _ =>
        .bind (sees_readOperand i.opcode 2 (hcell 2)) fun _ _ => .pure _

end Decode

section Resolve

variable {i : Instruction} {store : Store} {cells : List Word}

theorem sees_resolveBoth (operation : Word → Word → Except Fault Word) :
    (i.resolveBoth Action.value operation).Sees store cells
      (i.resolveBoth store.value operation) := by
  refine .bind (.value i.b) fun x _ => .bind (.value i.c) fun y _ => ?_
  cases operation x y with
  | ok word => exact .pure _
  | error fault => exact .throw _

/-- What an instruction is to do is looked up at no cell but the one that `rmem` loads from. -/
theorem sees_resolve (hloaded : ∀ cell ∈ i.loadedCells store, cell ∈ cells) (next : Word) :
    (i.resolve Action.value Action.read next).Sees store cells (i.deed next store) := by
  unfold deed resolve
  cases hopcode : i.opcode with
  | halt | pop | ret | input | noop => exact .pure _
  | set | push | jmp | not | call | out => exact .bind (.value _) fun _ _ => .pure _
  | eq | gt | add | mult | mod | and | or => exact sees_resolveBoth _
  | jt | jf =>
    exact .bind (.value _) fun _ _ => .ite (.bind (.value _) fun _ _ => .pure _) (.pure _)
  | rmem =>
    refine .bind (.value _) fun address haddress => .bind (.read ?_) fun _ _ => .pure _
    exact hloaded address (by simp [loadedCells, hopcode, haddress])
  | wmem => exact .bind (.value _) fun _ _ => .bind (.value _) fun _ _ => .pure _

end Resolve

/-! ## The cell that is stored to -/

/-- Where an instruction stores if it succeeds: at its first operand word, or for `wmem` at the
value of its first operand. -/
def destination? (i : Instruction) (store : Store) : Option Word :=
  match i.opcode with
  | .set | .pop | .eq | .gt | .add | .mult | .mod | .and | .or | .not | .rmem | .input => some i.a
  | .wmem => (store.value i.a).toOption
  | .halt | .push | .jmp | .jt | .jf | .call | .ret | .out | .noop => none

/-- The memory cell at a destination, if there is one and the instruction has succeeded. -/
def cellOf (destination : Option Word) : Except Fault Effect → Option Word
  | .ok .proceed => destination.filter (· < modulus)
  | _ => none

/-- The memory cell that an instruction with this answer has stored to, if any. -/
def storedCell? (i : Instruction) (store : Store) (answer : Except Fault Effect) : Option Word :=
  cellOf (i.destination? store) answer

end Instruction

/-- Where the deed stores, if it stores at all. -/
def Deed.destination? : Deed → Option Word
  | .assign target _ | .pop target | .input target => some target
  | .answer _ | .push .. | .ret => none

namespace Instruction

theorem destination?_of_deed {i : Instruction} {next : Word} {store : Store} {deed : Deed}
    (h : i.deed next store = .ok deed) : i.destination? store = deed.destination? := by
  unfold Instruction.deed resolve at h
  unfold destination?
  cases hopcode : i.opcode <;> simp only [hopcode] at h ⊢
  case halt | noop | pop | ret | input =>
    obtain rfl := Except.ok.inj h
    rfl
  case set | jmp | not | out | push | call =>
    obtain ⟨x, -, h⟩ := bind_eq_ok h
    obtain rfl := Except.ok.inj h
    rfl
  case eq | gt | add | mult | mod | and | or =>
    obtain ⟨word, rfl⟩ := resolveBoth_eq_ok h
    rfl
  case jt | jf =>
    obtain ⟨x, -, h⟩ := bind_eq_ok h
    split at h
    · obtain ⟨y, -, h⟩ := bind_eq_ok h
      obtain rfl := Except.ok.inj h
      rfl
    · obtain rfl := Except.ok.inj h
      rfl
  case rmem =>
    obtain ⟨x, -, h⟩ := bind_eq_ok h
    obtain ⟨y, -, h⟩ := bind_eq_ok h
    obtain rfl := Except.ok.inj h
    rfl
  case wmem =>
    obtain ⟨x, hx, h⟩ := bind_eq_ok h
    obtain ⟨y, -, h⟩ := bind_eq_ok h
    obtain rfl := Except.ok.inj h
    rw [hx]
    rfl

/-- On any memory the action has the same result and stores the same word, if it stores any, in this
cell. -/
def StoresAt (x : Action Effect) (core : Core) (cell : Option Word) : Prop :=
  ∃ stored : Option (Word × Word), stored.map Prod.fst = cell ∧
    ∀ ram, x.run (core.withRam ram) =
      ((x.run core).1, (x.run core).2.withRam (ram.storing stored))

theorem StoresAt.untouched {x : Action Effect} {core : Core}
    (h : ∀ ram, x.run (core.withRam ram) = ((x.run core).1, (x.run core).2.withRam ram)) :
    StoresAt x core none :=
  ⟨none, rfl, h⟩

theorem StoresAt.of_run {x y : Action Effect} {core other : Core} {cell : Option Word}
    (h : StoresAt y other cell) (hself : x.run core = y.run other)
    (hrun : ∀ ram, x.run (core.withRam ram) = y.run (other.withRam ram)) :
    StoresAt x core cell := by
  obtain ⟨stored, hcell, hstores⟩ := h
  refine ⟨stored, hcell, fun ram => ?_⟩
  rw [hrun, hself]
  exact hstores ram

theorem cellOf_none (answer : Except Fault Effect) : cellOf none answer = none := by
  unfold cellOf
  split <;> rfl

theorem storesAt_assign (target word : Word) (core : Core) :
    StoresAt (assign target word) core
      (cellOf (some target) ((assign target word).run core).1) := by
  by_cases hcell : target.toNat < 0x8000
  · have hof : Target.of target = .ok (.memory target) := by rw [Target.of_eq, if_pos hcell]
    have hanswer : ((assign target word).run core).1 = .ok .proceed := by rw [run_assign, hof]
    rw [hanswer, cellOf, Option.filter_some, if_pos (decide_eq_true ((lt_modulus_iff _).2 hcell))]
    refine ⟨some (target, word % modulus), rfl, fun ram => ?_⟩
    rw [run_assign, run_assign, hof]
    rfl
  · have hnone : cellOf (some target) ((assign target word).run core).1 = none := by
      unfold cellOf
      split
      · exact Option.filter_some_neg (by simpa [lt_modulus_iff] using hcell)
      · rfl
    rw [hnone]
    refine .untouched fun ram => ?_
    rw [run_assign, run_assign, Target.of_eq, if_neg hcell]
    by_cases hregister : target.toNat < 0x8008
    · rw [if_pos hregister]
      rfl
    · rw [if_neg hregister]

/-- A deed stores at its destination, if it comes to that. -/
theorem storesAt_perform (deed : Deed) (core : Core) :
    StoresAt deed.perform core (cellOf deed.destination? (deed.perform.run core).1) := by
  cases deed with
  | answer effect | push word effect =>
    rw [Deed.destination?, cellOf_none]
    exact .untouched fun _ => rfl
  | assign target word => exact storesAt_assign target word core
  | pop target =>
    have hrun : ∀ ram, _ := fun ram => Deed.run_pop target (core.withRam ram)
    have hself := Deed.run_pop target core
    cases hpop : core.stack.pop? with
    | none =>
      rw [hpop] at hself
      rw [hself]
      refine .untouched fun ram => ?_
      rw [hrun, hself, show (core.withRam ram).stack = core.stack from rfl, hpop]
    | some entry =>
      rw [hpop] at hself
      rw [hself]
      refine (storesAt_assign target entry.1 _).of_run hself fun ram => ?_
      rw [hrun, show (core.withRam ram).stack = core.stack from rfl, hpop]
      rfl
  | ret =>
    rw [Deed.destination?, cellOf_none]
    refine .untouched fun ram => ?_
    rw [Deed.run_ret, Deed.run_ret, show (core.withRam ram).stack = core.stack from rfl]
    cases core.stack.pop? <;> rfl
  | input target =>
    have hrun : ∀ ram, _ := fun ram => Deed.run_input target (core.withRam ram)
    have hself := Deed.run_input target core
    rcases hnext : core.input.next with ⟨byte | reason | _, rest⟩
    · rw [hnext] at hself
      rw [hself]
      refine (storesAt_assign target byte.toUInt16 _).of_run hself fun ram => ?_
      rw [hrun, show (core.withRam ram).input = core.input from rfl, hnext]
      rfl
    · rw [hnext] at hself
      rw [hself]
      refine .untouched fun ram => ?_
      rw [hrun, hself, show (core.withRam ram).input = core.input from rfl, hnext]
      rfl
    · rw [hnext] at hself
      rw [hself]
      refine .untouched fun ram => ?_
      rw [hrun, hself, show (core.withRam ram).input = core.input from rfl, hnext]
      rfl

/-- On any memory with the same words in the cells that it loads from, an instruction answers the
same and stores the same word in the same cell, if it stores any. -/
theorem execute_withRam (i : Instruction) (next : Word) (core : Core) :
    ∃ stored : Option (Word × Word),
      stored.map Prod.fst = i.storedCell? core.store ((i.execute next).run core).1 ∧
      ∀ ram, core.store.AgreesOn (i.loadedCells core.store) (core.store.withRam ram) →
        (i.execute next).run (core.withRam ram) =
          (((i.execute next).run core).1,
            ((i.execute next).run core).2.withRam (ram.storing stored)) := by
  have hresolve : (i.resolve Action.value Action.read next).Sees core.store
      (i.loadedCells core.store) (i.deed next core.store) := sees_resolve (fun _ h => h) next
  obtain ⟨reads, -, hsees⟩ := hresolve
  have hrun := hsees core (.refl _ _)
  simp only [execute_eq, Action.run_bind, hrun]
  cases hdeed : i.deed next core.store with
  | error fault =>
    refine ⟨none, rfl, fun ram hagrees => ?_⟩
    rw [hsees (core.withRam ram) hagrees, hdeed, Core.withRam_reportAll]
    rfl
  | ok deed =>
    obtain ⟨stored, hcell, hstores⟩ := storesAt_perform deed (core.reportAll reads)
    refine ⟨stored, ?_, fun ram hagrees => ?_⟩
    · rw [hcell, storedCell?, destination?_of_deed hdeed]
    · rw [hsees (core.withRam ram) hagrees, hdeed, Core.withRam_reportAll]
      exact hstores ram

end Instruction

end WordMachine
