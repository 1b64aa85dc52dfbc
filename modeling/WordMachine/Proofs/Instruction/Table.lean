import Mathlib.Logic.Function.Basic
import WordMachine.Proofs.Input
import WordMachine.Proofs.Instruction.Deed

/-! # The table of instructions

What each of the twenty-two operations does, told in natural numbers: cells and registers hold
numbers, the stack is a list with its top in front, and the input is the list of the events
still to come. `execute_eq_row` says that executing an instruction does exactly what its row
of the table says, faults and what they leave behind included.
-/
namespace WordMachine

namespace Table

/-- The state that the table speaks of. -/
@[ext]
structure State where
  cell : Nat → Nat
  register : Nat → Nat
  /-- The newest entry first. -/
  stack : List Nat
  /-- The next event first; after the last one the input has ended. -/
  input : List InputEvent

/-- What an operation answers. -/
inductive Answer where
  | proceed
  | jump (target : Nat)
  | output (byte : Nat)
  | halt
  deriving Repr, DecidableEq

/-- An answer or a fault, and the state that is left. -/
abbrev Outcome := Except Fault Answer × State

namespace State

/-- The value of an operand: a literal, the content of a register, or nothing. -/
def value (s : State) (x : Word) : Except Fault Nat :=
  if x.toNat < 32768 then .ok x.toNat
  else if x.toNat < 32776 then .ok (s.register (x.toNat - 32768))
  else .error (.invalidAddress x)

/-- Stores a number, reduced modulo 32768, in a cell. -/
def setCell (s : State) (n v : Nat) : State :=
  { s with cell := Function.update s.cell n (v % 32768) }

/-- Stores a number, reduced modulo 32768, in a register. -/
def setRegister (s : State) (n v : Nat) : State :=
  { s with register := Function.update s.register n (v % 32768) }

/-- Stores a number in the cell or register that a target names. -/
def write (s : State) (t : Word) (v : Nat) : Except Fault State :=
  if t.toNat < 32768 then .ok (s.setCell t.toNat v)
  else if t.toNat < 32776 then .ok (s.setRegister (t.toNat - 32768) v)
  else .error (.invalidAddress t)

/-- Writes a value to a target and goes on; a fault leaves the state as it is. -/
def assign (s : State) (t : Word) (v : Except Fault Nat) : Outcome :=
  match v >>= s.write t with
  | .ok after => (.ok .proceed, after)
  | .error fault => (.error fault, s)

/-- Answers without changing the state. -/
def tell (s : State) (answer : Except Fault Answer) : Outcome := (answer, s)

end State

/-- The row of an operation: what it does with its operands `a`, `b` and `c` in a state, where the
instruction is followed by `next`. -/
def row (op : Opcode) (a b c : Word) (next : Nat) (s : State) : Outcome :=
  match op with
  | .halt => s.tell (.ok .halt)
  | .set => s.assign a (s.value b)
  | .push =>
    match s.value a with
    | .ok v => (.ok .proceed, { s with stack := v :: s.stack })
    | .error fault => (.error fault, s)
  | .pop =>
    match s.stack with
    | [] => (.error .emptyStack, s)
    | v :: rest => { s with stack := rest }.assign a (.ok v)
  | .eq => s.assign a do return if (← s.value b) = (← s.value c) then 1 else 0
  | .gt => s.assign a do return if (← s.value b) > (← s.value c) then 1 else 0
  | .jmp => s.tell do return .jump (← s.value a)
  | .jt => s.tell do if (← s.value a) ≠ 0 then return .jump (← s.value b) else return .proceed
  | .jf => s.tell do if (← s.value a) = 0 then return .jump (← s.value b) else return .proceed
  | .add => s.assign a do return ((← s.value b) + (← s.value c)) % 32768
  | .mult => s.assign a do return (← s.value b) * (← s.value c) % 32768
  | .mod => s.assign a do
    let x ← s.value b
    let y ← s.value c
    if y = 0 then throw .divisionByZero else return x % y
  | .and => s.assign a do return (← s.value b) &&& (← s.value c)
  | .or => s.assign a do return (← s.value b) ||| (← s.value c)
  | .not => s.assign a do return 32767 - (← s.value b)
  | .rmem => s.assign a do return s.cell (← s.value b)
  | .wmem =>
    match (do return s.setCell (← s.value a) (← s.value b) : Except Fault State) with
    | .ok after => (.ok .proceed, after)
    | .error fault => (.error fault, s)
  | .call =>
    match s.value a with
    | .ok target => (.ok (.jump target), { s with stack := next :: s.stack })
    | .error fault => (.error fault, s)
  | .ret =>
    match s.stack with
    | [] => (.ok .halt, s)
    | target :: rest => (.ok (.jump target), { s with stack := rest })
  | .out => s.tell do return .output ((← s.value a) % 256)
  | .input =>
    match s.input with
    | [] => (.error .inputExhausted, s)
    | .endOfInput :: rest => (.error .inputExhausted, { s with input := rest })
    | .failure reason :: rest => (.error (.input reason), { s with input := rest })
    | .byte value :: rest => { s with input := rest }.assign a (.ok value.toNat)
  | .noop => s.tell (.ok .proceed)

/-- The answer in the words of the table. -/
def Answer.of : Effect → Answer
  | .proceed => .proceed
  | .jump target => .jump target.toNat
  | .output byte => .output byte.toNat
  | .halt => .halt

/-- A core in the words of the table. -/
def State.of (core : Core) : State where
  cell n := (core.store.ram.cells[n]?.getD 0).toNat
  register i := (core.store.registers.get i).toNat
  stack := core.stack.toList.reverse.map UInt16.toNat
  input := core.input.events

/-- What an action on a core comes to, in the words of the table. -/
def Outcome.of (x : Action Effect) (core : Core) : Outcome :=
  ((x.run core).1.map Answer.of, State.of (x.run core).2)

/-! ## The words of the table for a core -/

theorem State.of_reportAll (core : Core) (events : List Event) :
    State.of (core.reportAll events) = State.of core := by
  simp [State.of]

theorem register_of (core : Core) (i : Nat) :
    (State.of core).register i = (core.store.registers.get i).toNat := rfl

theorem value_of (core : Core) (x : Word) :
    (State.of core).value x = (core.store.value x).map UInt16.toNat := by
  rw [State.value, Store.value_eq]
  by_cases hliteral : x.toNat < 0x8000
  · rw [if_pos hliteral, if_pos hliteral]
    rfl
  · rw [if_neg hliteral, if_neg hliteral]
    by_cases hregister : x.toNat < 0x8008
    · rw [if_pos hregister, if_pos hregister, register_of, Except.map]
    · rw [if_neg hregister, if_neg hregister, Except.map]

theorem of_set_memory (core : Core) {a : Word} (ha : a.toNat < 0x8000) (v : Word) :
    State.of { core with store := core.store.set (.memory a) (v % modulus) } =
      (State.of core).setCell a.toNat v.toNat := by
  refine State.ext ?_ rfl rfl rfl
  funext n
  by_cases h : n = a.toNat
  · subst h
    simp [State.of, State.setCell, Store.set, Ram.set, ha]
  · simp [State.of, State.setCell, Store.set, Ram.set, Function.update_of_ne h, Ne.symm h]

theorem of_set_register (core : Core) {i : Nat} (hi : i < registerCount) (v : Word) :
    State.of { core with store := core.store.set (.register i) (v % modulus) } =
      (State.of core).setRegister i v.toNat := by
  refine State.ext rfl ?_ rfl rfl
  funext n
  by_cases h : n = i
  · subst h
    simp [State.of, State.setRegister, Store.set, Registers.get_set, hi]
  · simp [State.of, State.setRegister, Store.set, Registers.get_set, Function.update_of_ne h,
      Ne.symm h]

/-- A failed write leaves the core as it was, and a successful one does what the table says. -/
theorem write_of (core : Core) (t v : Word) :
    (State.of core).write t v.toNat =
      match (Action.write t v).run core with
      | (.ok (), after) => .ok (State.of after)
      | (.error fault, _) => .error fault := by
  rw [State.write, Action.run_write, Target.of_eq]
  by_cases hcell : t.toNat < 0x8000
  · simp only [if_pos hcell]
    exact congrArg Except.ok (of_set_memory core hcell v).symm
  · simp only [if_neg hcell]
    by_cases hregister : t.toNat < 0x8008
    · simp only [if_pos hregister]
      have hindex : t.toNat - 0x8000 < registerCount := by
        rw [registerCount]
        omega
      exact congrArg Except.ok (of_set_register core hindex v).symm
    · simp only [if_neg hregister]

theorem outcome_assign (t v : Word) (core : Core) :
    Outcome.of (Instruction.assign t v) core = (State.of core).assign t (.ok v.toNat) := by
  have hassign : (State.of core).assign t (.ok v.toNat) =
      match (State.of core).write t v.toNat with
      | .ok after => ((.ok .proceed, after) : Outcome)
      | .error fault => (.error fault, State.of core) := rfl
  rw [Outcome.of, Instruction.run_assign, hassign, write_of, Action.run_write]
  cases Target.of t <;> rfl

/-! ## Deeds -/

/-- What a deed comes to, in the words of the table. -/
def done (s : State) : Deed → Outcome
  | .answer effect => s.tell (.ok (.of effect))
  | .assign t v => s.assign t (.ok v.toNat)
  | .push v effect => (.ok (.of effect), { s with stack := v.toNat :: s.stack })
  | .pop t => row .pop t 0 0 0 s
  | .ret => row .ret 0 0 0 0 s
  | .input t => row .input t 0 0 0 s

theorem stack_of_nil {core : Core} (h : core.stack.toList = []) : (State.of core).stack = [] := by
  simp [State.of, h]

theorem stack_of_append {core : Core} {below : List Word} {w : Word}
    (h : core.stack.toList = below ++ [w]) :
    (State.of core).stack = w.toNat :: below.reverse.map UInt16.toNat := by
  simp [State.of, h]

theorem outcome_pop (t : Word) (core : Core) :
    Outcome.of (Deed.pop t).perform core = done (State.of core) (.pop t) := by
  rw [Outcome.of, Deed.run_pop]
  rcases core.stack.pop?_cases with ⟨hnil, hpop⟩ | ⟨below, w, happ, hpop⟩
  · simp only [hpop, done, row, stack_of_nil hnil]
    rfl
  · simp only [hpop, done, row, stack_of_append happ]
    exact outcome_assign t w _

theorem outcome_ret {core : Core} (hstack : core.stack.Reduced) :
    Outcome.of Deed.ret.perform core = done (State.of core) .ret := by
  rw [Outcome.of, Deed.run_ret]
  rcases core.stack.pop?_cases with ⟨hnil, hpop⟩ | ⟨below, w, happ, hpop⟩
  · simp only [hpop, done, row, stack_of_nil hnil]
    rfl
  · have hw : w.toNat < 0x8000 := hstack w (by simp [happ])
    simp only [hpop, done, row, stack_of_append happ]
    refine Prod.ext ?_ rfl
    show Except.ok (Answer.jump (w % modulus).toNat) = _
    rw [toNat_mod_modulus, Nat.mod_eq_of_lt hw]

theorem outcome_input (t : Word) (core : Core) :
    Outcome.of (Deed.input t).perform core = done (State.of core) (.input t) := by
  rw [Outcome.of, Deed.run_input]
  rcases core.input.next_cases with ⟨rest, hnil, hnext, hrest⟩ | ⟨event, rest, hcons, hnext⟩
  · have hinput : (State.of core).input = [] := hnil
    simp only [hnext, done, row, hinput]
    exact Prod.ext rfl (State.ext rfl rfl rfl (hrest.trans hnil.symm))
  · have hinput : (State.of core).input = event :: rest.events := hcons
    simp only [hnext, done, row, hinput]
    cases event with
    | byte b => exact outcome_assign t b.toUInt16 { core with input := rest }
    | failure reason => rfl
    | endOfInput => rfl

/-- Every deed does to the core what it does in the words of the table. -/
theorem outcome_perform (deed : Deed) {core : Core} (hstack : core.stack.Reduced) :
    Outcome.of deed.perform core = done (State.of core) deed := by
  cases deed with
  | answer effect => rfl
  | assign t v => exact outcome_assign t v core
  | push v effect => exact Prod.ext rfl (State.ext rfl rfl (stack_of_append (Stack.toList_push ..)) rfl)
  | pop t => exact outcome_pop t core
  | ret => exact outcome_ret hstack
  | input t => exact outcome_input t core

/-! ## Rows -/

/-- What the lookup of a deed comes to, in the words of the table. -/
def settled (s : State) : Except Fault Deed → Outcome
  | .ok deed => done s deed
  | .error fault => (.error fault, s)

theorem jump_of (x : Word) (hx : x.toNat < 0x8000) :
    Answer.jump x.toNat = .of (.jump (x % modulus)) := by
  rw [Answer.of, toNat_mod_modulus, Nat.mod_eq_of_lt hx]

theorem eq_zero_iff (x : Word) (hx : x.toNat < 0x8000) : x.toNat = 0 ↔ x % modulus = 0 := by
  rw [← UInt16.toNat_inj, toNat_mod_modulus, Nat.mod_eq_of_lt hx]
  rfl

theorem toNat_flag (condition : Bool) :
    (Instruction.flag condition).toNat = if condition then 1 else 0 := by
  cases condition <;> rfl

theorem remainder_of (x y : Word) :
    (if y.toNat = 0 then throw .divisionByZero else return x.toNat % y.toNat : Except Fault Nat) =
      (Instruction.remainder x y).map UInt16.toNat := by
  have hzero : y.toNat = 0 ↔ y = 0 := by
    rw [← UInt16.toNat_inj]
    rfl
  rw [Instruction.remainder]
  by_cases hy : y = 0
  · rw [if_pos (hzero.2 hy), if_pos hy]
    rfl
  · rw [if_neg (mt hzero.1 hy), if_neg hy, Except.map, UInt16.toNat_mod]
    rfl

section Rows

variable {core : Core} (hregisters : core.store.registers.Reduced)

include hregisters

/-- The operations on two values: it is enough that the results agree on reduced words. -/
theorem row_both (i : Instruction) {operation : Word → Word → Except Fault Word}
    {f : Nat → Nat → Except Fault Nat}
    (hf : ∀ x y : Word, x.toNat < 0x8000 → y.toNat < 0x8000 →
      f x.toNat y.toNat = (operation x y).map UInt16.toNat) :
    (State.of core).assign i.a
        (do f (← (State.of core).value i.b) (← (State.of core).value i.c)) =
      settled (State.of core) (i.resolveBoth core.store.value operation) := by
  cases hx : core.store.value i.b with
  | error fault =>
    rw [Instruction.resolveBoth, value_of, hx]
    rfl
  | ok x =>
    cases hy : core.store.value i.c with
    | error fault =>
      rw [Instruction.resolveBoth, value_of, value_of, hx, hy]
      rfl
    | ok y =>
      have h := hf x y (Store.value_lt hregisters hx) (Store.value_lt hregisters hy)
      rw [Instruction.resolveBoth_of_ok hx hy, value_of, value_of, hx, hy]
      show (State.of core).assign i.a (f x.toNat y.toNat) = _
      rw [h]
      cases operation x y <;> rfl

/-- The operations whose deed is made from one value. -/
theorem row_value (raw : Word) {f : Nat → Outcome} {g : Word → Deed}
    (hf : ∀ x : Word, x.toNat < 0x8000 → f x.toNat = done (State.of core) (g x)) :
    (match (State.of core).value raw with
      | .ok v => f v
      | .error fault => (.error fault, State.of core)) =
      settled (State.of core) (do return g (← core.store.value raw)) := by
  rw [value_of]
  cases hx : core.store.value raw with
  | error fault => rfl
  | ok x => exact hf x (Store.value_lt hregisters hx)

theorem row_jump (raw : Word) :
    (State.of core).tell (do return .jump (← (State.of core).value raw)) =
      settled (State.of core) (do return .answer (.jump ((← core.store.value raw) % modulus))) := by
  have h := row_value hregisters raw (f := fun v => (.ok (.jump v), State.of core))
    (g := fun x => .answer (.jump (x % modulus))) fun x hx => by rw [jump_of x hx]; rfl
  rw [← h]
  cases (State.of core).value raw <;> rfl

/-- The operations that jump where a condition on one value holds. -/
theorem row_branch (i : Instruction) {p : Nat → Prop} [DecidablePred p] {q : Word → Prop}
    [DecidablePred q] (hpq : ∀ x : Word, x.toNat < 0x8000 → (p x.toNat ↔ q x)) :
    (State.of core).tell (do
        if p (← (State.of core).value i.a) then return .jump (← (State.of core).value i.b)
        else return .proceed) =
      settled (State.of core) (do
        if q (← core.store.value i.a) then
          return .answer (.jump ((← core.store.value i.b) % modulus))
        else return .answer .proceed) := by
  rw [value_of core i.a]
  cases hx : core.store.value i.a with
  | error fault => rfl
  | ok x =>
    have hiff := hpq x (Store.value_lt hregisters hx)
    show (State.of core).tell (if p x.toNat then do return .jump (← (State.of core).value i.b)
        else .ok .proceed) =
      settled (State.of core) (if q x then do
          return .answer (.jump ((← core.store.value i.b) % modulus))
        else .ok (.answer .proceed))
    by_cases hq : q x
    · rw [if_pos (hiff.2 hq), if_pos hq]
      exact row_jump hregisters i.b
    · rw [if_neg (mt hiff.1 hq), if_neg hq]
      rfl

/-- The lookup of the deed of an instruction comes to the row of its operation. -/
theorem row_eq_settled (i : Instruction) (next : Word) :
    row i.opcode i.a i.b i.c next.toNat (State.of core) =
      settled (State.of core) (i.deed next core.store) := by
  unfold row Instruction.deed Instruction.resolve
  cases i.opcode with
  | halt | pop | ret | input | noop => rfl
  | set =>
    dsimp only
    rw [value_of]
    cases core.store.value i.b <;> rfl
  | push => exact row_value hregisters i.a fun _ _ => rfl
  | call => exact row_value hregisters i.a fun x hx => by rw [jump_of x hx]; rfl
  | eq =>
    refine row_both hregisters i fun x y _ _ => ?_
    rw [Except.map, toNat_flag]
    simp [UInt16.toNat_inj]
    rfl
  | gt =>
    refine row_both hregisters i fun x y _ _ => ?_
    rw [Except.map, toNat_flag]
    simp [UInt16.lt_iff_toNat_lt]
    rfl
  | jmp => exact row_jump hregisters i.a
  | jt => exact row_branch hregisters i fun x hx => not_congr (eq_zero_iff x hx)
  | jf => exact row_branch hregisters i eq_zero_iff
  | add => exact row_both hregisters i fun x y _ _ => by rw [Except.map, toNat_wrap_add]; rfl
  | mult => exact row_both hregisters i fun x y _ _ => by rw [Except.map, toNat_wrap_mul]; rfl
  | mod => exact row_both hregisters i fun x y _ _ => remainder_of x y
  | and => exact row_both hregisters i fun x y _ _ => by rw [Except.map, UInt16.toNat_and]; rfl
  | or => exact row_both hregisters i fun x y _ _ => by rw [Except.map, UInt16.toNat_or]; rfl
  | not =>
    dsimp only
    rw [value_of]
    cases hx : core.store.value i.b with
    | error fault => rfl
    | ok x =>
      have hnot : 32767 - x.toNat = (~~~x % modulus).toNat := by
        rw [toNat_not_mod_modulus, Nat.mod_eq_of_lt (Store.value_lt hregisters hx)]
      show (State.of core).assign i.a (.ok (32767 - x.toNat)) = _
      rw [hnot]
      rfl
  | rmem =>
    dsimp only
    rw [value_of]
    cases hx : core.store.value i.b with
    | error fault => rfl
    | ok x =>
      have hpeek : core.store.peek x = .ok (core.store.ram.get x) := by
        rw [Store.peek_eq, if_pos (Store.value_lt hregisters hx)]
      show _ = settled (State.of core) (do return .assign i.a (← core.store.peek x))
      rw [hpeek]
      rfl
  | wmem =>
    dsimp only
    rw [value_of, value_of]
    cases hx : core.store.value i.a with
    | error fault => rfl
    | ok x =>
      cases core.store.value i.b with
      | error fault => rfl
      | ok y =>
        have hwrite : (State.of core).write x y.toNat = .ok ((State.of core).setCell x.toNat y.toNat) := by
          rw [State.write, if_pos (Store.value_lt hregisters hx)]
        show _ = (State.of core).assign x (.ok y.toNat)
        show _ = match (State.of core).write x y.toNat with
          | .ok after => ((.ok .proceed, after) : Outcome)
          | .error fault => (.error fault, State.of core)
        rw [hwrite]
        rfl
  | out =>
    dsimp only
    rw [value_of]
    cases core.store.value i.a with
    | error fault => rfl
    | ok x =>
      show (State.of core).tell (.ok (.output (x.toNat % 256))) = _
      rw [← UInt16.toNat_toUInt8]
      rfl

end Rows

/-- **Instructions do what the table says.** On reduced registers and stack entries, and whatever
the cells hold, executing an instruction answers or faults as its row does and leaves the cells,
the registers, the stack and the input that the row leaves. -/
theorem execute_eq_row (i : Instruction) (next : Word) (core : Core)
    (hregisters : core.store.registers.Reduced) (hstack : core.stack.Reduced) :
    Outcome.of (i.execute next) core =
      row i.opcode i.a i.b i.c next.toNat (State.of core) := by
  obtain ⟨reads, -, hrun⟩ := i.run_execute next core
  rw [row_eq_settled hregisters, Outcome.of, hrun]
  cases i.deed next core.store with
  | error fault => exact Prod.ext rfl (State.of_reportAll core reads)
  | ok deed =>
    have hreads : (core.reportAll reads).stack.Reduced := by
      rwa [Core.stack_reportAll]
    have hdone := outcome_perform deed hreads
    rwa [State.of_reportAll] at hdone

/-- A sum past the top of the words starts again at zero. -/
theorem execute_add_past_top :
    let core := { Core.blank (.empty none) with store := Store.zeros.set (.register 1) 15 }
    core.store.registers.Reduced ∧ core.stack.Reduced ∧
      Outcome.of (Instruction.execute ⟨100, .add, 0x8000, 32758, 0x8001⟩ 104) core =
        (.ok .proceed, (State.of core).setRegister 0 5) := by
  intro core
  have hregisters : core.store.registers.Reduced := Registers.reduced_zeros.set 1 (by decide)
  have hstack : core.stack.Reduced := Stack.reduced_empty
  refine ⟨hregisters, hstack,
    (execute_eq_row ⟨100, .add, 0x8000, 32758, 0x8001⟩ 104 core hregisters hstack).trans ?_⟩
  have hfirst : (State.of core).value 32758 = .ok 32758 := by rw [value_of]; rfl
  have hsecond : (State.of core).value 0x8001 = .ok 15 := by rw [value_of]; rfl
  have hwrite : (State.of core).write 0x8000 5 = .ok ((State.of core).setRegister 0 5) := by
    rw [State.write]
    simp
  simp [row, hfirst, hsecond, State.assign, bind, Except.bind, pure, Except.pure, hwrite]

end Table

end WordMachine
