import WordMachine.Proofs.Instruction.Decode
import WordMachine.Proofs.Instruction.Deed

/-! # Instructions with every check made

The store answers zero where there is no cell and leaves itself alone where nothing can be stored,
sums of words wrap around, and a remainder by zero is the dividend. None of that is meant to be
relied on. Here the same instructions look before every access, every sum, product and difference
and every division by something else than the modulus, and run into a hazard if it were to go
wrong. They never do: with all the checks made, instructions do what they do without them, whatever
words the registers, the stack and the cells hold.
-/
namespace WordMachine

/-- What must not happen, and is not a fault that a machine could record. -/
inductive Hazard where
  /-- There is no memory cell at the address. -/
  | noCell (address : Word)
  /-- There is no register of this index. -/
  | noRegister (index : Nat)
  /-- There are more words to copy than cells. -/
  | noRoom (words : Nat)
  /-- A result is not among so many numbers from zero on. -/
  | overflow (size : Nat)
  /-- More is to be taken away than there is. -/
  | underflow
  | zeroDivisor
  deriving Repr, DecidableEq

namespace Checked

/-! ## Arithmetic and access -/

/-- A result whose exact value has to be among so many numbers from zero on. -/
def fitting {α : Type} (size exact : Nat) (result : α) : Except Hazard α :=
  if exact < size then .ok result else .error (.overflow size)

theorem fitting_of_lt {α : Type} {size exact : Nat} (h : exact < size) (result : α) :
    fitting size exact result = .ok result := if_pos h

def sum (x y : UInt32) : Except Hazard UInt32 :=
  fitting UInt32.size (x.toNat + y.toNat) (x + y)

def product (x y : UInt32) : Except Hazard UInt32 :=
  fitting UInt32.size (x.toNat * y.toNat) (x * y)

def difference (x y : Word) : Except Hazard Word := if y ≤ x then .ok (x - y) else .error .underflow

def rest (x y : Word) : Except Hazard Word := if y = 0 then .error .zeroDivisor else .ok (x % y)

theorem sum_words (x y : Word) : sum x.toUInt32 y.toUInt32 = .ok (x.toUInt32 + y.toUInt32) := by
  have hx := x.toNat_lt
  have hy := y.toNat_lt
  refine fitting_of_lt ?_ _
  rw [UInt16.toNat_toUInt32, UInt16.toNat_toUInt32, UInt32.size]
  omega

theorem product_words (x y : Word) :
    product x.toUInt32 y.toUInt32 = .ok (x.toUInt32 * y.toUInt32) := by
  refine fitting_of_lt ?_ _
  rw [UInt16.toNat_toUInt32, UInt16.toNat_toUInt32]
  calc x.toNat * y.toNat < 2 ^ 16 * 2 ^ 16 := Nat.mul_lt_mul'' x.toNat_lt y.toNat_lt
    _ = 2 ^ 32 := rfl

/-- What an address stands for; the index of a register is a difference. -/
def target (address : Word) : Except Hazard (Except Fault Target) :=
  if address < modulus then .ok (.ok (.memory address))
  else if isRegister address then do
    return .ok (.register (← difference address registerBase).toNat)
  else .ok (.error (.invalidAddress address))

theorem target_eq (address : Word) : target address = .ok (Target.of address) := by
  unfold target Target.of registerIndex?
  by_cases hcell : address < modulus
  · rw [if_pos hcell, if_pos hcell]
  · rw [if_neg hcell, if_neg hcell]
    by_cases hregister : isRegister address = true
    · have hle : registerBase ≤ address := UInt16.not_lt.1 hcell
      rw [if_pos hregister, if_pos hregister, difference, if_pos hle]
      rfl
    · rw [if_neg hregister, if_neg hregister]

/-- The word at a place, which has to exist. -/
def get (store : Store) : Target → Except Hazard Word
  | .memory address => (store.ram.get? address).elim (.error (.noCell address)) .ok
  | .register index => (store.registers.get? index).elim (.error (.noRegister index)) .ok

/-- The store with a word at a place, which has to exist. -/
def set (store : Store) (place : Target) (word : Word) : Except Hazard Store :=
  match place with
  | .memory address =>
    (store.ram.set? address word).elim (.error (.noCell address)) fun ram => .ok { store with ram }
  | .register index =>
    (store.registers.set? index word).elim (.error (.noRegister index)) fun registers =>
      .ok { store with registers }

theorem get_eq (store : Store) {place : Target} (h : place.InRange) :
    get store place = .ok (store.get place) := by
  cases place with
  | memory address =>
    rw [get, store.ram.get?_of_lt h]
    rfl
  | register index =>
    rw [get, store.registers.get?_of_lt h]
    rfl

theorem set_eq (store : Store) {place : Target} (h : place.InRange) (word : Word) :
    set store place word = .ok (store.set place word) := by
  cases place with
  | memory address =>
    have hcell : store.ram.set? address word = some (store.ram.set address word) := if_pos h
    rw [set, hcell]
    rfl
  | register index =>
    have hregister : store.registers.set? index word = some (store.registers.set index word) :=
      if_pos h
    rw [set, hregister]
    rfl

/-- The address of an operand word, by two sums. -/
def place (address : Word) (index : Nat) : Except Hazard Word := do
  return wrap (← sum (← sum address.toUInt32 1) index.toUInt32)

/-- The address behind so many words. -/
def after (address : Word) (length : Nat) : Except Hazard Word := do
  return wrap (← sum address.toUInt32 (← fitting UInt16.size length length.toUInt32))

theorem sum_of_lt {x y : UInt32} (h : x.toNat + y.toNat < UInt32.size) : sum x y = .ok (x + y) :=
  fitting_of_lt h _

theorem after_eq (address : Word) {length : Nat} (h : length ≤ 4) :
    after address length = .ok (Instruction.addressAfter address length) := by
  have haddress := address.toNat_lt
  have hlength : length.toUInt32.toNat = length := Nat.mod_eq_of_lt (by omega)
  have hsum : sum address.toUInt32 length.toUInt32 =
      .ok (address.toUInt32 + length.toUInt32) := by
    refine sum_of_lt ?_
    rw [hlength, UInt16.toNat_toUInt32, UInt32.size]
    omega
  have hfits : length < UInt16.size := Nat.lt_of_le_of_lt h (by decide)
  rw [after, fitting_of_lt hfits, Instruction.addressAfter]
  show (sum _ _ >>= _) = _
  rw [hsum]
  rfl

theorem place_eq (address : Word) {index : Nat} (h : index < 3) :
    place address index = .ok (Instruction.addressAfter address (1 + index)) := by
  have haddress := address.toNat_lt
  have hindex : index.toUInt32.toNat = index := Nat.mod_eq_of_lt (by omega)
  have hnext : (address.toUInt32 + 1).toNat = address.toNat + 1 := by
    rw [UInt32.toNat_add, UInt16.toNat_toUInt32, Nat.mod_eq_of_lt]
    · rfl
    · show address.toNat + 1 < _
      omega
  have hfirst : sum address.toUInt32 1 = .ok (address.toUInt32 + 1) := by
    refine sum_of_lt ?_
    rw [UInt16.toNat_toUInt32, UInt32.size]
    show address.toNat + 1 < _
    omega
  have hsecond : sum (address.toUInt32 + 1) index.toUInt32 =
      .ok (address.toUInt32 + 1 + index.toUInt32) := by
    refine sum_of_lt ?_
    rw [hnext, hindex, UInt32.size]
    omega
  have hassoc : address.toUInt32 + 1 + index.toUInt32 =
      address.toUInt32 + (1 + index).toUInt32 := by
    rw [UInt32.add_assoc]
    exact congrArg (address.toUInt32 + ·) (UInt32.ofNat_add 1 index).symm
  rw [place, hfirst]
  show (sum _ _ >>= _) = _
  rw [hsecond, Instruction.addressAfter, ← hassoc]
  rfl

end Checked

/-! ## Actions -/

/-- An action on the core that may fault, and that may run into a hazard. -/
abbrev CheckedAction := ExceptT Fault (StateT Core (Except Hazard))

namespace CheckedAction

variable {α β : Type}

/-- Makes a check. -/
def check (x : Except Hazard α) : CheckedAction α :=
  ExceptT.mk fun core => x.map fun value => (.ok value, core)

/-- An action in which there is nothing to check. -/
def plain (x : Action α) : CheckedAction α := ExceptT.mk fun core => .ok (x.run core)

/-- The checked action runs into no hazard and does what the action does. -/
def Agrees (x : CheckedAction α) (y : Action α) : Prop := ∀ core, x.run core = .ok (y.run core)

namespace Agrees

theorem plain (x : Action α) : Agrees (CheckedAction.plain x) x := fun _ => rfl

theorem pure (value : α) : Agrees (Pure.pure value) (Pure.pure value) := fun _ => rfl

theorem bind {x : CheckedAction α} {y : Action α} {f : α → CheckedAction β} {g : α → Action β}
    (hx : Agrees x y) (hf : ∀ value, Agrees (f value) (g value)) : Agrees (x >>= f) (y >>= g) := by
  intro core
  have hrun : (x >>= f).run core =
      (x.run core >>= fun r => (ExceptT.bindCont f r.1).run r.2) := rfl
  rw [hrun, hx core, Action.run_bind]
  rcases y.run core with ⟨_ | value, after⟩
  · rfl
  · exact hf value after

theorem check_bind {x : Except Hazard α} {value : α} (h : x = .ok value)
    {f : α → CheckedAction β} {y : Action β} (hf : Agrees (f value) y) :
    Agrees (CheckedAction.check x >>= f) y := by
  subst h
  exact hf

theorem ite {condition : Prop} [Decidable condition] {x x' : CheckedAction α} {y y' : Action α}
    (hx : Agrees x y) (hx' : Agrees x' y') :
    Agrees (if condition then x else x') (if condition then y else y') := by
  split
  · exact hx
  · exact hx'

end Agrees

/-- The place that an address stands for. -/
def lookup (address : Word) : CheckedAction Target := do
  plain (Action.ofExcept (← check (Checked.target address)))

def read (address : Word) : CheckedAction Word := do
  let place ← lookup address
  plain (modify (·.report (.read address place)))
  check (Checked.get (← get).store place)

def write (address word : Word) : CheckedAction Unit := do
  let place ← lookup address
  let value := word % modulus
  let store ← check (Checked.set (← get).store place value)
  plain (modify fun core => { core.report (.write address place value) with store })

def value (raw : Word) : CheckedAction Word :=
  if raw < modulus then pure raw else read raw

theorem agrees_read (address : Word) : Agrees (read address) (Action.read address) := by
  intro core
  have htarget := Checked.target_eq address
  unfold read lookup
  rw [htarget, Action.run_read]
  cases hof : Target.of address with
  | error fault => rfl
  | ok place =>
    show (Checked.get core.store place).map _ = _
    rw [Checked.get_eq core.store (Target.inRange_of hof)]
    rfl

theorem agrees_write (address word : Word) :
    Agrees (write address word) (Action.write address word) := by
  intro core
  have htarget := Checked.target_eq address
  unfold write lookup
  rw [htarget, Action.run_write]
  cases hof : Target.of address with
  | error fault => rfl
  | ok place =>
    show ((Checked.set core.store place (word % modulus)).map _ >>= _) = _
    rw [Checked.set_eq core.store (Target.inRange_of hof)]
    rfl

theorem agrees_value (raw : Word) : Agrees (value raw) (Action.value raw) :=
  .ite (.pure raw) (agrees_read raw)

end CheckedAction

namespace Checked

open CheckedAction

def assign (target word : Word) : CheckedAction Effect := do
  write target word
  return .proceed

def jumpTo (operand : Word) : CheckedAction Effect := do
  return .jump ((← value operand) % modulus)

/-- Resolves both operands of an operation and stores its result. -/
def combine (i : Instruction) (operation : Word → Word → Except Hazard (Except Fault Word)) :
    CheckedAction Effect := do
  let x ← value i.b
  let y ← value i.c
  assign i.a (← plain (Action.ofExcept (← check (operation x y))))

/-- The remainder of a division, which needs a divisor other than zero. -/
def remainder (x y : Word) : Except Hazard (Except Fault Word) :=
  if y = 0 then .ok (.error .divisionByZero) else (rest x y).map .ok

/-- Executes an instruction whose successor in memory is at `next`. -/
def execute (i : Instruction) (next : Word) : CheckedAction Effect := do
  match i.opcode with
  | .halt => return .halt
  | .set => assign i.a (← value i.b)
  | .push =>
    plain (Action.push (← value i.a))
    return .proceed
  | .pop => assign i.a (← plain Action.pop)
  | .eq => combine i fun x y => .ok (.ok (Instruction.flag (x == y)))
  | .gt => combine i fun x y => .ok (.ok (Instruction.flag (x > y)))
  | .jmp => jumpTo i.a
  | .jt => if (← value i.a) % modulus ≠ 0 then jumpTo i.b else return .proceed
  | .jf => if (← value i.a) % modulus = 0 then jumpTo i.b else return .proceed
  | .add => combine i fun x y => return .ok (wrap (← sum x.toUInt32 y.toUInt32))
  | .mult => combine i fun x y => return .ok (wrap (← product x.toUInt32 y.toUInt32))
  | .mod => combine i remainder
  | .and => combine i fun x y => .ok (.ok (x &&& y))
  | .or => combine i fun x y => .ok (.ok (x ||| y))
  | .not => assign i.a (~~~(← value i.b) % modulus)
  | .rmem => assign i.a (← read (← value i.b))
  | .wmem =>
    let address ← value i.a
    assign address (← value i.b)
  | .call =>
    let target ← value i.a
    plain (Action.push next)
    return .jump (target % modulus)
  | .ret =>
    match ← plain Action.pop? with
    | some address => return .jump (address % modulus)
    | none => return .halt
  | .out => return .output (← value i.a).toUInt8
  | .input => assign i.a (← plain Action.readByte).toUInt16
  | .noop => return .proceed

theorem agrees_assign (target word : Word) :
    Agrees (assign target word) (Instruction.assign target word) :=
  .bind (agrees_write target word) fun _ => .pure _

theorem agrees_jumpTo (operand : Word) : Agrees (jumpTo operand) (Instruction.jumpTo operand) :=
  .bind (agrees_value operand) fun _ => .pure _

theorem agrees_combine (i : Instruction)
    {operation : Word → Word → Except Hazard (Except Fault Word)}
    {exact : Word → Word → Except Fault Word} (h : ∀ x y, operation x y = .ok (exact x y)) :
    Agrees (combine i operation) (i.combine exact) := by
  refine .bind (agrees_value i.b) fun x => .bind (agrees_value i.c) fun y => ?_
  exact .check_bind (h x y) (.bind (.plain _) fun word => agrees_assign i.a word)

theorem remainder_eq (x y : Word) : remainder x y = .ok (Instruction.remainder x y) := by
  unfold remainder Instruction.remainder rest
  split <;> rfl

/-- With all its checks made, an instruction does what it does. -/
theorem agrees_execute (i : Instruction) (next : Word) :
    Agrees (execute i next) (i.execute next) := by
  unfold execute Instruction.execute
  cases i.opcode with
  | halt | noop => exact .pure _
  | set | not => exact .bind (agrees_value _) fun _ => agrees_assign _ _
  | push => exact .bind (agrees_value _) fun word => .bind (.plain _) fun _ => .pure _
  | pop | input => exact .bind (.plain _) fun _ => agrees_assign _ _
  | eq | gt | and | or => exact agrees_combine i fun _ _ => rfl
  | add => exact agrees_combine i fun x y => by rw [sum_words]; rfl
  | mult => exact agrees_combine i fun x y => by rw [product_words]; rfl
  | mod => exact agrees_combine i remainder_eq
  | jmp => exact agrees_jumpTo _
  | jt | jf => exact .bind (agrees_value _) fun _ => .ite (agrees_jumpTo _) (.pure _)
  | rmem => exact .bind (agrees_value _) fun _ => .bind (agrees_read _) fun _ => agrees_assign _ _
  | wmem => exact .bind (agrees_value _) fun _ => .bind (agrees_value _) fun _ => agrees_assign _ _
  | call => exact .bind (agrees_value _) fun _ => .bind (.plain _) fun _ => .pure _
  | ret =>
    refine .bind (.plain _) fun entry => ?_
    cases entry with
    | some address => exact .pure _
    | none => exact .pure _
  | out => exact .bind (agrees_value _) fun _ => .pure _

/-! ## Decoding -/

def operand (address : Word) (opcode : Opcode) (index : Nat) : CheckedAction Word := do
  if index < opcode.arity then read (← check (place address index)) else return 0

/-- Decodes the instruction at an address, reading its words in order. -/
def decode (address : Word) : CheckedAction Instruction := do
  match Opcode.ofWord (← read address) with
  | .error fault => throw fault
  | .ok opcode =>
    let a ← operand address opcode 0
    let b ← operand address opcode 1
    let c ← operand address opcode 2
    return { address, opcode, a, b, c }

theorem agrees_operand (address : Word) (opcode : Opcode) {index : Nat} (h : index < 3) :
    Agrees (operand address opcode index)
      (Instruction.readOperand Action.read address opcode index) :=
  .ite (.check_bind (place_eq address h) (agrees_read _)) (.pure 0)

theorem agrees_decode (address : Word) :
    Agrees (decode address) (Instruction.decode Action.read address) := by
  refine .bind (agrees_read address) fun word => ?_
  cases Opcode.ofWord word with
  | error fault => exact .plain (throw fault)
  | ok opcode =>
    exact .bind (agrees_operand address opcode (by decide)) fun _ =>
      .bind (agrees_operand address opcode (by decide)) fun _ =>
        .bind (agrees_operand address opcode (by decide)) fun _ => .pure _

end Checked

end WordMachine
