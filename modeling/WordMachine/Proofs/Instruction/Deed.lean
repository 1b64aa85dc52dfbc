import WordMachine.Instruction.Execute
import WordMachine.Proofs.Core

/-! # What instructions do once their operands are known

Every instruction first looks and then acts. The looking resolves its operands and changes
nothing; what is left to do is one of six deeds. `run_execute` says that executing an
instruction is looking up its deed and performing it, so that a property of all instructions
is a property of the lookup and of six deeds.
-/
namespace WordMachine

/-- The property holds of the value, or there is a fault and it has a cause. -/
def Accounted {α : Type} (P : α → Prop) (C : Fault → Prop) : Except Fault α → Prop
  | .ok value => P value
  | .error fault => C fault

namespace Accounted

variable {α β : Type} {P : α → Prop} {Q : β → Prop} {C : Fault → Prop}

theorem of_ok {x : Except Fault α} {value : α} (h : Accounted P C x) (hx : x = .ok value) :
    P value := by
  subst hx
  exact h

theorem of_error {x : Except Fault α} {fault : Fault} (h : Accounted P C x)
    (hx : x = .error fault) : C fault := by
  subst hx
  exact h

theorem any (x : Except Fault α) : Accounted (fun _ => True) (fun _ => True) x := by
  cases x <;> trivial

theorem bind {x : Except Fault α} {f : α → Except Fault β} (hx : Accounted P C x)
    (hf : ∀ value, P value → Accounted Q C (f value)) : Accounted Q C (x >>= f) := by
  cases x with
  | error fault => exact hx
  | ok value => exact hf value hx

theorem mono {R : α → Prop} {D : Fault → Prop} {x : Except Fault α} (hx : Accounted P C x)
    (hvalue : ∀ value, P value → R value) (hfault : ∀ fault, C fault → D fault) :
    Accounted R D x := by
  cases x with
  | error fault => exact hfault fault hx
  | ok value => exact hvalue value hx

/-- Only a word that stands for nothing has no value. -/
theorem value (store : Store) {raw : Word}
    (hinvalid : 0x8008 ≤ raw.toNat → C (.invalidAddress raw)) :
    Accounted (fun w => store.value raw = .ok w) C (store.value raw) := by
  cases hvalue : store.value raw with
  | ok w => rfl
  | error fault =>
    rw [Store.value_eq] at hvalue
    split at hvalue
    · cases hvalue
    split at hvalue
    · cases hvalue
    · obtain rfl := Except.error.inj hvalue
      exact hinvalid (by omega)

theorem peek (store : Store) {address : Word}
    (hinvalid : 0x8008 ≤ address.toNat → C (.invalidAddress address)) :
    Accounted (fun _ => True) C (store.peek address) := by
  rw [Store.peek_eq]
  split
  · trivial
  split
  · trivial
  · exact hinvalid (by omega)

end Accounted

/-- What an instruction does once its operands are known. -/
inductive Deed where
  /-- Answers and changes nothing. -/
  | answer (effect : Effect)
  | assign (target word : Word)
  | push (word : Word) (effect : Effect)
  | pop (target : Word)
  | ret
  | input (target : Word)
  deriving Repr, DecidableEq

namespace Deed

/-- Does the deed. -/
def perform : Deed → Action Effect
  | answer effect => return effect
  | assign target word => Instruction.assign target word
  | push word effect => do
    Action.push word
    return effect
  | pop target => do Instruction.assign target (← Action.pop)
  | ret => do
    match ← Action.pop? with
    | some address => return .jump (address % modulus)
    | none => return .halt
  | input target => do Instruction.assign target (← Action.readByte).toUInt16

end Deed

namespace Instruction

section Resolve

variable {m : Type → Type} [Monad m] [MonadExceptOf Fault m]

/-- Resolves both operands of an operation, whose result is to be stored. -/
def resolveBoth (value : Word → m Word) (i : Instruction)
    (operation : Word → Word → Except Fault Word) : m Deed := do
  let x ← value i.b
  let y ← value i.c
  match operation x y with
  | .ok word => return .assign i.a word
  | .error fault => throw fault

/-- Looks up what an instruction is to do, given how operands are resolved and addresses read. -/
def resolve (value read : Word → m Word) (i : Instruction) (next : Word) : m Deed := do
  match i.opcode with
  | .halt => return .answer .halt
  | .set => return .assign i.a (← value i.b)
  | .push => return .push (← value i.a) .proceed
  | .pop => return .pop i.a
  | .eq => i.resolveBoth value fun x y => .ok (flag (x == y))
  | .gt => i.resolveBoth value fun x y => .ok (flag (x > y))
  | .jmp => return .answer (.jump ((← value i.a) % modulus))
  | .jt =>
    if (← value i.a) % modulus ≠ 0 then return .answer (.jump ((← value i.b) % modulus))
    else return .answer .proceed
  | .jf =>
    if (← value i.a) % modulus = 0 then return .answer (.jump ((← value i.b) % modulus))
    else return .answer .proceed
  | .add => i.resolveBoth value fun x y => .ok (wrap (x.toUInt32 + y.toUInt32))
  | .mult => i.resolveBoth value fun x y => .ok (wrap (x.toUInt32 * y.toUInt32))
  | .mod => i.resolveBoth value remainder
  | .and => i.resolveBoth value fun x y => .ok (x &&& y)
  | .or => i.resolveBoth value fun x y => .ok (x ||| y)
  | .not => return .assign i.a (~~~(← value i.b) % modulus)
  | .rmem => return .assign i.a (← read (← value i.b))
  | .wmem =>
    let address ← value i.a
    return .assign address (← value i.b)
  | .call => return .push next (.jump ((← value i.a) % modulus))
  | .ret => return .ret
  | .out => return .answer (.output (← value i.a).toUInt8)
  | .input => return .input i.a
  | .noop => return .answer .proceed

end Resolve

/-- The deed of an instruction in a store, or the fault of looking it up. -/
def deed (i : Instruction) (next : Word) (store : Store) : Except Fault Deed :=
  i.resolve store.value store.peek next

/-- An operation on two values is accounted for by its operands and by what it does to them. -/
theorem accounted_resolveBoth {P : Deed → Prop} {C : Fault → Prop} {X Y : Word → Prop}
    {i : Instruction} {value : Word → Except Fault Word} {operation : Word → Word → Except Fault Word}
    (hfirst : Accounted X C (value i.b)) (hsecond : Accounted Y C (value i.c))
    (hoperation : ∀ x y, X x → Y y → Accounted (fun word => P (.assign i.a word)) C (operation x y)) :
    Accounted P C (i.resolveBoth value operation) := by
  refine hfirst.bind fun x hx => hsecond.bind fun y hy => ?_
  have hresult := hoperation x y hx hy
  cases hword : operation x y with
  | ok word => exact hresult.of_ok hword
  | error fault => exact hresult.of_error hword

theorem resolveBoth_of_ok {i : Instruction} {value : Word → Except Fault Word} {x y : Word}
    (hx : value i.b = .ok x) (hy : value i.c = .ok y)
    (operation : Word → Word → Except Fault Word) :
    i.resolveBoth value operation = (operation x y).map (.assign i.a) := by
  simp only [resolveBoth, hx, hy, bind, Except.bind]
  cases operation x y <;> rfl

/-- What both operands are resolved for is to store a word at the first one. -/
theorem resolveBoth_eq_ok {i : Instruction} {value : Word → Except Fault Word}
    {operation : Word → Word → Except Fault Word} {deed : Deed}
    (h : i.resolveBoth value operation = .ok deed) : ∃ word, deed = .assign i.a word := by
  obtain ⟨x, -, h⟩ := bind_eq_ok h
  obtain ⟨y, -, h⟩ := bind_eq_ok h
  cases hresult : operation x y with
  | ok word =>
    rw [hresult] at h
    exact ⟨word, (Except.ok.inj h).symm⟩
  | error fault =>
    rw [hresult] at h
    cases h

theorem observes_resolveBoth (i : Instruction) (operation : Word → Word → Except Fault Word) :
    (i.resolveBoth Action.value operation).Observes
      fun store => i.resolveBoth store.value operation := by
  refine .bind (.value i.b) fun x => .bind (.value i.c) fun y => ?_
  cases operation x y with
  | ok word => exact .pure _
  | error fault => exact .throw _

theorem observes_resolve (i : Instruction) (next : Word) :
    (i.resolve Action.value Action.read next).Observes (i.deed next) := by
  unfold deed resolve
  cases i.opcode with
  | halt | pop | ret | input | noop => exact .pure _
  | set | push | jmp | not | call | out => exact .bind (.value _) fun _ => .pure _
  | eq | gt | add | mult | mod | and | or => exact observes_resolveBoth i _
  | jt | jf =>
    exact .bind (.value _) fun _ => .ite (.bind (.value _) fun _ => .pure _) (.pure _)
  | rmem => exact .bind (.value _) fun _ => .bind (.read _) fun _ => .pure _
  | wmem => exact .bind (.value _) fun _ => .bind (.value _) fun _ => .pure _

theorem combine_eq (i : Instruction) (operation : Word → Word → Except Fault Word) :
    i.combine operation = i.resolveBoth Action.value operation >>= Deed.perform := by
  simp only [combine, resolveBoth, bind_assoc]
  congr 1
  funext x
  congr 1
  funext y
  cases operation x y with
  | ok word => simp [Action.ofExcept, Deed.perform]
  | error fault => rfl

/-- Executing an instruction is looking up its deed and performing it. -/
theorem execute_eq (i : Instruction) (next : Word) :
    i.execute next = i.resolve Action.value Action.read next >>= Deed.perform := by
  unfold execute resolve
  cases i.opcode with
  | halt | pop | ret | input | noop => rfl
  | set | push | jmp | not | rmem | wmem | call | out => simp [Deed.perform, jumpTo]
  | eq | gt | add | mult | mod | and | or => exact combine_eq i _
  | jt | jf =>
    simp only [bind_assoc]
    congr 1
    funext x
    split <;> simp [Deed.perform, jumpTo]

theorem run_execute (i : Instruction) (next : Word) (core : Core) :
    ∃ reads : List Event, (∀ event ∈ reads, event.IsRead) ∧
      (i.execute next).run core =
        match i.deed next core.store with
        | .ok deed => deed.perform.run (core.reportAll reads)
        | .error fault => (.error fault, core.reportAll reads) := by
  obtain ⟨reads, hreads, hrun⟩ := (observes_resolve i next).run_bind Deed.perform core
  refine ⟨reads, hreads, ?_⟩
  rw [execute_eq, hrun]
  cases i.deed next core.store <;> rfl

/-! ## Which instructions come to which deeds -/

/-- The instruction is one that may come to the deed. Only `pop`, `ret` and `in` come to deeds of
their own. -/
def Fits (i : Instruction) : Deed → Prop
  | .answer _ | .assign .. => True
  | .push .. => i.opcode = .push ∨ i.opcode = .call
  | .pop target => i.opcode = .pop ∧ target = i.a
  | .ret => i.opcode = .ret
  | .input target => i.opcode = .input ∧ target = i.a

theorem fits_of_deed {i : Instruction} {next : Word} {store : Store} {deed : Deed}
    (h : i.deed next store = .ok deed) : i.Fits deed := by
  unfold Instruction.deed resolve at h
  cases hopcode : i.opcode <;> simp only [hopcode] at h
  case halt | noop =>
    obtain rfl := Except.ok.inj h
    trivial
  case pop | ret | input =>
    obtain rfl := Except.ok.inj h
    simp [Fits, hopcode]
  case set | jmp | not | out =>
    obtain ⟨x, -, h⟩ := bind_eq_ok h
    obtain rfl := Except.ok.inj h
    trivial
  case push | call =>
    obtain ⟨x, -, h⟩ := bind_eq_ok h
    obtain rfl := Except.ok.inj h
    simp [Fits, hopcode]
  case eq | gt | add | mult | mod | and | or =>
    obtain ⟨word, rfl⟩ := resolveBoth_eq_ok h
    trivial
  case jt | jf =>
    obtain ⟨x, -, h⟩ := bind_eq_ok h
    split at h
    · obtain ⟨y, -, h⟩ := bind_eq_ok h
      obtain rfl := Except.ok.inj h
      trivial
    · obtain rfl := Except.ok.inj h
      trivial
  case rmem | wmem =>
    obtain ⟨x, -, h⟩ := bind_eq_ok h
    obtain ⟨y, -, h⟩ := bind_eq_ok h
    obtain rfl := Except.ok.inj h
    trivial

/-! ## Runs that are known without looking anything up -/

theorem run_assign (address word : Word) (core : Core) :
    (assign address word).run core =
      match Target.of address with
      | .ok target =>
        (.ok .proceed, { core.report (.write address target (word % modulus)) with
          store := core.store.set target (word % modulus) })
      | .error fault => (.error fault, core) := by
  rw [assign, Action.run_bind, Action.run_write]
  cases Target.of address <;> rfl

/-- Storing succeeds unless the address names nothing. -/
theorem accounted_assign {P : Effect → Prop} {C : Fault → Prop} {target : Word}
    (hproceed : P .proceed) (hinvalid : 0x8008 ≤ target.toNat → C (.invalidAddress target))
    (word : Word) (core : Core) :
    Accounted P C ((assign target word).run core).1 := by
  rw [run_assign]
  rcases Target.of_cases target with ⟨-, place, hplace⟩ | ⟨hlarge, hnothing⟩
  · rw [hplace]
    exact hproceed
  · rw [hnothing]
    exact hinvalid hlarge

/-- An instruction is accounted for by the lookup and by what its deed does. -/
theorem accounted_execute {D : Deed → Prop} {P : Effect → Prop} {C : Fault → Prop}
    {i : Instruction} {next : Word} {core : Core} (hdeed : Accounted D C (i.deed next core.store))
    (hperform : ∀ deed reads, i.Fits deed → D deed →
      Accounted P C (deed.perform.run (core.reportAll reads)).1) :
    Accounted P C ((i.execute next).run core).1 := by
  obtain ⟨reads, -, hrun⟩ := i.run_execute next core
  rw [hrun]
  cases hlookup : i.deed next core.store with
  | error fault => exact hdeed.of_error hlookup
  | ok deed => exact hperform deed reads (fits_of_deed hlookup) (hdeed.of_ok hlookup)

theorem execute_pop {i : Instruction} (h : i.opcode = .pop) (next : Word) :
    i.execute next = (Deed.pop i.a).perform := by
  rw [execute, h]
  rfl

theorem execute_ret {i : Instruction} (h : i.opcode = .ret) (next : Word) :
    i.execute next = Deed.ret.perform := by
  rw [execute, h]
  rfl

theorem execute_input {i : Instruction} (h : i.opcode = .input) (next : Word) :
    i.execute next = (Deed.input i.a).perform := by
  rw [execute, h]
  rfl

end Instruction

namespace Deed

theorem run_pop (target : Word) (core : Core) :
    (pop target).perform.run core =
      match core.stack.pop? with
      | some (word, rest) => (Instruction.assign target word).run { core with stack := rest }
      | none => (.error .emptyStack, core) := by
  rw [perform, Action.run_bind, Action.run_pop]
  cases core.stack.pop? <;> rfl

theorem run_ret (core : Core) :
    ret.perform.run core =
      match core.stack.pop? with
      | some (address, rest) => (.ok (.jump (address % modulus)), { core with stack := rest })
      | none => (.ok .halt, core) := by
  rw [perform, Action.run_bind, Action.run_pop?]
  cases core.stack.pop? <;> rfl

theorem run_input (target : Word) (core : Core) :
    (input target).perform.run core =
      match core.input.next with
      | (.byte byte, rest) =>
        (Instruction.assign target byte.toUInt16).run { core with input := rest }
      | (.failure reason, rest) => (.error (.input reason), { core with input := rest })
      | (.endOfInput, rest) => (.error .inputExhausted, { core with input := rest }) := by
  rw [perform, Action.run_bind, Action.run_readByte]
  rcases core.input.next with ⟨_ | _ | _, _⟩ <;> rfl

end Deed

namespace Action.Compositional

variable {P : {α : Type} → Action α → Prop} (hP : Compositional P)

include hP

theorem assign (target word : Word) : P (Instruction.assign target word) :=
  hP.bind (hP.write target word) fun _ => hP.pure _

theorem perform (deed : Deed) : P deed.perform := by
  cases deed with
  | answer effect => exact hP.pure effect
  | assign target word => exact hP.assign target word
  | push word effect => exact hP.bind (hP.push word) fun _ => hP.pure effect
  | pop target =>
    refine hP.bind (hP.bind hP.pop? fun entry => ?_) (hP.assign target)
    cases entry with
    | some word => exact hP.pure word
    | none => exact hP.throw _
  | ret =>
    refine hP.bind hP.pop? fun entry => ?_
    cases entry with
    | some address => exact hP.pure _
    | none => exact hP.pure _
  | input target => exact hP.bind hP.readByte fun byte => hP.assign target byte.toUInt16

/-- What the primitive actions have and sequences inherit, every instruction has. -/
theorem execute (i : Instruction) (next : Word) : P (i.execute next) := by
  rw [Instruction.execute_eq]
  exact hP.bind (hP.observes (Instruction.observes_resolve i next)) hP.perform

end Action.Compositional

end WordMachine
