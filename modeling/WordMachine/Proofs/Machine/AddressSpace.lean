import WordMachine.Proofs.Machine.Calls

/-! # One address space

Instructions and the owner of a machine store words by address, and memory cells and registers
answer like one array of cells. A store behind the registers is refused and changes nothing. Every
other address holds the word stored there last, reduced modulo `0x8000`, and the word it held at
first if nothing was stored there. Reading for an instruction, peeking from outside and looking into
memory and registers directly all show the same.
-/
namespace WordMachine

/-- What stores a word at an address: an instruction, or the owner of the machine. -/
inductive Storing where
  | write (address word : Word)
  | poke (address word : Word)

namespace Storing

def address : Storing → Word
  | write address _ => address
  | poke address _ => address

def word : Storing → Word
  | write _ word => word
  | poke _ word => word

/-- The word that the last one to store at an address gives. -/
def lastAt? (address : Word) (storings : List Storing) : Option Word :=
  (storings.filter fun storing => storing.address = address).getLast?.map word

theorem lastAt?_cons (address : Word) (first : Storing) (rest : List Storing) :
    lastAt? address (first :: rest) =
      (lastAt? address rest).or (if first.address = address then some first.word else none) := by
  unfold lastAt?
  by_cases hhere : first.address = address
  · rw [List.filter_cons_of_pos (by simpa using hhere), if_pos hhere, List.getLast?_cons]
    cases (rest.filter fun storing => storing.address = address).getLast? <;> rfl
  · rw [List.filter_cons_of_neg (by simpa using hhere), if_neg hhere, Option.or_none]

end Storing

namespace Machine

/-- Stores a word, and says whether that failed. -/
def storing (m : Machine) : Storing → Except Fault Unit × Machine
  | .write address word =>
    let (answer, core) := (Action.write address word).run m.core
    (answer, { m with core })
  | .poke address word =>
    match m.poke address word with
    | .ok after => (.ok (), after)
    | .error fault => (.error fault, m)

/-- The machine after storing words one after the other. -/
def storeAll (m : Machine) (storings : List Storing) : Machine :=
  storings.foldl (fun m next => (m.storing next).2) m

/-- An address shows a word to whoever looks. -/
structure Shows (m : Machine) (address word : Word) : Prop where
  read : ((Action.read address).run m.core).1 = .ok word
  peek : m.peek address = .ok word
  cell : address.toNat < 0x8000 → m.core.store.ram.get? address = some word
  register : 0x8000 ≤ address.toNat →
    m.core.store.registers.get? (address.toNat - 0x8000) = some word

/-- An address is refused to whoever looks. -/
structure Refuses (m : Machine) (address : Word) : Prop where
  read : ((Action.read address).run m.core).1 = .error (.invalidAddress address)
  peek : m.peek address = .error (.invalidAddress address)

/-- Reading is peeking. -/
theorem read_eq_peek (m : Machine) (address : Word) :
    ((Action.read address).run m.core).1 = m.peek address := by
  obtain ⟨reads, -, hrun⟩ := (Action.Observes.read address).run m.core
  rw [hrun]
  rfl

theorem shows_of_peek {m : Machine} {address word : Word} (h : m.peek address = .ok word) :
    m.Shows address word := by
  refine ⟨by rw [read_eq_peek, h], h, fun hcell => ?_, fun hcell => ?_⟩
  · rw [peek, Store.peek_eq, if_pos hcell] at h
    rw [Ram.get?_of_lt _ hcell, Except.ok.inj h]
  · rw [peek, Store.peek_eq, if_neg (Nat.not_lt.2 hcell)] at h
    split at h
    · rename_i hregister
      have hindex : address.toNat - 0x8000 < registerCount := by
        rw [registerCount]
        omega
      rw [Registers.get?_of_lt _ hindex, Except.ok.inj h]
    · cases h

theorem exists_peek (m : Machine) {address : Word} (h : address.toNat < 0x8008) :
    ∃ word, m.peek address = .ok word := by
  rcases Target.of_cases address with ⟨-, target, htarget⟩ | ⟨hbehind, -⟩
  · exact ⟨m.core.store.get target, by rw [peek, Store.peek, htarget]; rfl⟩
  · omega

theorem refuses_of_le (m : Machine) {address : Word} (h : 0x8008 ≤ address.toNat) :
    m.Refuses address := by
  have hpeek : m.peek address = .error (.invalidAddress address) := by
    rw [peek, Store.peek_eq, if_neg (by omega), if_neg (by omega)]
  exact ⟨by rw [read_eq_peek, hpeek], hpeek⟩

/-- Whoever stores, the address alone decides whether that fails. -/
theorem storing_eq (m : Machine) (next : Storing) :
    m.storing next =
      match Target.of next.address with
      | .ok target =>
        (.ok (), { m with core := { m.core.report (.write next.address target (next.word % modulus))
          with store := m.core.store.set target (next.word % modulus) } })
      | .error fault => (.error fault, m) := by
  cases next with
  | write address word =>
    rw [storing, Action.run_write]
    simp only [Storing.address]
    cases Target.of address <;> rfl
  | poke address word =>
    rw [storing, poke, Action.run_write]
    simp only [Storing.address]
    cases Target.of address <;> rfl

/-- Either the reduced word is stored in the one place that the address stands for, or the address
is refused and nothing happens. -/
theorem storing_cases (m : Machine) (next : Storing) :
    (next.address.toNat < 0x8008 ∧ (m.storing next).1 = .ok () ∧
      ∃ target, Target.of next.address = .ok target ∧
        (m.storing next).2.core.store = m.core.store.set target (next.word % modulus)) ∨
    (0x8008 ≤ next.address.toNat ∧
      m.storing next = (.error (.invalidAddress next.address), m)) := by
  rw [storing_eq]
  rcases Target.of_cases next.address with ⟨hinside, target, htarget⟩ | ⟨hbehind, hrefused⟩
  · rw [htarget]
    exact .inl ⟨hinside, rfl, target, rfl, rfl⟩
  · rw [hrefused]
    exact .inr ⟨hbehind, rfl⟩

theorem peek_storing (m : Machine) (next : Storing) {address : Word} (h : address.toNat < 0x8008) :
    (m.storing next).2.peek address =
      if next.address = address then .ok (next.word % modulus) else m.peek address := by
  rcases m.storing_cases next with ⟨-, -, target, htarget, hstored⟩ | ⟨hbehind, hrefused⟩
  · rw [peek, hstored]
    exact m.core.store.peek_set htarget (next.word % modulus) address
  · rw [hrefused, if_neg]
    rintro rfl
    omega

theorem peek_storeAll (m : Machine) (storings : List Storing) {address : Word}
    (h : address.toNat < 0x8008) :
    (m.storeAll storings).peek address =
      match Storing.lastAt? address storings with
      | some word => .ok (word % modulus)
      | none => m.peek address := by
  induction storings generalizing m with
  | nil => rfl
  | cons first rest ih =>
    show ((m.storing first).2.storeAll rest).peek address = _
    rw [ih, Storing.lastAt?_cons, peek_storing m first h]
    cases Storing.lastAt? address rest with
    | some word => rfl
    | none => by_cases hhere : first.address = address <;> simp [hhere]

/-- **Memory and registers are one store.** Whatever has been stored, a further store fails exactly
if its address is `0x8008` or above, and then the machine is as before. All those addresses are
refused to whoever looks. Every other address shows the word that was stored there last, reduced,
and the word that it showed at first, whether reduced or not, if none was. An operand word below
`0x8000` is its own value and any other has the one that is read. -/
theorem storeAll_shows (m : Machine) (storings : List Storing) :
    let after := m.storeAll storings
    (∀ next, (next.address.toNat < 0x8008 ∧ (after.storing next).1 = .ok ()) ∨
      (0x8008 ≤ next.address.toNat ∧
        after.storing next = (.error (.invalidAddress next.address), after))) ∧
    (∀ address : Word, 0x8008 ≤ address.toNat → after.Refuses address) ∧
    (∀ address : Word, address.toNat < 0x8008 → ∃ first, m.Shows address first ∧
      after.Shows address (((Storing.lastAt? address storings).map (· % modulus)).getD first)) ∧
    ∀ raw, ((Action.value raw).run after.core).1 =
      if raw.toNat < 0x8000 then .ok raw else ((Action.read raw).run after.core).1 := by
  intro after
  refine ⟨fun next => ?_, fun address => after.refuses_of_le, fun address hinside => ?_,
    fun raw => ?_⟩
  · exact (after.storing_cases next).imp_left fun hstored => ⟨hstored.1, hstored.2.1⟩
  · obtain ⟨first, hfirst⟩ := m.exists_peek hinside
    refine ⟨first, shows_of_peek hfirst, shows_of_peek ?_⟩
    rw [peek_storeAll m storings hinside, hfirst]
    cases Storing.lastAt? address storings <;> rfl
  · rw [Action.run_value]
    by_cases hliteral : raw.toNat < 0x8000
    · rw [if_pos ((lt_modulus_iff raw).2 hliteral), if_pos hliteral]
    · rw [if_neg (mt (lt_modulus_iff raw).1 hliteral), if_neg hliteral]

/-- Of four stores the third is refused. What is stored is reduced, in a register and in a cell, and
a cell where nothing is stored keeps a word that is not. -/
theorem storeAll_shows_mixed :
    let m := holding [9, 0xffff] (by decide)
    let after := m.storeAll [.write 0x8000 0xffff, .poke 3 0x8005, .poke 0x8008 1, .write 3 7]
    after.Shows 0 9 ∧ after.Shows 1 0xffff ∧ after.Shows 3 7 ∧ after.Shows 0x8000 0x7fff ∧
      after.Shows 0x8007 0 ∧ after.Refuses 0x8008 ∧ after.Refuses 0xffff ∧
      after.storing (.poke 0x8008 1) = (.error (.invalidAddress 0x8008), after) := by
  intro m after
  obtain ⟨hstores, hrefuses, hshows, -⟩ := storeAll_shows m
    [.write 0x8000 0xffff, .poke 3 0x8005, .poke 0x8008 1, .write 3 7]
  have hfirst : ∀ {address first word : Word}, m.Shows address first → m.peek address = .ok word →
      first = word := fun hshown hpeek => Except.ok.inj (hshown.peek.symm.trans hpeek)
  obtain ⟨zeroth, hzeroth, hcell0⟩ := hshows 0 (by decide)
  obtain ⟨first, hsecond, hcell1⟩ := hshows 1 (by decide)
  obtain ⟨third, -, hcell3⟩ := hshows 3 (by decide)
  obtain ⟨register, -, hregister⟩ := hshows 0x8000 (by decide)
  obtain ⟨last, hlast, hregister7⟩ := hshows 0x8007 (by decide)
  obtain rfl : zeroth = 9 := hfirst hzeroth rfl
  obtain rfl : first = 0xffff := hfirst hsecond rfl
  obtain rfl : last = 0 := hfirst hlast rfl
  have hrefused := (hstores (.poke 0x8008 1)).resolve_left fun hinside =>
    absurd hinside.1 (by decide)
  exact ⟨hcell0, hcell1, hcell3, hregister, hregister7, hrefuses _ (by decide),
    hrefuses _ (by decide), hrefused.2⟩

end Machine

end WordMachine
