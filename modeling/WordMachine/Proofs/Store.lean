import WordMachine.Proofs.Word
import WordMachine.Stack
import WordMachine.Store

/-! # What addresses and operands stand for

The sixteen-bit words fall into three bands: memory cells or literals, registers, and words
that stand for nothing. The lemmas say what the store answers in each band, what a store into
one place leaves in the others, and that the values of operands are reduced when the
registers are.
-/
namespace WordMachine

namespace Target

/-- The three bands of addresses. -/
theorem of_eq (address : Word) :
    of address =
      if address.toNat < 0x8000 then .ok (.memory address)
      else if address.toNat < 0x8008 then .ok (.register (address.toNat - 0x8000))
      else .error (.invalidAddress address) := by
  unfold of
  by_cases hcell : address.toNat < 0x8000
  · rw [if_pos ((lt_modulus_iff address).2 hcell), if_pos hcell]
  · rw [if_neg (mt (lt_modulus_iff address).1 hcell), if_neg hcell]
    by_cases hregister : address.toNat < 0x8008
    · have hindex : registerIndex? address = some (address.toNat - 0x8000) := by
        rw [registerIndex?_eq_some_iff, registerCount]
        omega
      rw [hindex, if_pos hregister]
    · have hindex : registerIndex? address = none := by
        rw [Option.eq_none_iff_forall_ne_some]
        intro i hi
        rw [registerIndex?_eq_some_iff, registerCount] at hi
        omega
      rw [hindex, if_neg hregister]

/-- Every word below `0x8008` stands for a place, and no other does. -/
theorem of_cases (address : Word) :
    (address.toNat < 0x8008 ∧ ∃ target, of address = .ok target) ∨
      (0x8008 ≤ address.toNat ∧ of address = .error (.invalidAddress address)) := by
  rw [of_eq]
  by_cases hcell : address.toNat < 0x8000
  · exact .inl ⟨by omega, _, if_pos hcell⟩
  · rw [if_neg hcell]
    by_cases hregister : address.toNat < 0x8008
    · exact .inl ⟨hregister, _, if_pos hregister⟩
    · exact .inr ⟨by omega, if_neg hregister⟩

/-- No two addresses stand for the same place. -/
theorem of_injective {address other : Word} {target : Target} (h : of address = .ok target)
    (h' : of other = .ok target) : address = other := by
  rw [of_eq] at h h'
  rw [← UInt16.toNat_inj]
  grind

end Target

namespace Ram

theorem get?_of_lt (ram : Ram) {address : Word} (h : address.toNat < ramSize) :
    ram.get? address = some (ram.get address) := by
  rw [get, get?, Vector.getElem?_eq_getElem h]
  rfl

theorem get_zeros (address : Word) : zeros.get address = 0 := by
  unfold get get? zeros
  rw [Vector.getElem?_replicate]
  split <;> rfl

theorem get_set (ram : Ram) (a b w : Word) :
    (ram.set a w).get b = if a = b ∧ a.toNat < ramSize then w else ram.get b := by
  unfold get get? set
  rw [Vector.getElem?_setIfInBounds]
  by_cases hab : a = b
  · subst hab
    by_cases hin : a.toNat < ramSize
    · simp [hin]
    · simp [hin]
  · have hne : a.toNat ≠ b.toNat := fun h => hab (UInt16.toNat_inj.1 h)
    simp [hab, hne]

/-- Words stored from an address on lie there one after the other, and the rest is as before. -/
theorem get?_setFrom (ram : Ram) (start : Nat) (words : List Word)
    (hfits : start + words.length ≤ ramSize) (address : Word) :
    (ram.setFrom start words).get? address =
      if start ≤ address.toNat ∧ address.toNat < start + words.length then
        words[address.toNat - start]?
      else ram.get? address := by
  induction words generalizing ram start with
  | nil =>
    rw [setFrom, if_neg]
    rw [List.length_nil]
    omega
  | cons w rest ih =>
    rw [List.length_cons] at hfits ⊢
    rw [setFrom, ih _ (start + 1) (by omega)]
    by_cases hlater : start + 1 ≤ address.toNat ∧ address.toNat < start + 1 + rest.length
    · have hindex : address.toNat - start = address.toNat - (start + 1) + 1 := by omega
      rw [if_pos hlater, if_pos (by omega), hindex, List.getElem?_cons_succ]
    · rw [if_neg hlater, get?, Vector.getElem?_setIfInBounds]
      by_cases hhere : start = address.toNat
      · rw [if_pos hhere, if_pos (by omega), if_pos (by omega), hhere, Nat.sub_self]
        rfl
      · rw [if_neg hhere, if_neg (by omega)]
        rfl

end Ram

namespace Registers

/-- Every register holds a word below `0x8000`. -/
def Reduced (registers : Registers) : Prop := ∀ i, (registers.get i).toNat < 0x8000

theorem get?_of_lt (registers : Registers) {i : Nat} (h : i < registerCount) :
    registers.get? i = some (registers.get i) := by
  rw [get, get?, Vector.getElem?_eq_getElem h]
  rfl

theorem get_set (registers : Registers) (i j : Nat) (w : Word) :
    (registers.set i w).get j = if i = j ∧ i < registerCount then w else registers.get j := by
  unfold get get? set
  rw [Vector.getElem?_setIfInBounds]
  by_cases hij : i = j
  · subst hij
    by_cases hin : i < registerCount
    · simp [hin]
    · simp [hin]
  · simp [hij]

theorem reduced_zeros : zeros.Reduced := by
  intro i
  unfold get get? zeros
  rw [Vector.getElem?_replicate]
  split <;> decide

theorem Reduced.set {registers : Registers} (h : registers.Reduced) (i : Nat) {w : Word}
    (hw : w.toNat < 0x8000) : (registers.set i w).Reduced := by
  intro j
  rw [get_set]
  split
  · exact hw
  · exact h j

end Registers

namespace Stack

/-- Every entry is a word below `0x8000`. -/
def Reduced (s : Stack) : Prop := ∀ w ∈ s.toList, w.toNat < 0x8000

theorem pop?_of_toList_nil {s : Stack} (h : s.toList = []) : s.pop? = none := by
  obtain ⟨⟨entries⟩⟩ := s
  cases h
  rfl

/-- The newest entry is taken off and the others stay. -/
theorem pop?_of_toList_append {s : Stack} {below : List Word} {w : Word}
    (h : s.toList = below ++ [w]) : s.pop? = some (w, ofList below) := by
  obtain ⟨⟨entries⟩⟩ := s
  obtain rfl : entries = below ++ [w] := h
  simp [pop?, ofList]

/-- Either there is nothing to take off, or the newest entry is taken off. -/
theorem pop?_cases (s : Stack) :
    (s.toList = [] ∧ s.pop? = none) ∨
      ∃ below top, s.toList = below ++ [top] ∧ s.pop? = some (top, ofList below) := by
  rcases List.eq_nil_or_concat s.toList with hnil | ⟨below, top, happ⟩
  · exact .inl ⟨hnil, pop?_of_toList_nil hnil⟩
  · rw [List.concat_eq_append] at happ
    exact .inr ⟨below, top, happ, pop?_of_toList_append happ⟩

theorem toList_ofList (words : List Word) : (ofList words).toList = words := rfl

/-- What is popped was on top of what is left. -/
theorem toList_of_pop? {s rest : Stack} {w : Word} (h : s.pop? = some (w, rest)) :
    s.toList = rest.toList ++ [w] := by
  rcases s.pop?_cases with ⟨-, hpop⟩ | ⟨below, top, happ, hpop⟩
  · rw [hpop] at h
    cases h
  · rw [hpop] at h
    cases h
    rw [happ, toList_ofList]

theorem reduced_empty : empty.Reduced := by
  intro w hw
  cases hw

theorem Reduced.push {s : Stack} (h : s.Reduced) {w : Word} (hw : w.toNat < 0x8000) :
    (s.push w).Reduced := by
  intro x hx
  rw [toList_push, List.mem_append, List.mem_singleton] at hx
  rcases hx with hx | rfl
  · exact h x hx
  · exact hw

theorem Reduced.of_pop? {s rest : Stack} {w : Word} (h : s.Reduced)
    (hpop : s.pop? = some (w, rest)) : w.toNat < 0x8000 ∧ rest.Reduced := by
  have hlist := toList_of_pop? hpop
  constructor
  · exact h w (by rw [hlist]; simp)
  · intro x hx
    exact h x (by rw [hlist]; exact List.mem_append_left _ hx)

end Stack

namespace Store

/-- The value of an operand word: a literal is itself, any other word is looked up. -/
def value (store : Store) (raw : Word) : Except Fault Word :=
  if raw < modulus then .ok raw else store.peek raw

theorem peek_eq (store : Store) (address : Word) :
    store.peek address =
      if address.toNat < 0x8000 then .ok (store.ram.get address)
      else if address.toNat < 0x8008 then .ok (store.registers.get (address.toNat - 0x8000))
      else .error (.invalidAddress address) := by
  rw [peek, Target.of_eq]
  split
  · rfl
  · split <;> rfl

theorem get_set (store : Store) {target : Target} (h : target.InRange) (other : Target)
    (word : Word) :
    (store.set target word).get other = if target = other then word else store.get other := by
  cases target with
  | memory address =>
    have hcell : address.toNat < ramSize := h
    cases other with
    | memory cell => simpa [set, get, hcell] using store.ram.get_set address cell word
    | register index => simp [set, get]
  | register index =>
    have hindex : index < registerCount := h
    cases other with
    | memory cell => simp [set, get]
    | register i => simpa [set, get, hindex] using store.registers.get_set index i word

/-- A word stored where an address says is found there, and every other address is as before. -/
theorem peek_set (store : Store) {address : Word} {target : Target}
    (h : Target.of address = .ok target) (word other : Word) :
    (store.set target word).peek other =
      if address = other then .ok word else store.peek other := by
  by_cases hsame : address = other
  · subst hsame
    rw [if_pos rfl, peek, h]
    exact congrArg Except.ok (by rw [get_set store (Target.inRange_of h), if_pos rfl])
  · rw [if_neg hsame, peek, peek]
    cases hother : Target.of other with
    | error fault => rfl
    | ok place =>
      have hplace : target ≠ place := fun heq => hsame (Target.of_injective h (heq ▸ hother))
      exact congrArg Except.ok (by rw [get_set store (Target.inRange_of h), if_neg hplace])

theorem value_eq (store : Store) (raw : Word) :
    store.value raw =
      if raw.toNat < 0x8000 then .ok raw
      else if raw.toNat < 0x8008 then .ok (store.registers.get (raw.toNat - 0x8000))
      else .error (.invalidAddress raw) := by
  rw [value, peek_eq]
  by_cases hliteral : raw.toNat < 0x8000
  · rw [if_pos ((lt_modulus_iff raw).2 hliteral), if_pos hliteral]
  · rw [if_neg (mt (lt_modulus_iff raw).1 hliteral), if_neg hliteral, if_neg hliteral]

/-- With reduced registers the value of an operand is reduced. -/
theorem value_lt {store : Store} (h : store.registers.Reduced) {raw w : Word}
    (hw : store.value raw = .ok w) : w.toNat < 0x8000 := by
  rw [value_eq] at hw
  split at hw
  · rename_i hliteral
    rwa [← Except.ok.inj hw]
  · split at hw
    · rw [← Except.ok.inj hw]
      exact h _
    · cases hw

end Store

end WordMachine
