import WordMachine.Json.Value

/-! # Reading JSON values

What the readers take a value for, and what they find among the members of an object.
-/
namespace WordMachine.Json

theorem natBelow?_ofNat {n bound : Nat} (h : n < bound) : (ofNat n).natBelow? bound = some n := by
  show (some n).filter (· < bound) = some n
  rw [Option.filter_some, if_pos (decide_eq_true h)]

/-- Elements are read back if each of them is. -/
theorem listOf?_map {α : Type} {write : α → Json} {read : Json → Option α}
    (h : ∀ a, read (write a) = some a) (items : List α) :
    listOf? read (.array (items.map write)) = some items := by
  rw [listOf?]
  induction items with
  | nil => rfl
  | cons item items ih =>
    rw [List.map_cons, List.mapM_cons, h, ih]
    rfl

/-- A number that is written with digits alone and fits into 64 bits. -/
def IsUInt64 (value : Json) : Prop := ∃ n < UInt64.size, value = ofNat n

theorem natBelow?_of_not_isUInt64 {value : Json} (h : ¬ value.IsUInt64) :
    value.natBelow? UInt64.size = none := by
  cases value with
  | number n =>
    rw [natBelow?, Option.filter_eq_none_iff]
    intro m hm hbelow
    unfold JsonNumber.toNat? at hm
    split at hm
    · cases hm
      exact h ⟨_, of_decide_eq_true hbelow, rfl⟩
    · cases hm
  | _ => rfl

/-! ## Members -/

/-- An object whose names are all texts. -/
def named (members : List (String × Json)) : Json :=
  object (members.map fun (name, value) => (some name, value))

/-- The values of the members of one name, in their order. -/
def valuesOf (name : String) (members : List (String × Json)) : List Json :=
  (members.filter (·.1 == name)).map (·.2)

theorem namedMembers?_named (members : List (String × Json)) :
    namedMembers? (members.map fun (name, value) => (some name, value)) = some members := by
  rw [namedMembers?]
  induction members with
  | nil => rfl
  | cons member members ih =>
    rw [List.map_cons, List.mapM_cons, ih]
    rfl

/-- Only the members of a name decide what is found under it. -/
theorem member?_eq (members : List (String × Json)) (name : String) :
    member? members name =
      match valuesOf name members with
      | [] => some none
      | [value] => some (some value)
      | _ => none := by
  unfold member? valuesOf
  generalize members.filter (·.1 == name) = found
  rcases found with _ | ⟨_, _ | _⟩ <;> rfl

theorem member?_of_toList {members : List (String × Json)} {name : String} {value : Option Json}
    (h : valuesOf name members = value.toList) : member? members name = some value := by
  rw [member?_eq, h]
  cases value <;> rfl

theorem member?_of_repeated {members : List (String × Json)} {name : String}
    (h : 2 ≤ (valuesOf name members).length) : member? members name = none := by
  rw [member?_eq]
  split
  · simp_all
  · simp_all
  · rfl

/-- Where a name has a value, that value alone can be found under it. -/
theorem member?_of_mem {members : List (String × Json)} {name : String} {value : Json}
    (h : value ∈ valuesOf name members) :
    member? members name = some (some value) ∨ member? members name = none := by
  rw [member?_eq]
  split <;> simp_all

end WordMachine.Json
