import WordMachine.Json.Number
import WordMachine.Json.Text

/-! # JSON values

Values as they stand in a document, where object members keep their order and their
repetitions. The readers here take a value for what it should be and refuse any other.
-/
namespace WordMachine

inductive Json where
  | null
  | bool (value : Bool)
  | number (value : JsonNumber)
  | text (value : JsonText)
  | array (items : List Json)
  | object (members : List (JsonText × Json))
  deriving Repr

namespace Json

def ofNat (n : Nat) : Json := number (.ofNat n)

def ofString (s : String) : Json := text (some s)

def ofOption {α : Type} (f : α → Json) : Option α → Json
  | none => null
  | some a => f a

/-- A natural number below a bound, written with digits alone. -/
def natBelow? (bound : Nat) : Json → Option Nat
  | number n => n.toNat?.filter (· < bound)
  | _ => none

/-- A string that is a text. -/
def string? : Json → Option String
  | text t => t
  | _ => none

/-- The elements of an array, each read the same way. -/
def listOf? {α : Type} (read : Json → Option α) : Json → Option (List α)
  | array items => items.mapM read
  | _ => none

/-- Null, or a value read otherwise. -/
def optionOf? {α : Type} (read : Json → Option α) : Json → Option (Option α)
  | null => some none
  | value => (read value).map some

/-- The members of an object whose names are all texts. -/
def namedMembers? (members : List (JsonText × Json)) : Option (List (String × Json)) :=
  members.mapM fun (name, value) => name.map (·, value)

/-- The value of the one member of that name, and none where no member has it. A name that
occurs more often is refused. -/
def member? (members : List (String × Json)) (name : String) : Option (Option Json) :=
  match members.filter (·.1 == name) with
  | [] => some none
  | [(_, value)] => some (some value)
  | _ => none

end Json

end WordMachine
