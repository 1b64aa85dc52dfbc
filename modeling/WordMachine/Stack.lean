import WordMachine.Word

/-! # The operand stack

An unbounded stack of words. Its view is the list of entries from the oldest to the
newest; every operation touches the newest end only.
-/
namespace WordMachine

/-- A stack of words, the oldest first. -/
structure Stack where
  entries : Array Word
  deriving Repr, DecidableEq

namespace Stack

def empty : Stack := ⟨#[]⟩

def toList (s : Stack) : List Word := s.entries.toList

def depth (s : Stack) : Nat := s.entries.size

def isEmpty (s : Stack) : Bool := s.entries.isEmpty

def push (s : Stack) (w : Word) : Stack := ⟨s.entries.push w⟩

/-- The top entry and what lies below it. -/
def pop? (s : Stack) : Option (Word × Stack) :=
  match s.entries.back? with
  | some w => some (w, ⟨s.entries.pop⟩)
  | none => none

/-- Up to `n` entries, the newest first. -/
def head (s : Stack) (n : Nat) : List Word :=
  (s.entries.extract (s.entries.size - n) s.entries.size).toList.reverse

/-- The stack that holds these words, the last of them on top. -/
def ofList (words : List Word) : Stack := ⟨words.toArray⟩

theorem toList_push (s : Stack) (w : Word) : (s.push w).toList = s.toList ++ [w] := by
  simp [push, toList]

theorem head_eq_take (s : Stack) (n : Nat) : s.head n = s.toList.reverse.take n := by
  simp [head, toList, List.take_reverse, List.take_of_length_le]

end Stack

end WordMachine
