import WordMachine.Json.Value

/-! # JSON tokens

A document is cut into tokens with blanks between them: brackets, commas, colons, the
three words, numbers and strings. Only space, tab, line feed and carriage return are
blank.
-/
namespace WordMachine

inductive JsonToken where
  | openArray | closeArray | openObject | closeObject | comma | colon
  | null
  | bool (value : Bool)
  | number (value : JsonNumber)
  | text (value : JsonText)
  deriving Repr, DecidableEq

namespace JsonToken

def isBlank (c : Char) : Bool := c == ' ' || c == '\t' || c == '\n' || c == '\r'

/-- The token that starts with a character, and the rest. -/
def next? (c : Char) (rest : List Char) : Option (JsonToken × List Char) :=
  match c, rest with
  | '[', rest => some (openArray, rest)
  | ']', rest => some (closeArray, rest)
  | '{', rest => some (openObject, rest)
  | '}', rest => some (closeObject, rest)
  | ',', rest => some (comma, rest)
  | ':', rest => some (colon, rest)
  | 'n', 'u' :: 'l' :: 'l' :: rest => some (null, rest)
  | 't', 'r' :: 'u' :: 'e' :: rest => some (bool true, rest)
  | 'f', 'a' :: 'l' :: 's' :: 'e' :: rest => some (bool false, rest)
  | '"', rest => (JsonText.read? rest).map fun (t, rest) => (text t, rest)
  | '-', rest => (JsonNumber.read? true rest).map fun (n, rest) => (number n, rest)
  | c, rest => (JsonNumber.read? false (c :: rest)).map fun (n, rest) => (number n, rest)

/-- A token leaves no more characters than follow its first. -/
theorem length_next? {c : Char} {rest after : List Char} {t : JsonToken}
    (h : next? c rest = some (t, after)) : after.length ≤ rest.length := by
  unfold next? at h
  split at h
  case h_10 =>
    obtain ⟨⟨_, _⟩, hread, heq⟩ := Option.map_eq_some_iff.1 h
    cases heq
    exact JsonText.length_read? hread
  case h_11 =>
    obtain ⟨⟨_, _⟩, hread, heq⟩ := Option.map_eq_some_iff.1 h
    cases heq
    exact Nat.le_of_lt (JsonNumber.length_read? hread)
  case h_12 =>
    obtain ⟨⟨_, _⟩, hread, heq⟩ := Option.map_eq_some_iff.1 h
    cases heq
    exact Nat.le_of_lt_succ (JsonNumber.length_read? hread)
  all_goals
    cases h
    grind

/-- The tokens of a text, onto those already read, the newest first. -/
def scanOnto (newest : List JsonToken) (s : List Char) : Option (List JsonToken) :=
  match _ : s.dropWhile isBlank with
  | [] => some newest.reverse
  | c :: rest =>
    match _ : next? c rest with
    | none => none
    | some (t, after) => scanOnto (t :: newest) after
termination_by s.length
decreasing_by
  rename_i hs ht
  have hafter := length_next? ht
  have hblank := (List.dropWhile_sublist isBlank (l := s)).length_le
  rw [hs, List.length_cons] at hblank
  omega

def scan? (s : List Char) : Option (List JsonToken) := scanOnto [] s

end JsonToken

end WordMachine
