import WordMachine.Json.Value

/-! # Writing JSON

A value is written either compactly on one line, or over several lines with two spaces
per level, where only empty containers stay on one line.
-/
namespace WordMachine

namespace Json

/-- How containers are laid out: what stands after an opening bracket or comma and before a
closing bracket at a given depth, and what stands after a member's name. -/
structure Layout where
  newline : Nat → List Char
  colon : List Char

/-- Everything on one line without blanks. -/
def Layout.compact : Layout := ⟨fun _ => [], [':']⟩

/-- Elements on lines of their own, two spaces in per level, with a blank after each colon. -/
def Layout.pretty : Layout := ⟨fun depth => '\n' :: List.replicate (2 * depth) ' ', [':', ' ']⟩

mutual

def chars (layout : Layout) (depth : Nat) : Json → List Char
  | null => ['n', 'u', 'l', 'l']
  | bool true => ['t', 'r', 'u', 'e']
  | bool false => ['f', 'a', 'l', 's', 'e']
  | number n => n.chars
  | text t => t.chars
  | array [] => ['[', ']']
  | array (item :: rest) =>
    '[' :: (layout.newline (depth + 1) ++ chars layout (depth + 1) item
      ++ itemChars layout (depth + 1) rest ++ layout.newline depth ++ [']'])
  | object [] => ['{', '}']
  | object ((name, value) :: rest) =>
    '{' :: (layout.newline (depth + 1) ++ JsonText.chars name ++ layout.colon
      ++ chars layout (depth + 1) value
      ++ memberChars layout (depth + 1) rest ++ layout.newline depth ++ ['}'])

def itemChars (layout : Layout) (depth : Nat) : List Json → List Char
  | [] => []
  | item :: rest =>
    ',' :: (layout.newline depth ++ chars layout depth item ++ itemChars layout depth rest)

def memberChars (layout : Layout) (depth : Nat) : List (JsonText × Json) → List Char
  | [] => []
  | (name, value) :: rest =>
    ',' :: (layout.newline depth ++ JsonText.chars name ++ layout.colon
      ++ chars layout depth value ++ memberChars layout depth rest)

end

def compact (value : Json) : String := String.ofList (value.chars .compact 0)

def pretty (value : Json) : String := String.ofList (value.chars .pretty 0)

end Json

end WordMachine
