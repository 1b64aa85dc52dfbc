import WordMachine.Json.Token

/-! # Reading JSON

The value that a list of tokens writes. The reader holds the containers that are still
open in a list, the innermost first, so documents may be nested to any depth. Each token
takes one state to the next, and a text is a document if its last token completes a value
outside every container.
-/
namespace WordMachine

/-- An open container, with what it holds so far, the newest first. -/
inductive JsonFrame where
  | items (newest : List Json)
  /-- An object whose next member has its name already. -/
  | members (newest : List (JsonText × Json)) (name : JsonText)

/-- What the reader expects next. -/
inductive JsonState where
  | value (outer : List JsonFrame)
  /-- The first element of an array, or its end. -/
  | firstItem (outer : List JsonFrame)
  /-- The name of the first member of an object, or its end. -/
  | firstName (outer : List JsonFrame)
  /-- The name of a further member. -/
  | name (newest : List (JsonText × Json)) (outer : List JsonFrame)
  | colon (newest : List (JsonText × Json)) (name : JsonText) (outer : List JsonFrame)
  /-- A value is complete, and the innermost open container goes on or ends. -/
  | complete (value : Json) (outer : List JsonFrame)

namespace JsonState

/-- Starts a value inside the open containers. -/
def start (outer : List JsonFrame) : JsonToken → Option JsonState
  | .null => some (complete .null outer)
  | .bool b => some (complete (.bool b) outer)
  | .number n => some (complete (.number n) outer)
  | .text t => some (complete (.text t) outer)
  | .openArray => some (firstItem outer)
  | .openObject => some (firstName outer)
  | _ => none

def step : JsonState → JsonToken → Option JsonState
  | value outer, t => start outer t
  | firstItem outer, .closeArray => some (complete (.array []) outer)
  | firstItem outer, t => start (.items [] :: outer) t
  | firstName outer, .closeObject => some (complete (.object []) outer)
  | firstName outer, .text n => some (colon [] n outer)
  | name newest outer, .text n => some (colon newest n outer)
  | colon newest n outer, .colon => some (value (.members newest n :: outer))
  | complete v (.items newest :: outer), .comma => some (value (.items (v :: newest) :: outer))
  | complete v (.items newest :: outer), .closeArray =>
    some (complete (.array (v :: newest).reverse) outer)
  | complete v (.members newest n :: outer), .comma => some (name ((n, v) :: newest) outer)
  | complete v (.members newest n :: outer), .closeObject =>
    some (complete (.object ((n, v) :: newest).reverse) outer)
  | _, _ => none

/-- The value that is complete outside every container. -/
def result? : JsonState → Option Json
  | complete v [] => some v
  | _ => none

end JsonState

namespace Json

def ofTokens? (tokens : List JsonToken) : Option Json := do
  (← tokens.foldlM JsonState.step (JsonState.value [])).result?

def parse? (document : String) : Option Json := do
  ofTokens? (← JsonToken.scan? document.toList)

end Json

end WordMachine
