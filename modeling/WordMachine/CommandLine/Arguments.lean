/-! # Arguments

What a command line asks for. Arguments are read from left to right: options begin with
two dashes and take their values from the following arguments or, if they take one, after
an equals sign. A value does not begin with a dash, unless it is a dash. The one argument
that belongs to no option is the image; after `--` no argument is an option. Whichever
comes first, a call for help or an argument out of place, decides how the reading ends.
-/
namespace WordMachine

structure Options where
  config : Option String
  pacingMicros : Option UInt64
  maxSteps : Option UInt64
  /-- The bounds of the listings asked for, in order. -/
  disassemble : List String
  dumpState : Bool
  monitorMillis : Option UInt64
  deriving Repr, DecidableEq

structure Arguments extends Options where
  image : String
  deriving Repr, DecidableEq

namespace Arguments

/-- Why a command line is not carried out. -/
inductive Refusal where
  /-- Help was asked for. -/
  | help
  /-- The arguments do not fit together. -/
  | usage
  deriving Repr, DecidableEq

structure Draft where
  image : Option String
  options : Options
  deriving Repr, DecidableEq

/-- What is known before any argument is read. -/
def Draft.blank : Draft := ⟨none, ⟨none, none, none, [], false, none⟩⟩

inductive Form where
  /-- Two dashes, after which no argument is an option. -/
  | separator
  /-- An option by its name, and what stands after its equals sign. -/
  | option (name : List Char) (attached : Option (List Char))
  /-- One dash and letters. -/
  | letters (first : Char)
  | value
  deriving Repr, DecidableEq

/-- A text up to its first equals sign, and what follows it. -/
def splitAtEquals : List Char → List Char × Option (List Char)
  | [] => ([], none)
  | c :: rest =>
    if c = '=' then ([], some rest) else (c :: (splitAtEquals rest).1, (splitAtEquals rest).2)

def formOf : List Char → Form
  | ['-', '-'] => .separator
  | '-' :: '-' :: rest => .option (splitAtEquals rest).1 (splitAtEquals rest).2
  | '-' :: c :: _ => .letters c
  | _ => .value

/-- An unsigned 64-bit decimal number, after an optional plus sign. -/
def uint64? (text : List Char) : Option UInt64 :=
  let digits := match text with
    | '+' :: rest => rest
    | _ => text
  if digits.isEmpty || !digits.all Char.isDigit then none
  else
    let n : Nat := digits.foldl (fun n c => n * 10 + (c.toNat - 48)) 0
    if n < UInt64.size then some n.toUInt64 else none

/-- Sets a field that may be set once. -/
def setOnce {α : Type} (old : Option α) (new : Option α) : Except Refusal (Option α) :=
  match old, new with
  | none, some a => .ok (some a)
  | _, _ => .error .usage

/-- A path, which is not empty. -/
def path? (text : List Char) : Option String :=
  if text.isEmpty then none else some (String.ofList text)

def Draft.setImage (draft : Draft) (text : List Char) : Except Refusal Draft := do
  return { draft with image := ← setOnce draft.image (path? text) }

/-- Options that take one value. -/
inductive Single where
  | config | pacingMicros | maxSteps | monitorMillis
  deriving Repr, DecidableEq

/-- The option that takes one value and has this name. -/
def single? (name : String) : Option Single :=
  if name = "config" then some .config
  else if name = "pacing-micros" then some .pacingMicros
  else if name = "max-steps" then some .maxSteps
  else if name = "monitor-ms" then some .monitorMillis
  else none

def setSingle (o : Options) (value : List Char) : Single → Except Refusal Options
  | .config => do return { o with config := ← setOnce o.config (path? value) }
  | .pacingMicros => do return { o with pacingMicros := ← setOnce o.pacingMicros (uint64? value) }
  | .maxSteps => do return { o with maxSteps := ← setOnce o.maxSteps (uint64? value) }
  | .monitorMillis => do
    return { o with monitorMillis := ← setOnce o.monitorMillis (uint64? value) }

def Draft.setSingle (draft : Draft) (value : List Char) (option : Single) :
    Except Refusal Draft := do
  return { draft with options := ← Arguments.setSingle draft.options value option }

def Draft.setDumpState (draft : Draft) : Except Refusal Draft :=
  if draft.options.dumpState then .error .usage
  else .ok { draft with options := { draft.options with dumpState := true } }

def Draft.addBounds (draft : Draft) (first last : List Char) : Draft :=
  let bounds := draft.options.disassemble ++ [String.ofList first, String.ofList last]
  { draft with options := { draft.options with disassemble := bounds } }

/-- Reads arguments onto a draft. -/
def Draft.read (draft : Draft) : List (List Char) → Except Refusal Draft
  | [] => .ok draft
  | argument :: rest =>
    match formOf argument with
    | .separator => rest.foldlM Draft.setImage draft
    | .letters first => .error (if first = 'h' then .help else .usage)
    | .value => do (← draft.setImage argument).read rest
    | .option name (some attached) =>
      match single? (String.ofList name) with
      | some option => do (← draft.setSingle attached option).read rest
      | none => .error .usage
    | .option name none =>
      match single? (String.ofList name), String.ofList name, rest with
      | some option, _, value :: rest =>
        if formOf value = .value then do (← draft.setSingle value option).read rest
        else .error .usage
      | none, "disassemble", first :: last :: rest =>
        if formOf first = .value ∧ formOf last = .value then (draft.addBounds first last).read rest
        else .error .usage
      | none, "dump-state", rest => do (← draft.setDumpState).read rest
      | none, "help", _ => .error .help
      | _, _, _ => .error .usage

/-- Reads a whole command line, which names an image. -/
def parse (arguments : List String) : Except Refusal Arguments := do
  let draft ← Draft.blank.read (arguments.map String.toList)
  match draft.image with
  | some image => return { draft.options with image }
  | none => throw .usage

end Arguments

end WordMachine
