import WordMachine.CommandLine.Arguments
import WordMachine.CommandLine.Directory
import WordMachine.CommandLine.Help
import WordMachine.Listing
import WordMachine.Machine.Run
import WordMachine.Text.Quoted

/-! # Carrying out a command line

A command either lists a part of an image's memory or runs the image. What goes wrong
before it is known which ends the command with a report and without output:
first the configuration is read, then the image is opened and loaded, then the bounds of
a listing are read. Whatever the machine does in a run, the command succeeds.
-/
namespace WordMachine

/-- Why a command cannot be carried out. -/
inductive CommandFailure where
  /-- The configuration's file cannot be read, for a reason of the operating system. -/
  | configUnreadable (path : String) (reason : String)
  /-- The configuration's file holds no configuration. -/
  | configInvalid (path : String)
  | imageUnopened (path : String) (reason : String)
  | imageUnloaded (path : String) (error : ImageError)
  | addressInvalid (text : String) (error : Hex.Error)
  | rangeEmpty (first last : Word)
  /-- The machine refused to run. -/
  | runRefused (fault : Fault)
  deriving Repr, DecidableEq

namespace CommandFailure

def headline : CommandFailure → String
  | configUnreadable path _ | configInvalid path => "reading config " ++ path
  | imageUnopened path _ => "opening program image " ++ path
  | imageUnloaded path _ => "loading program image " ++ path
  | addressInvalid text _ => "invalid hex address " ++ Text.quoted text
  | rangeEmpty first last =>
    "disassembly range is empty: " ++ Hex.render first ++ " > " ++ Hex.render last
  | runRefused _ => "running program"

/-- What it was caused by, the nearest cause first. -/
def causes : CommandFailure → List String
  | configUnreadable _ reason | imageUnopened _ reason => [reason]
  | configInvalid _ => ["not a configuration"]
  | imageUnloaded _ error => error.chain
  | addressInvalid _ error => [error.message]
  | rangeEmpty .. => []
  | runRefused fault => fault.chain

/-- The lines of a list of causes, which are numbered if there are several. -/
def causeLines : List String → List String
  | [cause] => ["    " ++ cause]
  | causes => causes.mapIdx fun i cause => "    " ++ toString i ++ ": " ++ cause

def report (failure : CommandFailure) : String :=
  let causes := failure.causes
  let trailer := if causes.isEmpty then [] else "" :: "Caused by:" :: causeLines causes
  "\n".intercalate (("Error: " ++ failure.headline) :: trailer)

end CommandFailure

/-- What a command line asks to be done. -/
inductive Command where
  /-- Print these lines. -/
  | list (lines : List ListingLine)
  /-- Run the machine, and show its final state if asked to. -/
  | run (machine : Machine) (dumpState : Bool)

namespace Command

/-- The bytes that a source delivers up to its end, unless it fails. -/
def allBytes : List InputEvent → Except String (List UInt8)
  | [] => .ok []
  | .endOfInput :: _ => .ok []
  | .failure reason :: _ => .error reason
  | .byte b :: rest => (allBytes rest).map (b :: ·)

def readConfig (files : FileSystem) (path : String) : Except CommandFailure Config :=
  match (files path).bind fun source => allBytes source.events with
  | .error reason => .error (.configUnreadable path reason)
  | .ok bytes =>
    match (String.fromUTF8? ⟨bytes.toArray⟩).bind Config.parse? with
    | some config => .ok config
    | none => .error (.configInvalid path)

/-- The settings of a command: those of its file or the defaults, where no option overrides
them. -/
def settings (files : FileSystem) (options : Options) : Except CommandFailure Config := do
  let config ← match options.config with
    | some path => readConfig files path
    | none => .ok .default
  return { config with
    pacingMicros := options.pacingMicros.getD config.pacingMicros
    maxSteps := options.maxSteps <|> config.maxSteps }

/-- Makes the machine that holds an image. -/
def loadImage (files : FileSystem) (path : String) (config : Config) :
    Except CommandFailure Machine := do
  let source ← (files path).mapError (CommandFailure.imageUnopened path)
  (Machine.ofImage source config none).mapError (CommandFailure.imageUnloaded path)

def readBound (text : String) : Except CommandFailure Word :=
  (Hex.parse text).mapError (CommandFailure.addressInvalid text)

/-- The command that arguments give. -/
def prepare (files : FileSystem) (arguments : Arguments) : Except CommandFailure Command := do
  let config ← settings files arguments.toOptions
  let machine ← loadImage files arguments.image config
  match arguments.disassemble with
  | first :: last :: _ =>
    let first ← readBound first
    let last ← readBound last
    if last < first then throw (.rangeEmpty first last)
    return list ((Listing.range? machine.core.store.ram first last).getD [])
  | _ => return run machine arguments.dumpState

/-- What is printed after a run that shows its final state. -/
def finalState (m : Machine) : String :=
  let lines := (Listing.count? m.core.store.ram m.pc 5).getD []
  m.snapshot.dump ++ "\n" ++ m.snapshot.registerLines ++ "\n"
    ++ String.join (lines.map Listing.ended)

end Command

inductive CommandResult where
  /-- Help was asked for, or the arguments were refused. -/
  | refused (refusal : Arguments.Refusal)
  | failed (failure : CommandFailure)
  | succeeded (output : List UInt8)
  deriving Repr, DecidableEq

namespace CommandResult

def exitCode : CommandResult → UInt8
  | refused .help => 0
  | refused .usage => 2
  | failed _ => 1
  | succeeded _ => 0

def output : CommandResult → List UInt8
  | refused .help => Help.text.toUTF8.toList
  | refused .usage | failed _ => []
  | succeeded output => output

end CommandResult

/-- Runs a machine on an input with its transcript as the output, at most `bound` steps. -/
def Command.runOn (machine : Machine) (input : List UInt8) (dumpState : Bool) (bound : Nat) :
    Option CommandResult := do
  match ← ((machine.setTerminal .perfect).setInput (.ofBytes input)).run bound with
  | .error fault => return .failed (.runRefused fault)
  | .ok m =>
    let state := if dumpState then (Command.finalState m).toUTF8.toList else []
    return .succeeded (m.terminal.transcript.contents ++ state)

/-- Carries out a command line on a file system and an input; missing if a run takes more
than `bound` steps. -/
def Command.carryOut (files : FileSystem) (arguments : List String) (input : List UInt8)
    (bound : Nat) : Option CommandResult :=
  match Arguments.parse arguments with
  | .error refusal => some (.refused refusal)
  | .ok arguments =>
    match Command.prepare files arguments with
    | .error failure => some (.failed failure)
    | .ok (.list lines) =>
      some (.succeeded (String.join (lines.map Listing.ended)).toUTF8.toList)
    | .ok (.run machine dumpState) => Command.runOn machine input dumpState bound

end WordMachine
