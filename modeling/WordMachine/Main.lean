import WordMachine.CommandLine.Command

/-! # The program

Carries out a command line on the real files and streams. The machine's bytes go to the
standard output as they appear, and a byte of standard input is taken when an instruction
asks for it; reports and status lines go to the standard error.
-/
namespace WordMachine.Program

/-- Opens a file; a directory opens as a source that fails. -/
def openFile (path : String) : IO (Except String Input) := do
  try
    return .ok (.ofBytes (← IO.FS.readBinFile path).toList)
  catch
    | .noFileOrDirectory .. => return .error FileError.notFound.message
    | .inappropriateType .. => return .ok Directory.directorySource
    | error => return .error (toString error)

def filesOf (arguments : Arguments) : IO FileSystem := do
  let paths := arguments.config.toList ++ [arguments.image]
  let opened ← paths.mapM fun path => return (path, ← openFile path)
  return fun path => (opened.lookup path).getD (.error FileError.notFound.message)

/-- Whole milliseconds of delay that become due when an instruction has been counted. -/
def delayDue (config : Config) (counter : Nat) : Nat :=
  let micros := config.pacingMicros.toNat
  (counter + 1) * micros / 1000 - counter * micros / 1000

/-- Gives a machine that waits for input the next byte of standard input, if there is one. -/
def feed (m : Machine) : IO Machine := do
  if m.awaitsInput then
    let data ← (← IO.getStdin).read 1
    return m.setInput (.ofBytes data.toList)
  else return m

/-- Prints the bytes that a machine has written. -/
def showOutput (m : Machine) : IO Machine := do
  let (output, m) := m.drain
  if !output.isEmpty then
    let stdout ← IO.getStdout
    stdout.write ⟨output.toArray⟩
    stdout.flush
  return m

/-- Prints a status line if the last one, shown at `shownAt`, is old enough; gives the time at
which the last one was shown. -/
def showStatus (monitorMillis : Option UInt64) (shownAt : Nat) (m : Machine) : IO Nat := do
  let now ← IO.monoMsNow
  match monitorMillis with
  | some millis =>
    if shownAt + millis.toNat ≤ now then
      IO.eprintln m.snapshot.statusLine
      return now
    else return shownAt
  | none => return shownAt

/-- Steps a machine until it finishes, on the real streams. -/
partial def drive (monitorMillis : Option UInt64) (shownAt : Nat) (m : Machine) : IO Machine := do
  if m.isHalted then return m
  let m ← showOutput (← feed m).step
  let delay := delayDue m.config m.counter
  if delay > 0 then IO.sleep delay.toUInt32
  drive monitorMillis (← showStatus monitorMillis shownAt m) m

def perform (arguments : Arguments) : Command → IO Unit
  | .list lines => IO.print (String.join (lines.map Listing.ended))
  | .run machine dumpState => do
    let m ← drive arguments.monitorMillis (← IO.monoMsNow) (machine.setTerminal .perfect)
    if dumpState then IO.print (Command.finalState m.conclude)

/-- Carries out a command line; gives the exit code. -/
def run (arguments : List String) : IO UInt32 := do
  match Arguments.parse arguments with
  | .error .help =>
    IO.print Help.text
    return 0
  | .error .usage =>
    IO.eprintln Help.usage
    return 2
  | .ok arguments =>
    match Command.prepare (← filesOf arguments) arguments with
    | .error failure =>
      IO.eprintln failure.report
      return 1
    | .ok command =>
      perform arguments command
      return 0

end WordMachine.Program

def main (arguments : List String) : IO UInt32 := WordMachine.Program.run arguments
