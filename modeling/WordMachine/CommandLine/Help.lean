/-! # Help

What the program tells about its command line: what it is for, how it is called, and what
each argument and option means, in two columns.
-/
namespace WordMachine.Help

def usage : String := "Usage: synacor_vm [OPTIONS] <IMAGE>"

/-- The arguments, and what each means. -/
def arguments : List (String × String) :=
  [("<IMAGE>", "Program image (little-endian 16-bit words)")]

/-- The options as they are written, and what each does. -/
def options : List (String × String) :=
  [("    --config <CONFIG>", "JSON config file"),
  ("    --pacing-micros <PACING_MICROS>", "Delay between instructions, in microseconds"),
  ("    --max-steps <MAX_STEPS>", "Stop after this many executed instructions"),
  ("    --disassemble <START> <END>", "Print a disassembly of START..=END (hex) and exit"),
  ("    --dump-state", "Print the final machine state as JSON"),
  ("    --monitor-ms <MONITOR_MS>", "Log a status line every N milliseconds while running"),
  ("-h, --help", "Print help")]

/-- The width of the widest first column. -/
def width (rows : List (String × String)) : Nat :=
  rows.foldl (fun widest row => max widest row.1.length) 0

/-- Rows in two columns, each on a line of its own. -/
def columns (rows : List (String × String)) : List String :=
  rows.map fun (form, meaning) =>
    let gap := width rows - form.length + 2
    "  " ++ form ++ String.ofList (List.replicate gap ' ') ++ meaning

def lines : List String :=
  ["Run a synacor VM program image", "", usage, "", "Arguments:"] ++ columns arguments
    ++ ["", "Options:"] ++ columns options

/-- The help as a text, each line with its end. -/
def text : String := String.join (lines.map (· ++ "\n"))

end WordMachine.Help
