import MemoryKit.CommandLine.Command
import MemoryKit.CommandLine.Help
import MemoryKit.Console
import MemoryKit.Regeneration.Files
import MemoryKit.Report.Line

/-!
# The program

Runs a command line against files, a console and a log. Memory commands need a system that lets one
process reach into another, and fail where there is none. A regeneration prints one line for each
file that is done, and goes on after its output has failed; the failure of a file then comes before
the failure of the output.
-/

namespace MemoryKit.Program

open CommandLine

/-! ## 1. Failures -/

inductive Failure where
  | process (error : ProcessError)
  | file (failure : FileFailure)
  | output (error : SinkError)
  deriving DecidableEq, Repr

def Failure.message : Failure → String
  | .process error => error.message
  | .file failure => failure.message
  | .output error => error.message

def logVariable : String := "PROCMEM_LOG"

/-! ## 2. Commands -/

variable {m : Type → Type} [Monad m] [FileStore m] [Logger m] [Console m]
  (palette : Report.Palette)

/-- Prints the line of a finished file, unless an earlier line could not be printed. -/
def reportFile (printed : Except SinkError Unit) (report : FileReport) :
    m (Except SinkError Unit) :=
  match printed with
  | .ok () => Console.print .output (Report.fileLine palette report)
  | .error error => return .error error

def runRegen (files : List String) (settings : Settings) : m (Except Failure Unit) := do
  let (printed, result) ← regenerateAll settings (reportFile palette) (.ok ()) files
  match result with
  | .error failure => return .error (.file failure)
  | .ok _ => return printed.mapError .output

def run (command : Command) : m (Except Failure Unit) := do
  Logger.record (.running command)
  match command with
  | .read .. | .write .. | .demo .. => return .error (.process .unsupported)
  | .types => return (← Console.print .output (Report.typesTable palette)).mapError .output
  | .regen files settings => runRegen palette files settings
  | .help => return (← Console.print .output [helpText]).mapError .output
  | .version => return (← Console.print .output [versionText ++ "\n"]).mapError .output

/-! ## 3. The whole program -/

def finish (stream : Stream) (chunks : List String) (code : UInt32) : m UInt32 := do
  let _ ← Console.print stream chunks
  return code

/-- Runs the program and gives its exit code. Usage errors, help and version come before the log
begins. -/
def execute (parse : String → Option Log.Filter) (logText : Option String)
    (arguments : List String) : m UInt32 := do
  match CommandLine.read arguments with
  | .error error =>
    finish .errors
      ["error: " ++ error.message ++ "\n", "For more information, try '--help'\n"] 1
  | .ok invocation =>
    match invocation.command with
    | .help => finish .output [helpText, "\n"] 0
    | .version => finish .output [versionText, "\n"] 0
    | command =>
      Logger.start (.choose parse logText invocation.verbosity invocation.quiet)
      match ← run palette command with
      | .ok () => return 0
      | .error failure => finish .errors (Report.errorLine palette failure.message) 1

end MemoryKit.Program
