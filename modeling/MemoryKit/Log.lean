import MemoryKit.CommandLine.Command
import MemoryKit.Regeneration.Basic

/-!
# The log

What happens during a run is recorded as events, each with a level. A filter chooses the events that
go to the log. The text of a filter, where one is given and understood, wins over the flags of the
command line.
-/

namespace MemoryKit.Log

/-! ## 1. Levels -/

inductive Level where
  | error
  | warn
  | info
  | debug
  | trace
  deriving DecidableEq, Repr

namespace Level

def all : List Level := [.error, .warn, .info, .debug, .trace]

def name : Level → String
  | .error => "ERROR"
  | .warn => "WARN"
  | .info => "INFO"
  | .debug => "DEBUG"
  | .trace => "TRACE"

def detail (level : Level) : Nat :=
  all.idxOf level + 1

/-- The level that the flags choose: silence wins, otherwise each repeat adds detail. -/
def ofFlags (verbosity : Nat) (quiet : Bool) : Level :=
  if quiet then .error
  else
    match verbosity with
    | 0 => .warn
    | 1 => .info
    | 2 => .debug
    | _ => .trace

end Level

/-! ## 2. Events -/

inductive Event where
  /-- A command begins. -/
  | running (command : CommandLine.Command)
  /-- The names of a file's table have been read: so many in all, and so many different ones. -/
  | scanned (path : String) (found unique : Nat)
  /-- A file is done. -/
  | regenerated (report : FileReport)
  deriving DecidableEq, Repr

def Event.level : Event → Level
  | .running _ | .scanned .. => .debug
  | .regenerated _ => .info

/-! ## 3. Filters -/

structure Filter where
  passes : Event → Bool

namespace Filter

/-- Passes the events up to a level, and none where there is no level. -/
def upTo (most : Option Level) : Filter where
  passes event := most.any fun most => event.level.detail ≤ most.detail

/-- The filter of a run, with a parser for filter texts. A text that is blank or that the parser
rejects leaves the choice to the flags. -/
def choose (parse : String → Option Filter) (text : Option String) (verbosity : Nat)
    (quiet : Bool) : Filter :=
  let flags := upTo (some (Level.ofFlags verbosity quiet))
  match text.map fun text => Text.trim text.toList with
  | none | some [] => flags
  | some trimmed => (parse (String.ofList trimmed)).getD flags

end Filter

end MemoryKit.Log

namespace MemoryKit

class Logger (m : Type → Type) where
  /-- Sets the filter of the log, unless it has one. -/
  start : Log.Filter → m Unit
  /-- Logs an event if a filter is set and passes it. -/
  record : Log.Event → m Unit

end MemoryKit
