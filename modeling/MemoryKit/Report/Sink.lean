import MemoryKit.Bytes

/-!
# Output that can fail

A sink takes bytes up to a limit and keeps what it has taken when a write goes past it. A text is
written chunk by chunk, the first failure ends it, and a flush follows the last chunk.
-/

namespace MemoryKit

inductive SinkError where
  /-- A write went past the limit. -/
  | full
  | flushFailed
  /-- A failure that only its text tells apart. -/
  | other (text : String)
  deriving DecidableEq, Repr

def SinkError.message : SinkError → String
  | .full => "sink full"
  | .flushFailed => "flush failed"
  | .other text => text

structure Sink where
  /-- The number of bytes that the sink takes in all, if it is bounded. -/
  limit : Option Nat := none
  flushFails : Bool := false
  written : Bytes := []
  flushes : Nat := 0
  deriving DecidableEq, Repr

namespace Sink

/-- Writes bytes; those past the limit are lost. -/
def write (sink : Sink) (bytes : Bytes) : Sink × Except SinkError Unit :=
  match sink.limit with
  | none => ({ sink with written := sink.written ++ bytes }, .ok ())
  | some limit =>
    let room := limit - sink.written.length
    if bytes.length ≤ room then ({ sink with written := sink.written ++ bytes }, .ok ())
    else ({ sink with written := sink.written ++ bytes.take room }, .error .full)

def flush (sink : Sink) : Sink × Except SinkError Unit :=
  ({ sink with flushes := sink.flushes + 1 },
    if sink.flushFails then .error .flushFailed else .ok ())

/-- Writes chunks up to the first failure, and flushes after the last one. -/
def print (sink : Sink) : List String → Sink × Except SinkError Unit
  | [] => sink.flush
  | chunk :: chunks =>
    match sink.write (utf8 chunk) with
    | (sink, .ok ()) => sink.print chunks
    | (sink, .error error) => (sink, .error error)

end Sink

end MemoryKit
