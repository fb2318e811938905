import MemoryKit.Report.Sink

/-!
# Consoles

Where a program prints its results and its errors.
-/

namespace MemoryKit

inductive Stream where
  | output
  | errors
  deriving DecidableEq, Repr

class Console (m : Type → Type) where
  /-- Writes chunks in order up to the first failure, and flushes after the last one. -/
  print : Stream → (chunks : List String) → m (Except SinkError Unit)

end MemoryKit
