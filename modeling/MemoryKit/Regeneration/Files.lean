import MemoryKit.Log
import MemoryKit.Regeneration.Replacement

/-!
# Regeneration of files

A file is read, regenerated, and replaced only if its bytes change. Several files are done one
after the other, and the first failure ends the run: later files are not touched.
-/

namespace MemoryKit

/-! ## 1. Failures -/

inductive FileFailureCause where
  | unreadable (error : FileError)
  | unwritable (error : FileError)
  | source (error : SourceError)
  deriving DecidableEq, Repr

structure FileFailure where
  path : String
  cause : FileFailureCause
  deriving DecidableEq, Repr

def FileFailure.message (failure : FileFailure) : String :=
  match failure.cause with
  | .unreadable error | .unwritable error => s!"{failure.path}: {error.message}"
  | .source error => error.message failure.path

/-! ## 2. Regeneration in place -/

variable {m : Type → Type} [Monad m] [FileStore m] [Logger m]

def logNames (settings : Settings) (path : String) (source : Bytes) : m Unit :=
  match nameCounts? settings source with
  | none => pure ()
  | some (found, unique) => Logger.record (.scanned path found unique)

/-- Replaces the content of a file, unless it is what is already there. -/
def updateFile (path : String) (source output : Bytes) : ExceptT FileError m Unit :=
  if output = source then pure () else replaceFile path output

def regenerateFile (settings : Settings) (path : String) : m (Except FileFailure FileReport) := do
  match ← (FileStore.read path).run with
  | .error error => return .error ⟨path, .unreadable error⟩
  | .ok source =>
    logNames settings path source
    match regenerate settings source with
    | .error error => return .error ⟨path, .source error⟩
    | .ok r =>
      match ← (updateFile path source r.output).run with
      | .error error => return .error ⟨path, .unwritable error⟩
      | .ok () =>
        Logger.record (.regenerated (r.report path source))
        return .ok (r.report path source)

/-- Regenerates files in order up to the first failure. A state is passed along, and `onReport` sees
each report with it as soon as the file is done. -/
def regenerateAll {σ : Type} (settings : Settings) (onReport : σ → FileReport → m σ) :
    σ → List String → m (σ × Except FileFailure (List FileReport))
  | state, [] => return (state, .ok [])
  | state, path :: paths => do
    match ← regenerateFile settings path with
    | .error failure => return (state, .error failure)
    | .ok report =>
      let (state, rest) ← regenerateAll settings onReport (← onReport state report) paths
      return (state, rest.map (report :: ·))

end MemoryKit
