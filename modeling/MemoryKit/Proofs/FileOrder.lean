import Mathlib.Data.List.Perm.Basic
import MemoryKit.Proofs.DiskCalls
import MemoryKit.Proofs.FileRuns

/-!
# The order of files

Files at different locations of a disk can be regenerated in any order. What a step does to its file
depends on that file alone, and steps on different files commute. So all orders succeed or fail
alike, and where they succeed the disks and the reports are the same.
-/

namespace MemoryKit

/-! ## 1. Steps on different files -/

namespace FileTree

variable {tree tree' : FileTree} {path other : String} {paths paths' : List String}

/-- The two paths lead to no common file. -/
def LeadApart (tree : FileTree) (path other : String) : Prop :=
  ∀ location, tree.location? path = some location → tree.location? other ≠ some location

def Apart (tree : FileTree) (paths : List String) : Prop :=
  paths.Pairwise tree.LeadApart

theorem LeadApart.symm (h : tree.LeadApart path other) : tree.LeadApart other path :=
  fun location hother hpath => h location hpath hother

theorem Apart.perm (h : tree.Apart paths) (hperm : paths.Perm paths') : tree.Apart paths' :=
  hperm.pairwise h LeadApart.symm

end FileTree

namespace Disk

variable {settings : Settings} {disk : Disk} {path other : String} {paths paths' : List String}
  {location : Location} {file old : File} {report : FileReport}

/-- The disk after a file has been regenerated, or as it was where that fails. -/
def next (settings : Settings) (disk : Disk) (path : String) : Disk :=
  match disk.step settings path with
  | .error _ => disk
  | .ok (_, location, file) => disk.withFile location file

theorem next_of_step_eq_ok (h : disk.step settings path = .ok (report, location, file)) :
    disk.next settings path = disk.withFile location file := by
  rw [next, h]

variable {reports : List FileReport}

def Yields (settings : Settings) (disk : Disk) (path : String) (report : FileReport) : Prop :=
  ∃ location file, disk.step settings path = .ok (report, location, file)

theorem Yields.unique : Relator.RightUnique (Yields settings disk) := by
  rintro path report report' ⟨location, file, h⟩ ⟨location', file', h'⟩
  rw [h] at h'
  cases h'
  rfl

end Disk

/-! ## 3. Several files -/

open Disk

variable {τ : Type} {onReport : τ → FileReport → SessionM Disk τ} {settings : Settings}
  {path : String} {paths paths' : List String} {report : FileReport} {reports : List FileReport}

theorem files_of_regenerateFile_eq_ok {s s' : Session Disk}
    (h : regenerateFile (m := SessionM Disk) settings path s = (.ok report, s')) :
    s'.files = s.files.next settings path := by
  obtain ⟨cause, s₁, -, herror, -⟩ | ⟨report', location, file, s₁, hstep, hok, hfiles⟩ :=
    regenerateFile_eq_step settings path s
  · rw [herror] at h
    cases h
  · rw [hok] at h
    cases h
    rw [hfiles, next_of_step_eq_ok hstep]

theorem Runs.files_eq (hfiles : ∀ t report s, (onReport t report s).2.files = s.files)
    {c c' : τ × Session Disk} (h : Runs settings onReport paths reports c c') :
    c'.2.files = paths.foldl (next settings) c.2.files := by
  induction h with
  | nil => rfl
  | cons hok _ ih => rw [ih, hfiles, files_of_regenerateFile_eq_ok hok, List.foldl_cons]

end MemoryKit
