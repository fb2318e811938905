import Mathlib.Control.Monad.Basic
import MemoryKit.Proofs.FileSteps

/-!
# Regeneration of files in order

A run over several files is a chain of steps, each in the state that the one before has left. It
ends after the last file or at the first failure, and a failure leaves the files as the finished
steps have left them.
-/

namespace MemoryKit

variable {φ τ : Type} [FileStore (StateM φ)] {settings : Settings}

/-! ## 1. Chains of steps -/

/-- The files are regenerated one after the other, and each report is given to `onReport` before the
next file is read. -/
inductive Runs (settings : Settings) (onReport : τ → FileReport → SessionM φ τ) :
    List String → List FileReport → τ × Session φ → τ × Session φ → Prop
  | nil (c : τ × Session φ) : Runs settings onReport [] [] c c
  | cons {path : String} {paths : List String} {report : FileReport} {reports : List FileReport}
      {t : τ} {s s' : Session φ} {c : τ × Session φ} :
      regenerateFile (m := SessionM φ) settings path s = (.ok report, s') →
      Runs settings onReport paths reports (onReport t report s') c →
      Runs settings onReport (path :: paths) (report :: reports) (t, s) c

namespace FileTree

/-- The trees between which files were regenerated one after the other. -/
inductive RegeneratesAll (settings : Settings) :
    List String → List FileReport → FileTree → FileTree → Prop
  | nil (tree : FileTree) : RegeneratesAll settings [] [] tree tree
  | cons {path : String} {paths : List String} {report : FileReport} {reports : List FileReport}
      {before middle after : FileTree} :
      Regenerates settings path report before middle →
      RegeneratesAll settings paths reports middle after →
      RegeneratesAll settings (path :: paths) (report :: reports) before after

variable {paths : List String} {reports : List FileReport} {before after : FileTree}

theorem RegeneratesAll.sameEntries (h : RegeneratesAll settings paths reports before after) :
    before.SameEntries after := by
  induction h with
  | nil tree => exact .refl tree
  | cons hstep _ ih => exact hstep.sameEntries.trans ih

/-- A path that leads to none of the regenerated files leads to what it led to. -/
theorem RegeneratesAll.find_eq (h : RegeneratesAll settings paths reports before after)
    {other : String} (hother : ∀ path ∈ paths, before.location? path ≠ before.location? other) :
    after.find other = before.find other := by
  induction h with
  | nil => rfl
  | cons hstep _ ih =>
    have hentries := hstep.sameEntries
    rw [ih, hstep.find_eq (hother _ List.mem_cons_self)]
    intro path hpath
    rw [hentries.location?_eq, hentries.location?_eq]
    exact hother path (List.mem_cons_of_mem _ hpath)

/-- Only where a path leads is there a new node. -/
theorem RegeneratesAll.node?_eq (h : RegeneratesAll settings paths reports before after)
    {location : Location} (hlocation : ∀ path ∈ paths, before.location? path ≠ some location) :
    after.node? location = before.node? location := by
  induction h with
  | nil => rfl
  | cons hstep _ ih =>
    rw [ih, hstep.node?_eq (hlocation _ List.mem_cons_self)]
    intro path hpath
    rw [hstep.sameEntries.location?_eq]
    exact hlocation path (List.mem_cons_of_mem _ hpath)

end FileTree

/-! ## 2. Runs -/

section

variable {onReport : τ → FileReport → SessionM φ τ} {path : String} {paths : List String}
  {reports : List FileReport} {t : τ} {s s' : Session φ}

/-- The first failure is the result, and no later file is looked at. -/
theorem regenerateAll_cons_of_error {failure : FileFailure}
    (h : regenerateFile (m := SessionM φ) settings path s = (.error failure, s')) :
    regenerateAll settings onReport t (path :: paths) s = ((t, .error failure), s') := by
  rw [regenerateAll, bind_apply, h]
  rfl

/-- A file that is done is reported before the next is read. -/
theorem regenerateAll_cons_of_ok {report : FileReport} {t' : τ} {s₁ : Session φ}
    {result : Except FileFailure (List FileReport)}
    (h : regenerateFile (m := SessionM φ) settings path s = (.ok report, s₁))
    (hrest : regenerateAll settings onReport (onReport t report s₁).1 paths
      (onReport t report s₁).2 = ((t', result), s')) :
    regenerateAll settings onReport t (path :: paths) s =
      ((t', result.map (report :: ·)), s') := by
  rw [regenerateAll, bind_apply, h]
  simp only [bind_apply, hrest]
  rfl

def observing (observe : τ → FileReport → τ) (t : τ) (report : FileReport) : SessionM φ τ :=
  pure (observe t report)

/-- An observer has seen the reports of a chain in their order. -/
theorem Runs.eq_foldl {observe : τ → FileReport → τ} {c c' : τ × Session φ}
    (h : Runs settings (observing observe) paths reports c c') :
    c'.1 = reports.foldl observe c.1 := by
  induction h with
  | nil => rfl
  | cons _ _ ih => exact ih

end

variable [LawfulStore φ]

/-- A run is a chain of steps for the first files, which are all files or end before the first that
fails in the state they leave. -/
theorem exists_runs (settings : Settings) (onReport : τ → FileReport → SessionM φ τ)
    (paths : List String) (t : τ) (s : Session φ) :
    ∃ reports t' s', Runs settings onReport (paths.take reports.length) reports (t, s) (t', s') ∧
      ((reports.length = paths.length ∧
        regenerateAll settings onReport t paths s = ((t', .ok reports), s')) ∨
      ∃ path cause s'', paths[reports.length]? = some path ∧ Fails settings path s' cause ∧
        regenerateFile (m := SessionM φ) settings path s' = (.error ⟨path, cause⟩, s'') ∧
        s''.tree = s'.tree ∧
        regenerateAll settings onReport t paths s = ((t', .error ⟨path, cause⟩), s'')) := by
  induction paths generalizing t s with
  | nil => exact ⟨[], t, s, .nil _, .inl ⟨rfl, rfl⟩⟩
  | cons path paths ih =>
    obtain ⟨cause, s', hfails, htree, herror⟩ | ⟨report, s₁, hok, -⟩ :=
      regenerateFile_cases settings path s
    · exact ⟨[], t, s, .nil _,
        .inr ⟨path, cause, s', rfl, hfails, herror, htree, regenerateAll_cons_of_error herror⟩⟩
    · obtain ⟨reports, t', s', hruns, hend⟩ := ih (onReport t report s₁).1 (onReport t report s₁).2
      refine ⟨report :: reports, t', s', .cons hok hruns, ?_⟩
      obtain ⟨hlen, hall⟩ | ⟨path', cause, s'', hpath, hfails, herror, htree, hall⟩ := hend
      · exact .inl ⟨congrArg (· + 1) hlen, regenerateAll_cons_of_ok hok hall⟩
      · exact .inr ⟨path', cause, s'', hpath, hfails, herror, htree,
          regenerateAll_cons_of_ok hok hall⟩

theorem regenerates_of_eq_ok {path : String} {report : FileReport} {s s' : Session φ}
    (h : regenerateFile (m := SessionM φ) settings path s = (.ok report, s')) :
    FileTree.Regenerates settings path report s.tree s'.tree := by
  obtain ⟨cause, s₁, -, -, herror⟩ | ⟨report', s₁, hok, hstep⟩ :=
    regenerateFile_cases settings path s
  · rw [herror] at h
    cases h
  · rw [hok] at h
    cases h
    exact hstep

/-- Where reports leave the files alone, the chain of states is a chain of trees. -/
theorem Runs.regeneratesAll {onReport : τ → FileReport → SessionM φ τ}
    (htree : ∀ t report s, (onReport t report s).2.tree = s.tree) {paths : List String}
    {reports : List FileReport} {c c' : τ × Session φ}
    (h : Runs settings onReport paths reports c c') :
    FileTree.RegeneratesAll settings paths reports c.2.tree c'.2.tree := by
  induction h with
  | nil c => exact .nil _
  | cons hok _ ih =>
    rw [htree] at ih
    exact .cons (regenerates_of_eq_ok hok) ih

/-- Files are regenerated in steps that are whole or not done at all, up to the first failure. The
first `reports.length` paths are done, each in the state that the one before has left, and each
report is observed in turn. Then either no path is left and the reports are the result, or the next
path fails in the state they leave: its failure is the result, and the tree stays as they leave it.
No entry comes or goes, and a path that leads to none of the files that are done is found as
before. -/
theorem exists_regenerateAll_eq (settings : Settings) (observe : τ → FileReport → τ)
    (paths : List String) (seen : τ) (s : Session φ) :
    ∃ reports s',
      Runs settings (observing observe) (paths.take reports.length) reports
        (seen, s) (reports.foldl observe seen, s') ∧
      FileTree.RegeneratesAll settings (paths.take reports.length) reports s.tree s'.tree ∧
      s.tree.SameEntries s'.tree ∧
      (∀ other, (∀ path ∈ paths.take reports.length,
          s.tree.location? path ≠ s.tree.location? other) →
        s'.tree.find other = s.tree.find other) ∧
      ((reports.length = paths.length ∧
        regenerateAll settings (observing observe) seen paths s =
          ((reports.foldl observe seen, .ok reports), s')) ∨
      ∃ path cause s'', paths[reports.length]? = some path ∧ Fails settings path s' cause ∧
        regenerateFile (m := SessionM φ) settings path s' = (.error ⟨path, cause⟩, s'') ∧
        s''.tree = s'.tree ∧
        regenerateAll settings (observing observe) seen paths s =
          ((reports.foldl observe seen, .error ⟨path, cause⟩), s'')) := by
  obtain ⟨reports, seen', s', hruns, hend⟩ :=
    exists_runs settings (observing observe) paths seen s
  -- the callback has seen the reports in order
  have hseen : seen' = reports.foldl observe seen := hruns.eq_foldl
  have htrees := hruns.regeneratesAll fun _ _ _ => rfl
  subst hseen
  exact ⟨reports, s', hruns, htrees, htrees.sameEntries,
    fun _ hother => htrees.find_eq hother, hend⟩

def tinySettings : Settings where
  table := "t"
  beginMarker := "//b"
  endMarker := "//e"

/-- Files in two directories, of which one has no table. Relative paths begin in `/home`. -/
def threeFiles : Session Disk where
  files := {
    tree := .ofList ["home"] [
      (["home"], .directory),
      (["srv"], .directory),
      (["srv", "a"], .file ⟨utf8 "t[]=\x7b\"ld\"\x7d;\n//b\n//e\n", 0o755⟩),
      (["srv", "b"], .file ⟨utf8 "no table\n", 0o644⟩),
      (["home", "c"], .file ⟨utf8 "t[]=\x7b\"st\"\x7d;\n//b\n//e\n", 0o644⟩)] }

theorem exists_regenerateAll_eq_threeFiles :
    ∃ s', regenerateAll tinySettings (observing fun seen report => seen ++ [report]) []
        ["/srv/a", "../srv/./a", "/srv/b", "c"] threeFiles =
          (([⟨"/srv/a", .updated, 1, 3⟩, ⟨"../srv/./a", .unchanged, 1, 3⟩],
            .error ⟨"/srv/b", .source (.tableNotFound "t")⟩), s') ∧
      FileTree.RegeneratesAll tinySettings ["/srv/a", "../srv/./a"]
        [⟨"/srv/a", .updated, 1, 3⟩, ⟨"../srv/./a", .unchanged, 1, 3⟩]
        threeFiles.tree s'.tree ∧
      s'.tree.find "/home/c" = threeFiles.tree.find "/home/c" := by
  obtain ⟨reports, s', -, htrees, -, hfind, hend⟩ := exists_regenerateAll_eq tinySettings
    (fun seen report => seen ++ [report]) ["/srv/a", "../srv/./a", "/srv/b", "c"] [] threeFiles
  have hresult : (regenerateAll tinySettings (observing fun seen report => seen ++ [report]) []
      ["/srv/a", "../srv/./a", "/srv/b", "c"] threeFiles).1 =
        ([⟨"/srv/a", .updated, 1, 3⟩, ⟨"../srv/./a", .unchanged, 1, 3⟩],
          .error ⟨"/srv/b", .source (.tableNotFound "t")⟩) := by decide +kernel
  have hseen : reports.foldl (fun seen report => seen ++ [report]) [] = reports := by
    rw [List.foldl_append_eq_append, List.nil_append, ← List.flatMap_def, List.flatMap_singleton']
  rw [hseen] at hend
  obtain ⟨-, hall⟩ | ⟨path, cause, s'', -, -, -, htree, hall⟩ := hend
  · rw [hall] at hresult
    cases hresult
  · rw [hall] at hresult
    cases hresult
    refine ⟨s'', hall, htree ▸ htrees, htree ▸ hfind "/home/c" ?_⟩
    decide +kernel

end MemoryKit
