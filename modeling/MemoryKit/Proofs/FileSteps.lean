import MemoryKit.Proofs.LawfulStore
import MemoryKit.Regeneration.Files
import MemoryKit.Session

/-!
# Regeneration of one file

What regenerating one file does to a session. Its tree changes only where the file is replaced, and
then only by the new content of that one file.
-/

namespace MemoryKit

/-! ## 1. Ends of a regeneration -/

section

variable {σ : Type} [FileStore (StateM σ)] [Logger (StateM σ)] {settings : Settings}
  {path : String} {source : Bytes} {r : Regenerated} {s s' s'' : σ}

theorem regenerateFile_of_unreadable {error : FileError}
    (hread : (FileStore.read (m := StateM σ) path).run s = (.error error, s')) :
    regenerateFile (m := StateM σ) settings path s = (.error ⟨path, .unreadable error⟩, s') := by
  unfold regenerateFile
  rw [bind_apply, hread]
  rfl

/-- A source that cannot be regenerated is not written. -/
theorem regenerateFile_of_source_error {error : SourceError}
    (hread : (FileStore.read (m := StateM σ) path).run s = (.ok source, s'))
    (hr : regenerate settings source = .error error) :
    regenerateFile (m := StateM σ) settings path s =
      (.error ⟨path, .source error⟩, (logNames (m := StateM σ) settings path source s').2) := by
  unfold regenerateFile
  rw [bind_apply, hread]
  simp only [hr]
  rfl

/-- A file that regeneration would not change is read and reported, and nothing else is done. -/
theorem regenerateFile_of_output_eq
    (hread : (FileStore.read (m := StateM σ) path).run s = (.ok source, s'))
    (hr : regenerate settings source = .ok r) (hsame : r.output = source) :
    regenerateFile (m := StateM σ) settings path s =
      (do
        logNames settings path source
        Logger.record (.regenerated ⟨path, .unchanged, r.table.size, r.table.packedLength⟩)
        return .ok ⟨path, .unchanged, r.table.size, r.table.packedLength⟩ : StateM σ _) s' := by
  have hreport :
      r.report path source = ⟨path, .unchanged, r.table.size, r.table.packedLength⟩ := by
    rw [Regenerated.report, if_pos hsame]
  unfold regenerateFile updateFile
  rw [bind_apply, hread]
  simp only [hr, if_pos hsame, hreport]
  rfl

/-- A file that cannot be replaced fails with the error of the replacement. -/
theorem regenerateFile_of_unwritable {error : FileError}
    (hread : (FileStore.read (m := StateM σ) path).run s = (.ok source, s'))
    (hr : regenerate settings source = .ok r) (hne : r.output ≠ source)
    (hreplace : (replaceFile (m := StateM σ) path r.output).run
        (logNames (m := StateM σ) settings path source s').2 = (.error error, s'')) :
    regenerateFile (m := StateM σ) settings path s = (.error ⟨path, .unwritable error⟩, s'') := by
  unfold regenerateFile updateFile
  rw [bind_apply, hread]
  simp only [hr, if_neg hne, bind_apply, hreplace]
  rfl

/-- A file with another output is replaced and reported as updated. -/
theorem regenerateFile_of_replaced
    (hread : (FileStore.read (m := StateM σ) path).run s = (.ok source, s'))
    (hr : regenerate settings source = .ok r) (hne : r.output ≠ source)
    (hreplace : (replaceFile (m := StateM σ) path r.output).run
        (logNames (m := StateM σ) settings path source s').2 = (.ok (), s'')) :
    regenerateFile (m := StateM σ) settings path s =
      (.ok (r.report path source),
        (Logger.record (m := StateM σ) (.regenerated (r.report path source)) s'').2) := by
  unfold regenerateFile updateFile
  rw [bind_apply, hread]
  simp only [hr, if_neg hne, bind_apply, hreplace]
  rfl

end

/-! ## 2. Sessions -/

variable {φ α β : Type}

namespace Session

theorem run_callOnFiles (x : ExceptT FileError (StateM φ) α) (session : Session φ) :
    (callOnFiles x).run session =
      ((x.run session.files).1, { session with files := (x.run session.files).2 }) :=
  rfl

theorem run_callOnFiles_of_eq {x : ExceptT FileError (StateM φ) α} {session : Session φ}
    {result : Except FileError α} {files : φ} (h : x.run session.files = (result, files)) :
    (callOnFiles x).run session = (result, { session with files }) := by
  rw [run_callOnFiles, h]

/-- Calls one after the other are one call on the files. -/
theorem callOnFiles_bind (x : ExceptT FileError (StateM φ) α)
    (f : α → ExceptT FileError (StateM φ) β) :
    (callOnFiles x >>= fun a => callOnFiles (f a)) = callOnFiles (x >>= f) := by
  apply ExceptT.ext
  funext session
  rcases hrun : x.run session.files with ⟨error | a, files⟩
  · rw [run_bind_of_error (run_callOnFiles_of_eq hrun),
      run_callOnFiles_of_eq (run_bind_of_error hrun)]
  · rw [run_bind_of_ok (run_callOnFiles_of_eq hrun), run_callOnFiles, run_callOnFiles,
      run_bind_of_ok hrun]

theorem callOnFiles_tryCatch (x : ExceptT FileError (StateM φ) α)
    (handle : FileError → ExceptT FileError (StateM φ) α) :
    (tryCatch (callOnFiles x) fun error => callOnFiles (handle error)) =
      callOnFiles (tryCatch x handle) := by
  apply ExceptT.ext
  funext session
  rcases hrun : x.run session.files with ⟨error | a, files⟩
  · rw [run_tryCatch_of_error (run_callOnFiles_of_eq hrun), run_callOnFiles, run_callOnFiles,
      run_tryCatch_of_error hrun]
  · rw [run_tryCatch_of_ok (run_callOnFiles_of_eq hrun),
      run_callOnFiles_of_eq (run_tryCatch_of_ok hrun)]

variable [FileStore (StateM φ)]

theorem copyPermissions_eq (temporary : Location) (path : String) :
    copyPermissions (m := SessionM φ) temporary path =
      callOnFiles (copyPermissions temporary path) := by
  unfold copyPermissions
  rw [← callOnFiles_bind]
  congr 1
  funext result
  cases result <;> rfl

/-- A replacement sees and changes nothing of a session but its files. -/
theorem replaceFile_eq (path : String) (content : Bytes) :
    replaceFile (m := SessionM φ) path content = callOnFiles (replaceFile path content) := by
  unfold replaceFile fillAndPersist
  simp only [← callOnFiles_bind, ← callOnFiles_tryCatch, copyPermissions_eq]
  rfl

/-- In a session a replacement is the replacement on its files, and nothing else changes. -/
theorem run_replaceFile_of_eq {path : String} {content : Bytes} {session : Session φ}
    {result : Except FileError Unit} {files : φ}
    (h : (replaceFile (m := StateM φ) path content).run session.files = (result, files)) :
    (replaceFile (m := SessionM φ) path content).run session =
      (result, { session with files }) := by
  rw [replaceFile_eq, run_callOnFiles_of_eq h]

end Session

variable [FileStore (StateM φ)] [LawfulStore φ]

def Session.tree (session : Session φ) : FileTree :=
  LawfulStore.tree session.files

theorem Session.tree_record (event : Log.Event) (session : Session φ) :
    (session.record event).tree = session.tree := by
  unfold Session.record
  split <;> rfl

/-- Logging the names of a table leaves the tree alone. -/
theorem tree_logNames (settings : Settings) (path : String) (source : Bytes)
    (session : Session φ) :
    (logNames (m := SessionM φ) settings path source session).2.tree = session.tree := by
  unfold logNames
  cases nameCounts? settings source with
  | none => rfl
  | some counts => exact session.tree_record _

/-- What holds of a computation on the files holds of it on a session. -/
theorem Ends.callOnFiles {x : ExceptT FileError (StateM φ) α} {session : Session φ}
    {failed : FileTree → Prop} {done : α → FileTree → Prop}
    (h : Ends LawfulStore.tree x session.files failed done) :
    Ends Session.tree (Session.callOnFiles x) session failed done := by
  obtain ⟨error, s', hrun, hfailed⟩ | ⟨a, s', hrun, hdone⟩ := h
  · exact .inl ⟨error, _, Session.run_callOnFiles_of_eq hrun, hfailed⟩
  · exact .inr ⟨a, _, Session.run_callOnFiles_of_eq hrun, hdone⟩

theorem Session.read_ends (path : String) (session : Session φ) :
    Ends Session.tree (FileStore.read (m := SessionM φ) path) session (· = session.tree)
      fun content after => after = session.tree ∧
        ∃ location permissions, session.tree.find path = .ok (location, ⟨content, permissions⟩) :=
  (LawfulStore.read_ends path session.files).callOnFiles

/-- In a session a replacement leaves the tree as it was or with the new content in place. -/
theorem Session.replaceFile_ends {path : String} {session : Session φ} {location : Location}
    {old : File} (hfind : session.tree.find path = .ok (location, old)) (content : Bytes) :
    Ends Session.tree (replaceFile (m := SessionM φ) path content) session (· = session.tree)
      fun _ after => ∃ permissions,
        (permissions = old.permissions ∨ permissions = FileTree.ownerOnly) ∧
          after = session.tree.put location (some (.file ⟨content, permissions⟩)) := by
  rw [Session.replaceFile_eq]
  exact (MemoryKit.replaceFile_ends hfind).callOnFiles

/-! ## 3. Steps -/

namespace FileTree

variable {settings : Settings} {path : String} {report : FileReport} {before after : FileTree}

/-- One tree follows another by the regeneration of a file: the content that was read is
regenerated, the output is the new content, and nothing else changes. A file that is replaced keeps
its permissions, unless they cannot be read. -/
def Regenerates (settings : Settings) (path : String) (report : FileReport)
    (before after : FileTree) : Prop :=
  ∃ location file r permissions,
    before.find path = .ok (location, file) ∧
    regenerate settings file.content = .ok r ∧
    after = before.put location (some (.file ⟨r.output, permissions⟩)) ∧
    (permissions = file.permissions ∨ (r.output ≠ file.content ∧ permissions = ownerOnly)) ∧
    report = ⟨path, if r.output = file.content then .unchanged else .updated, r.table.size,
      r.table.packedLength⟩

theorem Regenerates.sameEntries (h : Regenerates settings path report before after) :
    before.SameEntries after := by
  obtain ⟨location, file, r, permissions, hfind, -, rfl, -⟩ := h
  exact sameEntries_put_file hfind _

/-- Only at the location that the path leads to is there a new node. -/
theorem Regenerates.node?_eq (h : Regenerates settings path report before after)
    {location : Location} (hlocation : before.location? path ≠ some location) :
    after.node? location = before.node? location := by
  obtain ⟨place, file, r, permissions, hfind, -, rfl, -⟩ := h
  apply node?_put_of_ne
  rintro rfl
  exact hlocation (location?_of_find_eq_ok hfind)

/-- A path that leads elsewhere leads to what it led to. -/
theorem Regenerates.find_eq (h : Regenerates settings path report before after) {other : String}
    (hother : before.location? path ≠ before.location? other) :
    after.find other = before.find other := by
  apply h.sameEntries.find_eq
  intro location hlocation
  apply h.node?_eq
  rwa [← hlocation]

end FileTree

/-- Why the file at a path is not regenerated in a session. -/
inductive Fails (settings : Settings) (path : String) (s : Session φ) : FileFailureCause → Prop
  | unreadable {error : FileError} {s' : Session φ} :
      (FileStore.read (m := SessionM φ) path).run s = (.error error, s') →
      Fails settings path s (.unreadable error)
  | source {source : Bytes} {error : SourceError} {s' : Session φ} :
      (FileStore.read (m := SessionM φ) path).run s = (.ok source, s') →
      regenerate settings source = .error error → Fails settings path s (.source error)
  | unwritable {source : Bytes} {r : Regenerated} {error : FileError} {s' s'' : Session φ} :
      (FileStore.read (m := SessionM φ) path).run s = (.ok source, s') →
      regenerate settings source = .ok r → r.output ≠ source →
      (replaceFile (m := SessionM φ) path r.output).run
        (logNames (m := SessionM φ) settings path source s').2 = (.error error, s'') →
      Fails settings path s (.unwritable error)

/-- Regenerating a file fails and leaves the tree as it is, or is a step of the tree. -/
theorem regenerateFile_cases (settings : Settings) (path : String) (s : Session φ) :
    (∃ cause s', Fails settings path s cause ∧ s'.tree = s.tree ∧
      regenerateFile (m := SessionM φ) settings path s = (.error ⟨path, cause⟩, s')) ∨
    ∃ report s', regenerateFile (m := SessionM φ) settings path s = (.ok report, s') ∧
      FileTree.Regenerates settings path report s.tree s'.tree := by
  obtain ⟨error, s', hread, hs'⟩ | ⟨source, s', hread, hs', location, permissions, hfind⟩ :=
    s.read_ends path
  · exact .inl ⟨_, s', .unreadable hread, hs', regenerateFile_of_unreadable hread⟩
  have hlog : (logNames (m := SessionM φ) settings path source s').2.tree = s.tree :=
    (tree_logNames settings path source s').trans hs'
  cases hr : regenerate settings source with
  | error error =>
    exact .inl ⟨_, _, .source hread hr, hlog, regenerateFile_of_source_error hread hr⟩
  | ok r =>
    by_cases hsame : r.output = source
    · refine .inr ⟨_, _, regenerateFile_of_output_eq hread hr hsame, location, _, r, permissions,
        hfind, hr, ?_, .inl rfl, by rw [if_pos hsame]⟩
      -- putting the old content where it stands changes nothing
      rw [hsame, FileTree.put_eq_self (FileTree.find_eq_ok_iff.1 hfind).2]
      exact (Session.tree_record _ _).trans hlog
    · obtain ⟨error, s'', hreplace, hs''⟩ | ⟨_, s'', hreplace, kept, hkept, hs''⟩ :=
        Session.replaceFile_ends (hlog ▸ hfind) r.output
      · exact .inl ⟨_, s'', .unwritable hread hr hsame hreplace, hs''.trans hlog,
          regenerateFile_of_unwritable hread hr hsame hreplace⟩
      · refine .inr ⟨_, _, regenerateFile_of_replaced hread hr hsame hreplace, location, _, r, kept,
          hfind, hr, ?_, hkept.imp_right fun h => ⟨hsame, h⟩, rfl⟩
        exact (Session.tree_record _ _).trans (hlog ▸ hs'')

end MemoryKit
