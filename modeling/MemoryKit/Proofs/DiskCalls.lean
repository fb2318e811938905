import MemoryKit.Proofs.FileSteps

/-!
# Calls on a disk

On a disk the outcome of a replacement is settled by the calls that the system refuses: it fails
with the first refusal, and otherwise the new content stands where the old one stood. So what is
done to a file depends on that file, on the entries around it and on the system, and not on what
other files hold.
-/

namespace MemoryKit

namespace Disk

variable {disk disk' : Disk} {path : String} {temporary location : Location} {old : File}
  {content : Bytes}

/-! ## 1. Outcomes -/

/-- Fails with the error of a call that the system refuses. -/
def permit (disk : Disk) (request : FileCall) : Except FileError Unit :=
  match disk.refusal? request with
  | some error => .error error
  | none => .ok ()

def opened (disk : Disk) (path : String) : Except FileError (Location × File) := do
  disk.permit (.read path)
  disk.tree.find path

/-- The permissions that a temporary file takes from an old one, or the refusal to set them. -/
def copyOutcome (disk : Disk) (temporary : Location) (path : String)
    (permissions : Permissions) : Except FileError Permissions :=
  match disk.permit (.permissions path) with
  | .ok () => do
    disk.permit (.setPermissions temporary permissions)
    return permissions
  | .error _ => return FileTree.ownerOnly

/-- The permissions of a temporary file that takes the place of an old one, or the first refusal on
the way there. -/
def fillOutcome (disk : Disk) (temporary : Location) (path : String) (content : Bytes)
    (permissions : Permissions) : Except FileError Permissions := do
  disk.permit (.write temporary content)
  disk.permit (.sync temporary)
  let kept ← disk.copyOutcome temporary path permissions
  disk.permit (.persist temporary path)
  return kept

/-- The permissions of a file with new content, or the first refusal of its replacement. -/
def replaceOutcome (disk : Disk) (path : String) (content : Bytes) (permissions : Permissions) :
    Except FileError Permissions := do
  disk.permit (.createTemporary (directoryOf path))
  let temporary ← disk.tree.newLocation (directoryOf path) (disk.names (directoryOf path))
  disk.fillOutcome temporary path content permissions

theorem find_of_opened_eq_ok (h : disk.opened path = .ok (location, old)) :
    disk.tree.find path = .ok (location, old) := by
  unfold opened at h
  cases hpermit : disk.permit (.read path) with
  | error error =>
    rw [hpermit] at h
    cases h
  | ok _ =>
    rw [hpermit] at h
    exact h

/-! ## 2. Runs -/

def withTemporary (disk : Disk) (temporary : Location) (file : File) : Disk :=
  { disk with tree := disk.tree.put temporary (some (.file file)) }

def withFile (disk : Disk) (location : Location) (file : File) : Disk :=
  { disk with tree := disk.tree.put location (some (.file file)) }

theorem node?_withTemporary (disk : Disk) (temporary : Location) (file : File) :
    (disk.withTemporary temporary file).tree.node? temporary = some (.file file) :=
  FileTree.node?_put_self _ _ _

/-- Reading gives the content of the file that the path opens, and changes nothing. -/
theorem run_read (disk : Disk) (path : String) :
    (FileStore.read (m := StateM Disk) path).run disk =
      ((disk.opened path).map fun found => found.2.content, disk) := by
  unfold opened permit
  cases hrefusal : disk.refusal? (.read path) with
  | some error => exact call_of_refusal hrefusal
  | none =>
    cases hfind : disk.tree.find path with
    | error error => exact call_of_error hrefusal (by rw [hfind]; rfl)
    | ok found =>
      refine call_of_ok hrefusal ?_
      rw [hfind]
      rfl

/-- A call that the tree allows is made, or it is refused and changes nothing. -/
theorem call_cases {α : Type} {request : FileCall}
    {act : Disk → Except FileError (α × FileTree)} {a : α} {after : FileTree}
    (hrefusal : disk'.refusal? = disk.refusal?) (hact : act disk' = .ok (a, after)) :
    (∃ error, disk.permit request = .error error ∧
      (call request act).run disk' = (.error error, disk')) ∨
    disk.permit request = .ok () ∧
      (call request act).run disk' = (.ok a, { disk' with tree := after }) := by
  unfold permit
  rw [← hrefusal]
  cases hrequest : disk'.refusal? request with
  | some error => exact .inl ⟨error, rfl, call_of_refusal hrequest⟩
  | none => exact .inr ⟨rfl, call_of_ok hrequest hact⟩

theorem modify_withTemporary (disk : Disk) (temporary : Location) (file : File)
    (change : File → File) :
    (disk.withTemporary temporary file).tree.modify temporary change =
      (disk.withTemporary temporary (change file)).tree := by
  rw [FileTree.modify_of_node?_eq (node?_withTemporary disk temporary file)]
  exact FileTree.put_put _ _ _ _

/-- A write is refused, with the disk as it was, or the temporary file gets the content. -/
theorem write_cases (disk : Disk) (temporary : Location) (file : File) (content : Bytes) :
    (∃ error, disk.permit (.write temporary content) = .error error ∧
      (FileStore.write (m := StateM Disk) temporary content).run
        (disk.withTemporary temporary file) =
          (.error error, disk.withTemporary temporary file)) ∨
    disk.permit (.write temporary content) = .ok () ∧
      (FileStore.write (m := StateM Disk) temporary content).run
        (disk.withTemporary temporary file) = (.ok (), disk.withTemporary temporary
          { file with content := file.content ++ content }) :=
  call_cases rfl (by rw [modify_withTemporary]; rfl)

theorem sync_cases (disk : Disk) (temporary : Location) (file : File) :
    (∃ error, disk.permit (.sync temporary) = .error error ∧
      (FileStore.sync (m := StateM Disk) temporary).run (disk.withTemporary temporary file) =
        (.error error, disk.withTemporary temporary file)) ∨
    disk.permit (.sync temporary) = .ok () ∧
      (FileStore.sync (m := StateM Disk) temporary).run (disk.withTemporary temporary file) =
        (.ok (), disk.withTemporary temporary file) :=
  call_cases rfl rfl

/-- A path has the permissions it had before the temporary file was there. -/
theorem permissions_cases (hnew : disk.tree.node? temporary = none)
    (hfind : disk.tree.find path = .ok (location, old)) (file : File) :
    (∃ error, disk.permit (.permissions path) = .error error ∧
      (FileStore.permissions (m := StateM Disk) path).run (disk.withTemporary temporary file) =
        (.error error, disk.withTemporary temporary file)) ∨
    disk.permit (.permissions path) = .ok () ∧
      (FileStore.permissions (m := StateM Disk) path).run (disk.withTemporary temporary file) =
        (.ok old.permissions, disk.withTemporary temporary file) := by
  have hfound : (disk.withTemporary temporary file).tree.find path = .ok (location, old) :=
    FileTree.find_put_of_new hnew _ hfind
  exact call_cases rfl (by rw [hfound]; rfl)

theorem setPermissions_cases (disk : Disk) (temporary : Location) (file : File)
    (permissions : Permissions) :
    (∃ error, disk.permit (.setPermissions temporary permissions) = .error error ∧
      (FileStore.setPermissions (m := StateM Disk) temporary permissions).run
        (disk.withTemporary temporary file) =
          (.error error, disk.withTemporary temporary file)) ∨
    disk.permit (.setPermissions temporary permissions) = .ok () ∧
      (FileStore.setPermissions (m := StateM Disk) temporary permissions).run
        (disk.withTemporary temporary file) =
          (.ok (), disk.withTemporary temporary { file with permissions }) :=
  call_cases rfl (by rw [modify_withTemporary]; rfl)

/-- A rename is refused, with the disk as it was, or the path leads to the temporary file. -/
theorem persist_cases (hnew : disk.tree.node? temporary = none)
    (hfind : disk.tree.find path = .ok (location, old)) (file : File) :
    (∃ error, disk.permit (.persist temporary path) = .error error ∧
      (FileStore.persist (m := StateM Disk) temporary path).run
        (disk.withTemporary temporary file) =
          (.error error, disk.withTemporary temporary file)) ∨
    disk.permit (.persist temporary path) = .ok () ∧
      (FileStore.persist (m := StateM Disk) temporary path).run
        (disk.withTemporary temporary file) = (.ok (), disk.withFile location file) := by
  have hfound : (disk.withTemporary temporary file).tree.find path = .ok (location, old) :=
    FileTree.find_put_of_new hnew _ hfind
  have hmove : (disk.withTemporary temporary file).tree.move temporary location =
      (disk.withFile location file).tree := FileTree.move_put hnew _ _
  refine call_cases rfl ?_
  rw [hfound, node?_withTemporary]
  exact congrArg (fun tree => Except.ok ((), tree)) hmove

/-- The new permissions are those that `copyOutcome` foretells, and so is the error. -/
theorem copyPermissions_cases (hnew : disk.tree.node? temporary = none)
    (hfind : disk.tree.find path = .ok (location, old)) (content : Bytes) :
    (∃ error, disk.copyOutcome temporary path old.permissions = .error error ∧
      (copyPermissions (m := StateM Disk) temporary path).run
        (disk.withTemporary temporary ⟨content, FileTree.ownerOnly⟩) =
          (.error error, disk.withTemporary temporary ⟨content, FileTree.ownerOnly⟩)) ∨
    ∃ permissions, disk.copyOutcome temporary path old.permissions = .ok permissions ∧
      (copyPermissions (m := StateM Disk) temporary path).run
        (disk.withTemporary temporary ⟨content, FileTree.ownerOnly⟩) =
          (.ok (), disk.withTemporary temporary ⟨content, permissions⟩) := by
  -- permissions that cannot be read are no error, and the file keeps its own
  unfold copyPermissions copyOutcome
  rw [run_bind_of_ok (run_lift _ _)]
  obtain ⟨error, hpermit, hrun⟩ | ⟨hpermit, hrun⟩ :=
    permissions_cases hnew hfind ⟨content, FileTree.ownerOnly⟩
  · rw [hpermit, hrun]
    exact .inr ⟨FileTree.ownerOnly, rfl, rfl⟩
  rw [hpermit, hrun]
  obtain ⟨error, hset, hrun'⟩ | ⟨hset, hrun'⟩ :=
    setPermissions_cases disk temporary ⟨content, FileTree.ownerOnly⟩ old.permissions
  · rw [hset]
    exact .inl ⟨error, rfl, hrun'⟩
  · rw [hset]
    exact .inr ⟨old.permissions, rfl, hrun'⟩

/-- The calls after the creation of the temporary file put it in place, or stop at the first that
is refused and leave it behind. -/
theorem fillAndPersist_cases (hnew : disk.tree.node? temporary = none)
    (hfind : disk.tree.find path = .ok (location, old)) (content : Bytes) :
    (∃ error file, disk.fillOutcome temporary path content old.permissions = .error error ∧
      (fillAndPersist (m := StateM Disk) temporary path content).run
        (disk.withTemporary temporary ⟨[], FileTree.ownerOnly⟩) =
          (.error error, disk.withTemporary temporary file)) ∨
    ∃ permissions, disk.fillOutcome temporary path content old.permissions = .ok permissions ∧
      (fillAndPersist (m := StateM Disk) temporary path content).run
        (disk.withTemporary temporary ⟨[], FileTree.ownerOnly⟩) =
          (.ok (), disk.withFile location ⟨content, permissions⟩) := by
  unfold fillAndPersist fillOutcome
  obtain ⟨error, hwrite, hrun⟩ | ⟨hwrite, hrun⟩ :=
    write_cases disk temporary ⟨[], FileTree.ownerOnly⟩ content
  · rw [hwrite]
    exact .inl ⟨error, _, rfl, run_bind_of_error hrun⟩
  rw [hwrite, run_bind_of_ok hrun, List.nil_append]
  obtain ⟨error, hsync, hrun⟩ | ⟨hsync, hrun⟩ :=
    sync_cases disk temporary ⟨content, FileTree.ownerOnly⟩
  · rw [hsync]
    exact .inl ⟨error, _, rfl, run_bind_of_error hrun⟩
  rw [hsync, run_bind_of_ok hrun]
  obtain ⟨error, hcopy, hrun⟩ | ⟨permissions, hcopy, hrun⟩ :=
    copyPermissions_cases hnew hfind content
  · rw [hcopy]
    exact .inl ⟨error, _, rfl, run_bind_of_error hrun⟩
  rw [hcopy, run_bind_of_ok hrun]
  obtain ⟨error, hpersist, hrun⟩ | ⟨hpersist, hrun⟩ :=
    persist_cases hnew hfind ⟨content, permissions⟩
  · rw [hpersist]
    exact .inl ⟨error, _, rfl, hrun⟩
  · rw [hpersist]
    exact .inr ⟨permissions, rfl, hrun⟩

/-- A replacement fails with the first refusal and changes nothing, or the new content stands where
the old one stood. -/
theorem replaceFile_cases (hfind : disk.tree.find path = .ok (location, old)) (content : Bytes) :
    (∃ error, disk.replaceOutcome path content old.permissions = .error error ∧
      (replaceFile (m := StateM Disk) path content).run disk = (.error error, disk)) ∨
    ∃ permissions, disk.replaceOutcome path content old.permissions = .ok permissions ∧
      (replaceFile (m := StateM Disk) path content).run disk =
        (.ok (), disk.withFile location ⟨content, permissions⟩) := by
  unfold replaceFile replaceOutcome permit
  cases hrefusal : disk.refusal? (.createTemporary (directoryOf path)) with
  | some error => exact .inl ⟨error, rfl, run_bind_of_error (call_of_refusal hrefusal)⟩
  | none =>
    cases htemporary : disk.tree.newLocation (directoryOf path)
        (disk.names (directoryOf path)) with
    | error error =>
      refine .inl ⟨error, rfl, run_bind_of_error (call_of_error hrefusal ?_)⟩
      rw [htemporary]
      rfl
    | ok temporary =>
      have hnew := FileTree.node?_of_newLocation_eq_ok htemporary
      have hcreate : (FileStore.createTemporary (m := StateM Disk) (directoryOf path)).run disk =
          (.ok temporary, disk.withTemporary temporary ⟨[], FileTree.ownerOnly⟩) := by
        refine call_of_ok hrefusal ?_
        rw [htemporary]
        rfl
      rw [run_bind_of_ok hcreate]
      obtain ⟨error, file, hfill, hrun⟩ | ⟨permissions, hfill, hrun⟩ :=
        fillAndPersist_cases hnew hfind content
      · refine .inl ⟨error, hfill, (run_tryCatch_of_error hrun).trans ?_⟩
        -- the temporary file is removed
        have htree : (disk.withTemporary temporary file).tree.put temporary none = disk.tree :=
          (FileTree.put_put _ _ _ _).trans (FileTree.put_eq_self hnew)
        exact congrArg (fun tree => (Except.error error, { disk with tree })) htree
      · exact .inr ⟨permissions, hfill, run_tryCatch_of_ok hrun⟩

/-! ## 3. Steps -/

variable {settings : Settings} {report : FileReport}

/-- The permissions of a file whose content becomes the output, or the first refusal. -/
def keptPermissions (disk : Disk) (path : String) (old : File) (output : Bytes) :
    Except FileError Permissions :=
  if output = old.content then .ok old.permissions
  else disk.replaceOutcome path output old.permissions

/-- What regenerating a file gives: a report and the file that then stands where the path leads, or
a failure. -/
def step (settings : Settings) (disk : Disk) (path : String) :
    Except FileFailureCause (FileReport × Location × File) :=
  match disk.opened path with
  | .error error => .error (.unreadable error)
  | .ok (location, old) =>
    match regenerate settings old.content with
    | .error error => .error (.source error)
    | .ok r =>
      match disk.keptPermissions path old r.output with
      | .error error => .error (.unwritable error)
      | .ok permissions => .ok (r.report path old.content, location, ⟨r.output, permissions⟩)

theorem withFile_eq_self (hfind : disk.tree.find path = .ok (location, old)) :
    disk.withFile location old = disk := by
  unfold withFile
  rw [FileTree.put_eq_self (FileTree.find_eq_ok_iff.1 hfind).2]

end Disk

theorem files_record {φ : Type} (event : Log.Event) (session : Session φ) :
    (session.record event).files = session.files := by
  unfold Session.record
  split <;> rfl

/-- Logging the names of a table touches no file. -/
theorem files_logNames {φ : Type} (settings : Settings) (path : String) (source : Bytes)
    (session : Session φ) :
    (logNames (m := SessionM φ) settings path source session).2.files = session.files := by
  unfold logNames
  cases nameCounts? settings source with
  | none => rfl
  | some counts => exact files_record _ _

/-- On a disk regenerating a file does what the step says, and a failure changes no file. -/
theorem regenerateFile_eq_step (settings : Settings) (path : String) (s : Session Disk) :
    (∃ cause s', s.files.step settings path = .error cause ∧
      regenerateFile (m := SessionM Disk) settings path s = (.error ⟨path, cause⟩, s') ∧
      s'.files = s.files) ∨
    ∃ report location file s', s.files.step settings path = .ok (report, location, file) ∧
      regenerateFile (m := SessionM Disk) settings path s = (.ok report, s') ∧
      s'.files = s.files.withFile location file := by
  have hread : (FileStore.read (m := SessionM Disk) path).run s = _ :=
    Session.run_callOnFiles_of_eq (s.files.run_read path)
  unfold Disk.step
  cases hopened : s.files.opened path with
  | error error =>
    rw [hopened] at hread
    exact .inl ⟨_, _, rfl, regenerateFile_of_unreadable hread, rfl⟩
  | ok found =>
    obtain ⟨location, old⟩ := found
    rw [hopened] at hread
    have hfind := Disk.find_of_opened_eq_ok hopened
    have hlog : (logNames (m := SessionM Disk) settings path old.content s).2.files = s.files :=
      files_logNames settings path old.content s
    cases hr : regenerate settings old.content with
    | error error =>
      simp only [hr]
      exact .inl ⟨_, _, rfl, regenerateFile_of_source_error hread hr, hlog⟩
    | ok r =>
      simp only [hr]
      unfold Disk.keptPermissions
      by_cases hsame : r.output = old.content
      · -- the file is up to date and stays as it is
        rw [if_pos hsame, hsame, Regenerated.report, if_pos hsame]
        refine .inr ⟨_, location, _, _, rfl, regenerateFile_of_output_eq hread hr hsame, ?_⟩
        rw [s.files.withFile_eq_self hfind]
        exact (files_record _ _).trans hlog
      · rw [if_neg hsame]
        -- logging the names left the disk alone, so the file is still found there
        rw [← hlog] at hfind
        obtain ⟨error, houtcome, hrun⟩ | ⟨permissions, houtcome, hrun⟩ :=
          Disk.replaceFile_cases hfind r.output
        · have hreplace := Session.run_replaceFile_of_eq hrun
          rw [hlog] at houtcome
          rw [houtcome]
          exact .inl ⟨_, _, rfl, regenerateFile_of_unwritable hread hr hsame hreplace, hlog⟩
        · have hreplace := Session.run_replaceFile_of_eq hrun
          rw [hlog] at houtcome
          rw [houtcome]
          refine .inr ⟨_, location, _, _, rfl,
            regenerateFile_of_replaced hread hr hsame hreplace, ?_⟩
          rw [← hlog]
          exact files_record _ _

end MemoryKit
