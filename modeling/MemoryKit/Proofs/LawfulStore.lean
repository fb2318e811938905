import MemoryKit.Disk
import MemoryKit.Proofs.TreeEntries
import MemoryKit.Regeneration.Replacement

/-!
# Lawful file stores

What is relied on of the calls to the system, and what follows for a replacement: the content of a
file is replaced as a whole, or the tree is as it was. A call that fails changes nothing, but for a
write, which may have reached the temporary file in part.
-/

namespace MemoryKit

/-! ## 1. Ends of a computation -/

variable {φ α β : Type} {files : φ → FileTree}

/-- A computation fails and leaves a tree with one property, or it succeeds with another property of
its result and of the tree that it leaves. -/
def Ends (files : φ → FileTree) (x : ExceptT FileError (StateM φ) α) (s : φ)
    (failed : FileTree → Prop) (done : α → FileTree → Prop) : Prop :=
  (∃ error s', x.run s = (.error error, s') ∧ failed (files s')) ∨
    ∃ a s', x.run s = (.ok a, s') ∧ done a (files s')

theorem bind_apply (x : StateM φ α) (f : α → StateM φ β) (s : φ) :
    (x >>= f) s = f (x s).1 (x s).2 :=
  rfl

theorem run_bind_of_ok {x : ExceptT FileError (StateM φ) α}
    {f : α → ExceptT FileError (StateM φ) β} {s s' : φ} {a : α} (h : x.run s = (.ok a, s')) :
    (x >>= f).run s = (f a).run s' := by
  rw [ExceptT.run_bind, bind_apply, h]

theorem run_bind_of_error {x : ExceptT FileError (StateM φ) α}
    {f : α → ExceptT FileError (StateM φ) β} {s s' : φ} {error : FileError}
    (h : x.run s = (.error error, s')) : (x >>= f).run s = (.error error, s') := by
  rw [ExceptT.run_bind, bind_apply, h]
  rfl

theorem run_lift (x : StateM φ α) (s : φ) :
    (ExceptT.lift x : ExceptT FileError (StateM φ) α).run s = (.ok (x s).1, (x s).2) :=
  rfl

theorem run_tryCatch_of_ok {x : ExceptT FileError (StateM φ) α}
    {handle : FileError → ExceptT FileError (StateM φ) α} {s s' : φ} {a : α}
    (h : x.run s = (.ok a, s')) : (tryCatch x handle).run s = (.ok a, s') := by
  rw [ExceptT.run_tryCatch, bind_apply, h]
  rfl

theorem run_tryCatch_of_error {x : ExceptT FileError (StateM φ) α}
    {handle : FileError → ExceptT FileError (StateM φ) α} {s s' : φ} {error : FileError}
    (h : x.run s = (.error error, s')) : (tryCatch x handle).run s = (handle error).run s' := by
  rw [ExceptT.run_tryCatch, bind_apply, h]

namespace Ends

variable {x : ExceptT FileError (StateM φ) α} {f : α → ExceptT FileError (StateM φ) β} {s : φ}
  {failed failed' : FileTree → Prop} {done done' : α → FileTree → Prop}
  {after : β → FileTree → Prop}

/-- Only the outcome of a call counts. -/
theorem of_run_eq {y : ExceptT FileError (StateM φ) α} {s' : φ} (hrun : x.run s = y.run s')
    (h : Ends files y s' failed done) : Ends files x s failed done := by
  unfold Ends at h ⊢
  rwa [hrun]

/-- A call and what follows it end where the call fails or where the rest ends. -/
theorem bind (hx : Ends files x s failed done)
    (hf : ∀ a s', done a (files s') → Ends files (f a) s' failed after) :
    Ends files (x >>= f) s failed after := by
  obtain ⟨error, s', hrun, hfailed⟩ | ⟨a, s', hrun, hdone⟩ := hx
  · exact .inl ⟨error, s', run_bind_of_error hrun, hfailed⟩
  · exact (hf a s' hdone).of_run_eq (run_bind_of_ok hrun)

theorem mono (h : Ends files x s failed done) (hfailed : ∀ after, failed after → failed' after)
    (hdone : ∀ a after, done a after → done' a after) : Ends files x s failed' done' := by
  obtain ⟨error, s', hrun, h⟩ | ⟨a, s', hrun, h⟩ := h
  · exact .inl ⟨error, s', hrun, hfailed _ h⟩
  · exact .inr ⟨a, s', hrun, hdone _ _ h⟩

end Ends

/-! ## 2. Laws -/

/-- The laws of the calls to the system, over the tree of files in a state. A new temporary file is
empty, stands at a location where nothing stood, and its owner alone may use it; moving it replaces
the file at the target in one step. -/
class LawfulStore (φ : Type) [FileStore (StateM φ)] where
  tree : φ → FileTree
  read_ends (path : String) (s : φ) :
    Ends tree (FileStore.read path) s (· = tree s) fun content after =>
      after = tree s ∧
        ∃ location permissions, (tree s).find path = .ok (location, ⟨content, permissions⟩)
  permissions_ends (path : String) (s : φ) :
    Ends tree (FileStore.permissions path) s (· = tree s) fun permissions after =>
      after = tree s ∧
        ∀ location file, (tree s).find path = .ok (location, file) → permissions = file.permissions
  createTemporary_ends (directory : String) (s : φ) :
    Ends tree (FileStore.createTemporary directory) s (· = tree s) fun temporary after =>
      (tree s).node? temporary = none ∧
        after = (tree s).put temporary (some (.file ⟨[], FileTree.ownerOnly⟩))
  write_ends (temporary : Location) (content : Bytes) (s : φ) (file : File) :
    (tree s).node? temporary = some (.file file) →
    Ends tree (FileStore.write temporary content) s
      (fun after => ∃ partly, after = (tree s).put temporary (some (.file partly)))
      fun _ after =>
        after = (tree s).modify temporary fun file =>
          { file with content := file.content ++ content }
  sync_ends (temporary : Location) (s : φ) :
    Ends tree (FileStore.sync temporary) s (· = tree s) fun _ after => after = tree s
  setPermissions_ends (temporary : Location) (permissions : Permissions) (s : φ) :
    Ends tree (FileStore.setPermissions temporary permissions) s (· = tree s) fun _ after =>
      after = (tree s).modify temporary fun file => { file with permissions }
  persist_ends (temporary : Location) (path : String) (s : φ) (node : Node) (location : Location)
    (file : File) :
    (tree s).node? temporary = some node → (tree s).find path = .ok (location, file) →
    Ends tree (FileStore.persist temporary path) s (· = tree s) fun _ after =>
      after = (tree s).move temporary location
  tree_remove (temporary : Location) (s : φ) :
    tree ((FileStore.remove temporary : StateM φ Unit) s).2 = (tree s).put temporary none

/-! ## 3. Disks -/

namespace Disk

variable {request : FileCall} {act : Disk → Except FileError (α × FileTree)} {disk : Disk}

/-- A call that the system refuses changes nothing. -/
theorem call_of_refusal {error : FileError} (h : disk.refusal? request = some error) :
    (call request act).run disk = (.error error, disk) := by
  simp only [call, ExceptT.run_mk, h]

theorem call_of_error {error : FileError} (hrefusal : disk.refusal? request = none)
    (hact : act disk = .error error) : (call request act).run disk = (.error error, disk) := by
  simp only [call, ExceptT.run_mk, hrefusal, hact]

theorem call_of_ok {a : α} {after : FileTree} (hrefusal : disk.refusal? request = none)
    (hact : act disk = .ok (a, after)) :
    (call request act).run disk = (.ok a, { disk with tree := after }) := by
  simp only [call, ExceptT.run_mk, hrefusal, hact]

/-- A call fails and changes nothing, or it does to the tree what it is for. -/
theorem call_ends {done : α → FileTree → Prop}
    (h : ∀ a after, act disk = .ok (a, after) → done a after) :
    Ends Disk.tree (call request act) disk (· = disk.tree) done := by
  cases hrefusal : disk.refusal? request with
  | some error => exact .inl ⟨error, disk, call_of_refusal hrefusal, rfl⟩
  | none =>
    cases hact : act disk with
    | error error => exact .inl ⟨error, disk, call_of_error hrefusal hact, rfl⟩
    | ok result => exact .inr ⟨result.1, _, call_of_ok hrefusal hact, h _ _ hact⟩

instance : LawfulStore Disk where
  tree := Disk.tree
  read_ends path disk := by
    apply call_ends
    intro content after hact
    cases hfind : disk.tree.find path with
    | error error =>
      rw [hfind] at hact
      cases hact
    | ok found =>
      rw [hfind] at hact
      cases hact
      exact ⟨rfl, found.1, found.2.permissions, rfl⟩
  permissions_ends path disk := by
    apply call_ends
    intro permissions after hact
    cases hfind : disk.tree.find path with
    | error error =>
      rw [hfind] at hact
      cases hact
    | ok found =>
      rw [hfind] at hact
      cases hact
      refine ⟨rfl, fun location file hfile => ?_⟩
      cases hfile
      rfl
  createTemporary_ends directory disk := by
    apply call_ends
    intro temporary after hact
    cases hnew : disk.tree.newLocation directory (disk.names directory) with
    | error error =>
      rw [hnew] at hact
      cases hact
    | ok location =>
      rw [hnew] at hact
      cases hact
      exact ⟨FileTree.node?_of_newLocation_eq_ok hnew, rfl⟩
  write_ends temporary content disk file hfile := by
    have hends : Ends Disk.tree (FileStore.write (m := StateM Disk) temporary content) disk
        (· = disk.tree) fun _ after => after = disk.tree.modify temporary fun file =>
          { file with content := file.content ++ content } := by
      apply call_ends
      rintro _ _ ⟨⟩
      rfl
    refine hends.mono ?_ fun _ _ h => h
    rintro _ rfl
    exact ⟨file, (FileTree.put_eq_self hfile).symm⟩
  sync_ends temporary disk := by
    apply call_ends
    rintro _ _ ⟨⟩
    rfl
  setPermissions_ends temporary permissions disk := by
    apply call_ends
    rintro _ _ ⟨⟩
    rfl
  persist_ends temporary path disk node location file hnode hfind := by
    apply call_ends
    intro _ after hact
    rw [hfind, hnode] at hact
    cases hact
    rfl
  tree_remove temporary disk := rfl

end Disk

/-! ## 4. Replacing a file -/

section

open LawfulStore

variable [FileStore (StateM φ)] [LawfulStore φ] {before : FileTree} {temporary location : Location}
  {path : String} {file old : File} {s : φ} {content : Bytes}

/-- The temporary file takes the permissions of the old one, or it keeps its own where those cannot
be read. -/
theorem copyPermissions_ends (hnew : before.node? temporary = none)
    (hfind : before.find path = .ok (location, old))
    (hs : tree s = before.put temporary (some (.file file))) :
    Ends tree (copyPermissions temporary path) s
      (fun after => after = before.put temporary (some (.file file)))
      fun _ after => ∃ permissions,
        (permissions = old.permissions ∨ permissions = file.permissions) ∧
          after = before.put temporary (some (.file { file with permissions })) := by
  have hfound : (tree s).find path = .ok (location, old) :=
    hs ▸ FileTree.find_put_of_new hnew _ hfind
  unfold copyPermissions
  refine .of_run_eq (run_bind_of_ok (run_lift _ s)) ?_
  obtain ⟨error, s₁, hrun, hs₁⟩ | ⟨permissions, s₁, hrun, hs₁, hpermissions⟩ :=
    permissions_ends path s
  · rw [hrun]
    exact .inr ⟨(), s₁, rfl, file.permissions, .inr rfl, hs₁.trans hs⟩
  · rw [hs] at hs₁
    rw [hrun]
    refine (setPermissions_ends temporary permissions s₁).mono (fun _ h => h.trans hs₁) ?_
    rintro _ after rfl
    refine ⟨permissions, .inl (hpermissions location old hfound), ?_⟩
    rw [hs₁, FileTree.modify_of_node?_eq (FileTree.node?_put_self _ _ _), FileTree.put_put]

/-- Once the temporary file is there, the calls end with its content under the path and no
temporary file, or fail with the path as it was and the temporary file left over. -/
theorem fillAndPersist_ends (hnew : before.node? temporary = none)
    (hfind : before.find path = .ok (location, old))
    (hs : tree s = before.put temporary (some (.file ⟨[], FileTree.ownerOnly⟩))) :
    Ends tree (fillAndPersist temporary path content) s
      (fun after => ∃ file, after = before.put temporary (some (.file file)))
      fun _ after => ∃ permissions,
        (permissions = old.permissions ∨ permissions = FileTree.ownerOnly) ∧
          after = before.put location (some (.file ⟨content, permissions⟩)) := by
  -- after each call either it failed, or the temporary file has what is known of it
  have hempty : (tree s).node? temporary = some (.file ⟨[], FileTree.ownerOnly⟩) := by
    rw [hs, FileTree.node?_put_self]
  unfold fillAndPersist
  refine ((write_ends temporary content s _ hempty).mono ?_ fun _ _ h => h).bind ?_
  · rintro after ⟨partly, rfl⟩
    exact ⟨partly, by rw [hs, FileTree.put_put]⟩
  intro _ s₁ hs₁
  rw [FileTree.modify_of_node?_eq hempty, hs, FileTree.put_put, List.nil_append] at hs₁
  refine ((sync_ends temporary s₁).mono (fun _ h => ⟨_, h.trans hs₁⟩) fun _ _ h => h).bind ?_
  intro _ s₂ hs₂
  rw [hs₁] at hs₂
  refine ((copyPermissions_ends hnew hfind hs₂).mono (fun _ h => ⟨_, h⟩) fun _ _ h => h).bind ?_
  rintro _ s₃ ⟨permissions, hpermissions, hs₃⟩
  -- the new file stands in the way of no path, so the old one is still found
  have hfound : (tree s₃).find path = .ok (location, old) :=
    hs₃ ▸ FileTree.find_put_of_new hnew _ hfind
  have hfull : (tree s₃).node? temporary = some (.file ⟨content, permissions⟩) := by
    rw [hs₃, FileTree.node?_put_self]
  refine (persist_ends temporary path s₃ _ location old hfull hfound).mono
    (fun _ h => ⟨_, h.trans hs₃⟩) ?_
  rintro _ after rfl
  exact ⟨permissions, hpermissions, by rw [hs₃, FileTree.move_put hnew]⟩

/-- The content of a file is replaced as a whole, or the tree is as it was. No temporary file is
left, and the permissions stay unless they cannot be read. -/
theorem replaceFile_ends (hfind : (tree s).find path = .ok (location, old)) :
    Ends tree (replaceFile path content) s (· = tree s) fun _ after =>
      ∃ permissions, (permissions = old.permissions ∨ permissions = FileTree.ownerOnly) ∧
        after = (tree s).put location (some (.file ⟨content, permissions⟩)) := by
  unfold replaceFile
  apply (createTemporary_ends (directoryOf path) s).bind
  rintro temporary s₁ ⟨hnew, hs₁⟩
  have hends : Ends tree (fillAndPersist temporary path content) s₁ _ _ :=
    fillAndPersist_ends hnew hfind hs₁
  obtain ⟨error, s₂, hrun, file, hs₂⟩ | ⟨result, s₂, hrun, hdone⟩ := hends
  · -- the temporary file is removed, and with it all that the calls have done
    refine .inl ⟨error, _, run_tryCatch_of_error hrun, ?_⟩
    change tree ((FileStore.remove temporary : StateM φ Unit) s₂).2 = _
    rw [tree_remove, hs₂, FileTree.put_put, FileTree.put_eq_self hnew]
  · exact .inr ⟨result, s₂, run_tryCatch_of_ok hrun, hdone⟩

end

end MemoryKit
