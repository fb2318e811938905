import MemoryKit.FileTree

/-!
# Entries of a file tree

New content in a file leaves every entry where it is. Each path then leads where it led before, and
only the content at the one location is new. A new entry changes nothing for a path that leads to a
file already.
-/

namespace MemoryKit

def Node.isFile : Node → Bool
  | .file _ => true
  | .directory => false

namespace FileTree

variable {tree tree' tree'' : FileTree} {path name : String} {place location other : Location}
  {file : File} {node? : Option Node}

/-! ## 1. Putting nodes -/

theorem node?_put_self (tree : FileTree) (location : Location) (node? : Option Node) :
    (tree.put location node?).node? location = node? :=
  if_pos rfl

theorem node?_put_of_ne (tree : FileTree) (h : other ≠ location) (node? : Option Node) :
    (tree.put location node?).node? other = tree.node? other :=
  if_neg h

theorem put_put (tree : FileTree) (location : Location) (node? node?' : Option Node) :
    (tree.put location node?).put location node?' = tree.put location node?' := by
  ext1
  · rfl
  · funext other
    by_cases hother : other = location
    · rw [hother, node?_put_self, node?_put_self]
    · rw [node?_put_of_ne _ hother, node?_put_of_ne _ hother, node?_put_of_ne _ hother]

theorem put_eq_self (h : tree.node? location = node?) : tree.put location node? = tree := by
  ext1
  · rfl
  · funext other
    by_cases hother : other = location
    · rw [hother, node?_put_self, h]
    · rw [node?_put_of_ne _ hother]

/-- A node that has been put at a new location and is moved replaces the node that stands there. -/
theorem move_put (hnew : tree.node? location = none) (node? : Option Node) (other : Location) :
    (tree.put location node?).move location other = tree.put other node? := by
  rw [move, put_put, node?_put_self, put_eq_self hnew]

theorem modify_of_node?_eq (h : tree.node? location = some (.file file)) (change : File → File) :
    tree.modify location change = tree.put location (some (.file (change file))) := by
  rw [modify, h]

/-! ## 2. The same entries -/

/-- The two trees have files and directories at the same locations. -/
structure SameEntries (tree tree' : FileTree) : Prop where
  start_eq : tree'.start = tree.start
  map_isFile_eq (location : Location) :
    (tree'.node? location).map Node.isFile = (tree.node? location).map Node.isFile

namespace SameEntries

theorem refl (tree : FileTree) : tree.SameEntries tree :=
  ⟨rfl, fun _ => rfl⟩

theorem trans (h : tree.SameEntries tree') (h' : tree'.SameEntries tree'') :
    tree.SameEntries tree'' where
  start_eq := h'.start_eq.trans h.start_eq
  map_isFile_eq location := (h'.map_isFile_eq location).trans (h.map_isFile_eq location)

theorem isSome_node?_eq (h : tree.SameEntries tree') (location : Location) :
    (tree'.node? location).isSome = (tree.node? location).isSome := by
  rw [← Option.isSome_map (f := Node.isFile), h.map_isFile_eq, Option.isSome_map]

theorem node?_eq_directory_iff (h : tree.SameEntries tree') (location : Location) :
    tree'.node? location = some .directory ↔ tree.node? location = some .directory := by
  have hisFile (node? : Option Node) :
      node? = some .directory ↔ node?.map Node.isFile = some false := by
    rcases node? with _ | _ | _ <;> simp [Node.isFile]
  rw [hisFile, hisFile, h.map_isFile_eq]

theorem enter_eq (h : tree.SameEntries tree') (place : Location) (name : String) :
    tree'.enter place name = tree.enter place name := by
  unfold enter
  simp only [ne_eq, h.node?_eq_directory_iff place, h.isSome_node?_eq]

/-- A path leads to the same place in two trees with the same entries. -/
theorem resolve_eq (h : tree.SameEntries tree') (path : String) :
    tree'.resolve path = tree.resolve path := by
  have henter : tree'.enter = tree.enter := funext fun place => funext (h.enter_eq place)
  unfold resolve
  rw [henter, h.start_eq]

end SameEntries

/-- A node put in the place of one of its kind changes no entry. -/
theorem sameEntries_put (h : (tree.node? location).map Node.isFile = node?.map Node.isFile) :
    tree.SameEntries (tree.put location node?) where
  start_eq := rfl
  map_isFile_eq other := by
    by_cases hother : other = location
    · rw [hother, node?_put_self, h]
    · rw [node?_put_of_ne _ hother]

/-! ## 3. Files by path -/

def location? (tree : FileTree) (path : String) : Option Location :=
  match tree.find path with
  | .ok (location, _) => some location
  | .error _ => none

theorem find_eq_ok_iff : tree.find path = .ok (location, file) ↔
    tree.resolve path = .ok location ∧ tree.node? location = some (.file file) := by
  unfold find
  constructor
  · intro h
    split at h
    · cases h
    · rename_i place hresolve
      split at h
      · rename_i found hnode
        obtain ⟨rfl, rfl⟩ := Prod.mk.inj (Except.ok.inj h)
        exact ⟨hresolve, hnode⟩
      · cases h
      · cases h
  · rintro ⟨hresolve, hnode⟩
    simp only [hresolve, hnode]

theorem location?_of_find_eq_ok (h : tree.find path = .ok (location, file)) :
    tree.location? path = some location := by
  unfold location?
  rw [h]

theorem location?_eq_none_iff :
    tree.location? path = none ↔ ∃ error, tree.find path = .error error := by
  unfold location?
  cases tree.find path <;> simp

/-- A path that leads to no file fails the same way in two trees with the same entries. -/
theorem SameEntries.find_eq_error (h : tree.SameEntries tree') {error : FileError}
    (hfind : tree.find path = .error error) : tree'.find path = .error error := by
  unfold find at hfind ⊢
  rw [h.resolve_eq]
  cases hresolve : tree.resolve path with
  | error error' => rwa [hresolve] at hfind
  | ok location =>
    have hentry := h.map_isFile_eq location
    rw [hresolve] at hfind
    simp only at hfind ⊢
    rcases hnode : tree.node? location with _ | _ | _ <;>
      rcases hnode' : tree'.node? location with _ | _ | _ <;>
      simp_all [Node.isFile]

theorem SameEntries.location?_eq (h : tree.SameEntries tree') (path : String) :
    tree'.location? path = tree.location? path := by
  cases hfind : tree.find path with
  | error error =>
    have hnone := location?_eq_none_iff.2 ⟨error, hfind⟩
    rw [hnone, location?_eq_none_iff.2 ⟨error, h.find_eq_error hfind⟩]
  | ok found =>
    obtain ⟨location, file⟩ := found
    obtain ⟨hresolve, hnode⟩ := find_eq_ok_iff.1 hfind
    have hentry := h.map_isFile_eq location
    rw [hnode] at hentry
    obtain ⟨node, hnode', hisFile⟩ := Option.map_eq_some_iff.1 hentry
    cases node with
    | directory => cases hisFile
    | file file' =>
      rw [location?_of_find_eq_ok hfind,
        location?_of_find_eq_ok (find_eq_ok_iff.2 ⟨h.resolve_eq path ▸ hresolve, hnode'⟩)]

/-- A path that leads to an unchanged file, or to no file, is found as before. -/
theorem SameEntries.find_eq (h : tree.SameEntries tree')
    (hnode : ∀ location, tree.location? path = some location →
      tree'.node? location = tree.node? location) : tree'.find path = tree.find path := by
  cases hfind : tree.find path with
  | error error => exact h.find_eq_error hfind
  | ok found =>
    obtain ⟨location, file⟩ := found
    obtain ⟨hresolve, hfile⟩ := find_eq_ok_iff.1 hfind
    rw [find_eq_ok_iff, h.resolve_eq, hnode location (location?_of_find_eq_ok hfind)]
    exact ⟨hresolve, hfile⟩

/-! ## 4. New content -/

/-- New content for a file that was found changes no entry. -/
theorem sameEntries_put_file (hfind : tree.find path = .ok (location, file)) (new : File) :
    tree.SameEntries (tree.put location (some (.file new))) := by
  apply sameEntries_put
  rw [(find_eq_ok_iff.1 hfind).2]
  rfl

/-- The path of a file that was replaced leads to the new file. -/
theorem find_put_file (hfind : tree.find path = .ok (location, file)) (new : File) :
    (tree.put location (some (.file new))).find path = .ok (location, new) := by
  rw [find_eq_ok_iff, (sameEntries_put_file hfind new).resolve_eq, node?_put_self]
  exact ⟨(find_eq_ok_iff.1 hfind).1, rfl⟩

/-! ## 5. New entries -/

/-- A name leads on from a directory: to itself, to its parent, or to an entry of the name. -/
theorem enter_eq_ok_iff : tree.enter place name = .ok other ↔
    tree.node? place = some .directory ∧
      ((isIdleName name ∧ other = place) ∨
        (¬isIdleName name ∧ name = ".." ∧ other = place.dropLast) ∨
        (¬isIdleName name ∧ name ≠ ".." ∧ (utf8 name).length ≤ longestName ∧
          (tree.node? (place ++ [name])).isSome ∧ other = place ++ [name])) := by
  unfold enter
  by_cases hdirectory : tree.node? place = some .directory
  · rw [if_neg (not_not_intro hdirectory), and_iff_right hdirectory]
    by_cases hidle : isIdleName name
    · rw [if_pos hidle]
      simp [hidle, eq_comm (a := place)]
    rw [if_neg hidle]
    by_cases hparent : name = ".."
    · have hdots : isIdleName ".." = false := by decide
      rw [if_pos hparent]
      simp [hdots, hparent, eq_comm (a := place.dropLast)]
    rw [if_neg hparent]
    by_cases hlong : longestName < (utf8 name).length
    · rw [if_pos hlong]
      simp [hidle, hparent, Nat.not_le_of_lt hlong]
    rw [if_neg hlong]
    by_cases hsome : (tree.node? (place ++ [name])).isSome
    · rw [if_pos hsome]
      simp [hidle, hparent, Nat.le_of_not_lt hlong, hsome, eq_comm (a := place ++ [name])]
    · rw [if_neg hsome]
      simp [hidle, hparent, hsome]
  · rw [if_pos hdirectory]
    simp [hdirectory]

theorem enter_put_of_new (hnew : tree.node? location = none) (node? : Option Node)
    (h : tree.enter place name = .ok other) :
    (tree.put location node?).enter place name = .ok other := by
  have hold {old : Location} (hsome : (tree.node? old).isSome) :
      (tree.put location node?).node? old = tree.node? old := by
    apply node?_put_of_ne
    rintro rfl
    rw [hnew] at hsome
    cases hsome
  obtain ⟨hdirectory, hname⟩ := enter_eq_ok_iff.1 h
  have hplace := hold (Option.isSome_of_eq_some hdirectory)
  refine enter_eq_ok_iff.2 ⟨hplace.trans hdirectory, ?_⟩
  obtain hidle | hparent | ⟨hidle, hparent, hlength, hsome, rfl⟩ := hname
  · exact .inl hidle
  · exact .inr (.inl hparent)
  · exact .inr (.inr ⟨hidle, hparent, hlength, (hold hsome).symm ▸ hsome, rfl⟩)

/-- A new node stands in the way of no path. -/
theorem foldlM_enter_put_of_new (hnew : tree.node? location = none) (node? : Option Node)
    {names : List String} (h : names.foldlM tree.enter place = .ok other) :
    names.foldlM (tree.put location node?).enter place = .ok other := by
  induction names generalizing place with
  | nil => exact h
  | cons name names ih =>
    rw [List.foldlM_cons] at h ⊢
    cases henter : tree.enter place name with
    | error error =>
      rw [henter] at h
      cases h
    | ok next =>
      rw [henter] at h
      rw [enter_put_of_new hnew node? henter]
      exact ih h

theorem resolve_put_of_new (hnew : tree.node? location = none) (node? : Option Node)
    (h : tree.resolve path = .ok other) :
    (tree.put location node?).resolve path = .ok other := by
  unfold resolve at h ⊢
  split at h
  · cases h
  rename_i hnul
  split at h
  · cases h
  rename_i hempty
  split at h
  · cases h
  rename_i hlength
  rw [if_neg hnul, if_neg hempty, if_neg hlength]
  exact foldlM_enter_put_of_new hnew node? h

/-- A path that leads to a file leads to it also after an entry has been added. -/
theorem find_put_of_new (hnew : tree.node? location = none) (node? : Option Node)
    (h : tree.find path = .ok (other, file)) :
    (tree.put location node?).find path = .ok (other, file) := by
  obtain ⟨hresolve, hnode⟩ := find_eq_ok_iff.1 h
  have hne : other ≠ location := by
    rintro rfl
    rw [hnew] at hnode
    cases hnode
  rw [find_eq_ok_iff, node?_put_of_ne _ hne]
  exact ⟨resolve_put_of_new hnew node? hresolve, hnode⟩

theorem node?_of_newLocation_eq_ok {directory : String} {names : List String}
    (h : tree.newLocation directory names = .ok location) : tree.node? location = none := by
  unfold newLocation at h
  split at h
  · cases h
  · split at h
    · cases h
    · split at h
      · rename_i hfind
        cases h
        have hnone := List.find?_some hfind
        exact Option.isNone_iff_eq_none.1 hnone
      · cases h

end FileTree

end MemoryKit
