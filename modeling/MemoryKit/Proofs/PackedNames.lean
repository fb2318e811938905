import MemoryKit.NameTable.Basic

/-!
# The layout of a name table

A table is determined by its names: their offsets are the lengths of what is packed before them. The
names are those added, without the later repeats, and at the offset of each the packed bytes hold it
up to the first NUL.
-/

namespace MemoryKit.NameTable

/-! ## 1. Names back to back -/

def packedBytes (names : List String) : Bytes :=
  names.flatMap fun name => utf8 name ++ [0]

/-- Names with their offsets, where the first one stands at `offset`. -/
def layout : (offset : Nat) → List String → List (String × Nat)
  | _, [] => []
  | offset, name :: names => (name, offset) :: layout (offset + (utf8 name).length + 1) names

def ofDistinct (names : List String) : NameTable :=
  ⟨layout 0 names, (packedBytes names).length⟩

theorem packedBytes_cons (name : String) (names : List String) :
    packedBytes (name :: names) = utf8 name ++ 0 :: packedBytes names := by
  unfold packedBytes
  rw [List.flatMap_cons, List.append_assoc, List.singleton_append]

theorem packedBytes_append (names more : List String) :
    packedBytes (names ++ more) = packedBytes names ++ packedBytes more :=
  List.flatMap_append

theorem map_fst_layout (offset : Nat) (names : List String) :
    (layout offset names).map (·.1) = names := by
  induction names generalizing offset with
  | nil => rfl
  | cons name names ih => rw [layout, List.map_cons, ih]

/-- The offsets of further names begin where the packed names end. -/
theorem layout_append (offset : Nat) (names more : List String) :
    layout offset (names ++ more) =
      layout offset names ++ layout (offset + (packedBytes names).length) more := by
  induction names generalizing offset with
  | nil => rfl
  | cons name names ih =>
    rw [List.cons_append, layout, layout, ih, packedBytes_cons, List.length_append,
      List.length_cons, List.cons_append]
    congr 3
    omega

/-- The offset of a name is the length of what is packed before it. -/
theorem getElem?_layout (offset : Nat) (names : List String) (k : Nat) :
    (layout offset names)[k]? =
      names[k]?.map fun name => (name, offset + (packedBytes (names.take k)).length) := by
  induction names generalizing offset k with
  | nil => rfl
  | cons name names ih =>
    cases k with
    | zero => rfl
    | succ k =>
      rw [layout, List.getElem?_cons_succ, List.getElem?_cons_succ, List.take_succ_cons, ih,
        packedBytes_cons, List.length_append, List.length_cons]
      congr
      funext name'
      congr 1
      omega

/-- A layout has an offset for its names and for no other. -/
theorem isSome_lookup_layout_iff (offset : Nat) (names : List String) (name : String) :
    ((layout offset names).lookup name).isSome ↔ name ∈ names := by
  induction names generalizing offset with
  | nil => simp [layout]
  | cons first names ih =>
    rw [layout, List.lookup_cons, List.mem_cons]
    by_cases h : name = first
    · simp [h]
    · rw [beq_false_of_ne h]
      simp only [h, false_or]
      exact ih _

/-! ## 2. Adding names -/

theorem names_ofDistinct (names : List String) : (ofDistinct names).names = names :=
  map_fst_layout 0 names

/-- Adding a name appends it, or changes nothing where it is present. -/
theorem insert_ofDistinct (names : List String) (name : String) :
    ((ofDistinct names).insert name).1 =
      if name ∈ names then ofDistinct names else ofDistinct (names ++ [name]) := by
  have hlookup := isSome_lookup_layout_iff 0 names name
  unfold insert offset?
  cases hoffset : (ofDistinct names).entries.lookup name with
  | some offset =>
    rw [if_pos]
    exact hlookup.1 (by rw [show (layout 0 names).lookup name = some offset from hoffset]; rfl)
  | none =>
    have habsent : name ∉ names := by
      rw [← hlookup, show (layout 0 names).lookup name = none from hoffset]
      decide
    rw [if_neg habsent]
    unfold ofDistinct
    rw [layout_append, packedBytes_append, List.length_append, packedBytes_cons,
      List.length_append]
    simp only [layout, Nat.zero_add, packedBytes, List.flatMap_nil, List.length_singleton,
      Nat.add_assoc]

/-- One more name is kept when it is new. -/
theorem eraseDups_concat (names : List String) (name : String) :
    (names ++ [name]).eraseDups =
      if name ∈ names then names.eraseDups else names.eraseDups ++ [name] := by
  rw [List.eraseDups_append]
  by_cases h : name ∈ names <;> simp [List.removeAll, List.eraseDups_cons, h]

/-- The table of a list holds its names without the later repeats. -/
theorem ofList_eq_ofDistinct (names : List String) :
    ofList names = ofDistinct names.eraseDups := by
  -- by the names still to be added, after any names already there
  have hfold (seen names : List String) :
      names.foldl (fun table name => (table.insert name).1) (ofDistinct seen.eraseDups) =
        ofDistinct (seen ++ names).eraseDups := by
    induction names generalizing seen with
    | nil => rw [List.append_nil]; rfl
    | cons name names ih =>
      have hstep : ((ofDistinct seen.eraseDups).insert name).1 =
          ofDistinct (seen ++ [name]).eraseDups := by
        rw [insert_ofDistinct, eraseDups_concat]
        by_cases h : name ∈ seen
        · rw [if_pos h, if_pos (List.mem_eraseDups.2 h)]
        · rw [if_neg h, if_neg (by rwa [List.mem_eraseDups])]
      rw [List.foldl_cons, hstep, ih, List.append_assoc, List.singleton_append]
  exact hfold [] names

theorem nodup_eraseDups (names : List String) : names.eraseDups.Nodup := by
  induction h : names.length using Nat.strongRecOn generalizing names with
  | ind n ih =>
    cases names with
    | nil => exact List.nodup_nil
    | cons name names =>
      rw [List.eraseDups_cons, List.nodup_cons, List.mem_eraseDups]
      have hle := List.length_filter_le (fun other => !other == name) names
      rw [List.length_cons] at h
      exact ⟨by simp, ih _ (by omega) _ rfl⟩

/-- No name is in a table twice. -/
theorem nodup_names_ofList (names : List String) : (ofList names).names.Nodup := by
  rw [ofList_eq_ofDistinct, names_ofDistinct]
  exact nodup_eraseDups names

/-! ## 3. Reading a packed name -/

/-- The bytes from an offset up to the first NUL. -/
def nameAt (packed : Bytes) (offset : Nat) : Bytes :=
  (packed.drop offset).takeWhile (· != 0)

section Reading

variable {names : List String} {k : Nat} {name : String}

/-- At the offset of a name its bytes and a zero begin. -/
theorem drop_packedBytes (hk : names[k]? = some name) :
    (packedBytes names).drop (packedBytes (names.take k)).length =
      utf8 name ++ 0 :: packedBytes (names.drop (k + 1)) := by
  obtain ⟨hlt, hname⟩ := List.getElem?_eq_some_iff.1 hk
  have hsplit : names = names.take k ++ name :: names.drop (k + 1) := by
    rw [← hname, ← List.drop_eq_getElem_cons hlt, List.take_append_drop]
  conv => lhs; rw [hsplit, packedBytes_append, ← hsplit]
  rw [List.drop_left, packedBytes_cons]

/-- A name without a zero is read back at its offset. -/
theorem nameAt_packedBytes (hk : names[k]? = some name) (hnul : 0 ∉ utf8 name) :
    nameAt (packedBytes names) (packedBytes (names.take k)).length = utf8 name := by
  unfold nameAt
  rw [drop_packedBytes hk, List.takeWhile_append_of_pos, List.takeWhile_cons_of_neg (by decide),
    List.append_nil]
  intro b hb
  rw [bne_iff_ne]
  rintro rfl
  exact hnul hb

/-- The NUL after a name is part of the packed bytes. -/
theorem getElem?_packedBytes (hk : names[k]? = some name) :
    (packedBytes names)[(packedBytes (names.take k)).length + (utf8 name).length]? = some 0 := by
  rw [← List.getElem?_drop, drop_packedBytes hk, List.getElem?_append_right (Nat.le_refl _),
    Nat.sub_self, List.getElem?_cons_zero]

end Reading

end MemoryKit.NameTable
