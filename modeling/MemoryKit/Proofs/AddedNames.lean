import Mathlib.Data.List.Basic
import Mathlib.Data.List.Induction
import MemoryKit.Proofs.PackedNames

/-!
# Tables that names were added to

Whatever names are added, in any order and with any repeats, a table holds each of them once, in the
order in which they first came, and every offset leads to the bytes of its name. The list of names,
the offset of each name and the length of the packed string say the same thing three times, so they
can also be kept apart and stay in step.
-/

namespace MemoryKit

namespace NameTable

variable {added names : List String} {name : String}

/-! ## 1. What a table holds -/

/-- The table holds the names that were added. -/
structure Holds (added : List String) (table : NameTable) : Prop where
  nodup : table.names.Nodup
  mem_iff : ∀ name, name ∈ table.names ↔ name ∈ added
  /-- The names stand in the order in which they first came. -/
  order : table.names.Pairwise fun first second => added.idxOf first < added.idxOf second
  isSome_offset?_iff : ∀ name, (table.offset? name).isSome ↔ name ∈ added
  first : ∀ entry, table.entries[0]? = some entry → entry.2 = 0
  next : ∀ k entry entry', table.entries[k]? = some entry → table.entries[k + 1]? = some entry' →
    entry'.2 = entry.2 + (utf8 entry.1).length + 1
  packedLength : table.packedLength = (utf8 table.packed).length
  /-- At its offset each name is packed, with a NUL behind it. -/
  packed : ∀ entry ∈ table.entries, utf8 entry.1 ++ [0] <+: (utf8 table.packed).drop entry.2
  /-- The entries are the names with the offsets that are found for them. -/
  entries : table.entries.map (fun entry => (entry.1, some entry.2)) =
    table.names.map fun name => (name, table.offset? name)

/-- Every offset of the one table is that of the other, whose packed string begins in the same
way. -/
structure Extends (table table' : NameTable) : Prop where
  offset? : ∀ name offset, table.offset? name = some offset → table'.offset? name = some offset
  packed : utf8 table.packed <+: utf8 table'.packed

/-! ## 2. The order of names -/

/-- The first places of names do not change when more names follow. -/
theorem pairwise_idxOf_eraseDups (added : List String) :
    added.eraseDups.Pairwise fun first second => added.idxOf first < added.idxOf second := by
  induction added using List.reverseRecOn with
  | nil => exact List.Pairwise.nil
  | append_singleton added name ih =>
    -- a further name leaves the first places of the others as they are
    have hmem {other : String} (hother : other ∈ added.eraseDups) :
        (added ++ [name]).idxOf other = added.idxOf other :=
      List.idxOf_append_of_mem (List.mem_eraseDups.1 hother)
    have hold : added.eraseDups.Pairwise fun first second =>
        (added ++ [name]).idxOf first < (added ++ [name]).idxOf second := by
      apply ih.imp_of_mem
      intro first second hfirst hsecond hlt
      rw [hmem hfirst, hmem hsecond]
      exact hlt
    rw [eraseDups_concat]
    by_cases hpresent : name ∈ added
    · rw [if_pos hpresent]
      exact hold
    · rw [if_neg hpresent, List.pairwise_append]
      refine ⟨hold, List.pairwise_singleton _ _, ?_⟩
      intro first hfirst second hsecond
      obtain rfl := List.mem_singleton.1 hsecond
      rw [hmem hfirst, List.idxOf_append_of_notMem hpresent]
      have hlt := List.idxOf_lt_length_of_mem (List.mem_eraseDups.1 hfirst)
      omega

/-! ## 3. Offsets -/

/-- Among different names each one is found at its own place. -/
theorem lookup_layout (hnodup : names.Nodup) (offset : Nat) {k : Nat} (hk : names[k]? = some name) :
    (layout offset names).lookup name = some (offset + (packedBytes (names.take k)).length) := by
  induction names generalizing offset k with
  | nil => cases hk
  | cons first names ih =>
    obtain ⟨hfirst, hnodup⟩ := List.nodup_cons.1 hnodup
    rw [layout, List.lookup_cons]
    cases k with
    | zero =>
      obtain rfl := Option.some.inj hk
      rw [beq_self_eq_true]
      rfl
    | succ k =>
      have hne : name ≠ first := by
        rintro rfl
        exact hfirst (List.mem_of_getElem? hk)
      rw [beq_false_of_ne hne, List.take_succ_cons, packedBytes_cons, List.length_append,
        List.length_cons]
      simp only
      rw [ih hnodup _ hk]
      congr 1
      omega

theorem utf8_packed (table : NameTable) : utf8 table.packed = packedBytes table.names := by
  unfold packed utf8 packedBytes
  rw [String.toList_ofList, List.flatMap_assoc]
  congr 1
  funext name
  rw [List.flatMap_append]
  rfl

theorem getElem?_entries {k : Nat} {entry : String × Nat}
    (h : (ofDistinct names).entries[k]? = some entry) :
    names[k]? = some entry.1 ∧ entry.2 = (packedBytes (names.take k)).length := by
  have hget : (ofDistinct names).entries[k]? = _ := getElem?_layout 0 names k
  rw [hget, Option.map_eq_some_iff] at h
  obtain ⟨name, hname, rfl⟩ := h
  exact ⟨hname, Nat.zero_add _⟩

/-- The offset found for a name at a place is the length of the names before it. -/
theorem offset?_ofDistinct (hnodup : names.Nodup) {k : Nat} (hk : names[k]? = some name) :
    (ofDistinct names).offset? name = some (packedBytes (names.take k)).length := by
  have hlookup := lookup_layout hnodup 0 hk
  rwa [Nat.zero_add] at hlookup

/-- An offset is found for the names of the table and for no other. -/
theorem isSome_offset?_ofDistinct (names : List String) (name : String) :
    ((ofDistinct names).offset? name).isSome ↔ name ∈ names :=
  isSome_lookup_layout_iff 0 names name

theorem holds_ofDistinct (added : List String) : Holds added (ofDistinct added.eraseDups) where
  nodup := by
    rw [names_ofDistinct]
    exact nodup_eraseDups added
  mem_iff name := by rw [names_ofDistinct, List.mem_eraseDups]
  order := by
    rw [names_ofDistinct]
    exact pairwise_idxOf_eraseDups added
  isSome_offset?_iff name := by rw [isSome_offset?_ofDistinct, List.mem_eraseDups]
  first entry h := (getElem?_entries h).2
  next k entry entry' h h' := by
    obtain ⟨hk, hoffset⟩ := getElem?_entries h
    -- the next name begins behind this one and its zero
    have htake : added.eraseDups.take (k + 1) = added.eraseDups.take k ++ [entry.1] := by
      rw [List.take_add_one, hk]
      rfl
    rw [(getElem?_entries h').2, hoffset, htake, packedBytes_append, packedBytes_cons]
    simp [packedBytes, Nat.add_assoc]
  packedLength := by
    rw [utf8_packed, names_ofDistinct]
    rfl
  packed entry hentry := by
    obtain ⟨k, hk⟩ := List.getElem?_of_mem hentry
    obtain ⟨hname, hoffset⟩ := getElem?_entries hk
    refine ⟨packedBytes (added.eraseDups.drop (k + 1)), ?_⟩
    rw [utf8_packed, names_ofDistinct, hoffset, drop_packedBytes hname, List.append_assoc,
      List.singleton_append]
  entries := by
    apply List.ext_getElem?
    intro k
    rw [names_ofDistinct, List.getElem?_map, List.getElem?_map,
      show (ofDistinct added.eraseDups).entries[k]? = _ from getElem?_layout 0 _ k]
    cases hname : added.eraseDups[k]? with
    | none => rfl
    | some name =>
      simp only [Option.map_some, offset?_ofDistinct (nodup_eraseDups added) hname, Nat.zero_add]

/-- Names are different, so looking one up finds its own entry. -/
theorem Holds.offset?_of_mem {table : NameTable} (h : Holds added table) {entry : String × Nat}
    (hentry : entry ∈ table.entries) : table.offset? entry.1 = some entry.2 := by
  have hmem : (entry.1, some entry.2) ∈ table.names.map fun name => (name, table.offset? name) := by
    rw [← h.entries]
    exact List.mem_map_of_mem hentry
  obtain ⟨name, -, hname⟩ := List.mem_map.1 hmem
  obtain ⟨rfl, hoffset⟩ := Prod.mk.inj hname
  exact hoffset

/-! ## 4. Adding one more name -/

/-- A name that is there leaves the table as it is and gets the offset it had. -/
theorem insert_of_offset?_eq_some {table : NameTable} {offset : Nat}
    (h : table.offset? name = some offset) : table.insert name = (table, offset) := by
  unfold insert
  rw [h]

/-- A new name goes to the end, where everything else is packed before it. -/
theorem insert_of_offset?_eq_none {table : NameTable} (h : table.offset? name = none) :
    (table.insert name).1.offset? name = some (table.insert name).2 ∧
      Extends table (table.insert name).1 := by
  have hinsert : table.insert name = (⟨table.entries ++ [(name, table.packedLength)],
      table.packedLength + (utf8 name).length + 1⟩, table.packedLength) := by
    unfold insert
    rw [h]
  rw [hinsert]
  refine ⟨?_, ?_, ?_⟩
  · show (table.entries ++ [(name, table.packedLength)]).lookup name = _
    rw [List.lookup_append, show table.entries.lookup name = none from h]
    simp
  · intro other offset hother
    show (table.entries ++ [(name, table.packedLength)]).lookup other = _
    rw [List.lookup_append, show table.entries.lookup other = some offset from hother]
    rfl
  · rw [utf8_packed, utf8_packed, names, names, List.map_append, packedBytes_append]
    exact List.prefix_append _ _

/-! ## 5. Cutting the packed string -/

/-- Each NUL ends a name, and nothing stands behind the last one. -/
theorem splitOn_packed {table : NameTable} (h : ∀ name ∈ table.names, '\x00' ∉ name.toList) :
    table.packed.toList.splitOn '\x00' = table.names.map String.toList ++ [[]] := by
  unfold packed
  rw [String.toList_ofList]
  generalize table.names = names at h ⊢
  induction names with
  | nil => rfl
  | cons name names ih =>
    rw [List.flatMap_cons, List.append_assoc, List.singleton_append,
      List.splitOn_append_cons_self_of_not_mem (h name List.mem_cons_self),
      ih fun other hother => h other (List.mem_cons_of_mem name hother)]
    rfl

end NameTable

/-! ## 6. Names, offsets and length apart -/

structure Ledger where
  names : List String := []
  offsets : String → Option Nat := fun _ => none
  packedLength : Nat := 0

namespace Ledger

def insert (ledger : Ledger) (name : String) : Ledger × Nat :=
  match ledger.offsets name with
  | some offset => (ledger, offset)
  | none =>
    ({ names := ledger.names ++ [name]
       offsets := fun other =>
        if other = name then some ledger.packedLength else ledger.offsets other
       packedLength := ledger.packedLength + (utf8 name).length + 1 }, ledger.packedLength)

def ofList (names : List String) : Ledger :=
  names.foldl (fun ledger name => (ledger.insert name).1) {}

/-- The three parts say what the table says. -/
structure InStep (ledger : Ledger) (table : NameTable) : Prop where
  names : ledger.names = table.names
  offsets : ∀ name, ledger.offsets name = table.offset? name
  packedLength : ledger.packedLength = table.packedLength

variable {ledger : Ledger} {table : NameTable}

/-- Adding a name keeps the parts in step and answers with the same offset. -/
theorem InStep.insert (h : InStep ledger table) (name : String) :
    InStep (ledger.insert name).1 (table.insert name).1 ∧
      (ledger.insert name).2 = (table.insert name).2 := by
  unfold Ledger.insert NameTable.insert
  rw [h.offsets]
  cases hoffset : table.offset? name with
  | some offset => exact ⟨h, rfl⟩
  | none =>
    refine ⟨⟨?_, ?_, ?_⟩, h.packedLength⟩
    · simp [NameTable.names, h.names]
    · intro other
      show (if other = name then some ledger.packedLength else ledger.offsets other) =
        (table.entries ++ [(name, table.packedLength)]).lookup other
      rw [List.lookup_append]
      by_cases heq : other = name
      · subst heq
        rw [if_pos rfl, show table.entries.lookup other = none from hoffset, h.packedLength]
        simp
      · rw [if_neg heq, h.offsets, List.lookup_cons, beq_false_of_ne heq]
        exact (Option.or_none).symm
    · rw [h.packedLength]

/-- Every list of names is added with entries, names and packed length kept in step. -/
theorem inStep_ofList (added : List String) : InStep (ofList added) (NameTable.ofList added) := by
  have hfold (ledger : Ledger) (table : NameTable) (h : InStep ledger table) :
      InStep (added.foldl (fun ledger name => (ledger.insert name).1) ledger)
        (added.foldl (fun table name => (table.insert name).1) table) := by
    induction added generalizing ledger table with
    | nil => exact h
    | cons name added ih => exact ih _ _ (h.insert name).1
  exact hfold {} NameTable.empty ⟨rfl, fun _ => rfl, rfl⟩

end Ledger

/-! ## 7. Every table that names were added to -/

namespace NameTable

/-- A table holds the names that were added to it. Adding one of them again changes nothing, adding
a new one keeps every offset and only appends to the packed string, and where no name holds a NUL
the packed string can be cut into the names again. -/
theorem holds_ofList (added : List String) :
    Holds added (ofList added) ∧
    (∀ name ∈ added, ∃ offset, (ofList added).offset? name = some offset ∧
      (ofList added).insert name = (ofList added, offset)) ∧
    (∀ name ∉ added, ((ofList added).insert name).1.offset? name =
      some ((ofList added).insert name).2 ∧ Extends (ofList added) ((ofList added).insert name).1) ∧
    ((∀ name ∈ added, '\x00' ∉ name.toList) →
      (ofList added).packed.toList.splitOn '\x00' =
        (ofList added).names.map String.toList ++ [[]]) ∧
    Ledger.InStep (Ledger.ofList added) (ofList added) := by
  have hholds : Holds added (ofList added) := by
    rw [ofList_eq_ofDistinct]
    exact holds_ofDistinct added
  refine ⟨hholds, ?_, ?_, ?_, Ledger.inStep_ofList added⟩
  · intro name hname
    obtain ⟨offset, hoffset⟩ :=
      Option.isSome_iff_exists.1 ((hholds.isSome_offset?_iff name).2 hname)
    exact ⟨offset, hoffset, insert_of_offset?_eq_some hoffset⟩
  · intro name hname
    apply insert_of_offset?_eq_none
    rw [← Option.not_isSome_iff_eq_none, hholds.isSome_offset?_iff]
    exact hname
  · intro hnul
    exact splitOn_packed fun name hname => hnul name ((hholds.mem_iff name).1 hname)

def repeatedNames : List String := ["é", "", "mov", "é"]

theorem holds_ofList_repeated :
    Holds repeatedNames (ofList repeatedNames) ∧
      "" ∈ repeatedNames ∧ (ofList repeatedNames).insert "" = (ofList repeatedNames, 3) ∧
      "add" ∉ repeatedNames ∧
      Extends (ofList repeatedNames) ((ofList repeatedNames).insert "add").1 ∧
      (∀ name ∈ repeatedNames, '\x00' ∉ name.toList) ∧
      (ofList repeatedNames).packed.toList.splitOn '\x00' = [['é'], [], ['m', 'o', 'v'], []] := by
  have hpresent : "" ∈ repeatedNames := by decide
  have habsent : "add" ∉ repeatedNames := by decide
  have hnul : ∀ name ∈ repeatedNames, '\x00' ∉ name.toList := by decide
  obtain ⟨hholds, hagain, hnew, hcut, -⟩ := holds_ofList repeatedNames
  obtain ⟨offset, hoffset, hinsert⟩ := hagain "" hpresent
  have hthree : offset = 3 := by
    have hlookup : (ofList repeatedNames).offset? "" = some 3 := by decide +kernel
    exact Option.some.inj (hoffset.symm.trans hlookup)
  have hnames : (ofList repeatedNames).names = ["é", "", "mov"] := by decide +kernel
  have hpieces := hcut hnul
  rw [hnames] at hpieces
  exact ⟨hholds, hpresent, hthree ▸ hinsert, habsent, (hnew "add" habsent).2, hnul, hpieces⟩

end NameTable

end MemoryKit
