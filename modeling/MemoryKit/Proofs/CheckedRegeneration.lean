import MemoryKit.Proofs.AddedNames
import MemoryKit.Proofs.CheckedNames
import MemoryKit.Proofs.FirstTable
import MemoryKit.Proofs.Marker
import MemoryKit.Regeneration.Basic

/-!
# Regeneration by offsets

Regeneration can also be done by offsets into the source, with slices that may be out of range, keys
that may be missing, differences that may be below zero and loops that may take too many rounds.
Whatever the source and the settings are, none of this happens: start, end and length of a region
are in order, each name has its offset, and every round of a search or a scan goes on behind the
place where it began. The result is the same.
-/

namespace MemoryKit.Checked

open Bytes Source

variable {source identifier marker : Bytes} {limit i p start : Nat}

/-! ## 1. Tables -/

def blanksRound (source : Bytes) (i : Nat) : Checked (Round Nat Nat) :=
  return if source[i]?.any isBlankByte then .again (i + 1) else .done i

def skipBlanks (limit : Nat) (source : Bytes) (i : Nat) : Checked Nat :=
  loop (blanksRound source) limit i

/-- The byte before an offset could be part of an identifier. -/
def isTail (source : Bytes) (p : Nat) : Checked Bool := do
  if p = 0 then return false
  return isIdentifierByte (← orFault .index source[← sub p 1]?)

/-- The offset of the brace that ends a header, given the offset behind its identifier. -/
def headerBrace (limit : Nat) (source : Bytes) (i : Nat) : Checked (Option Nat) := do
  if (after? [ascii '[', ascii ']'] (← tail source i)).isNone then return none
  let i ← skipBlanks limit source (i + 2)
  if source[i]? ≠ some (ascii '=') then return none
  let i ← skipBlanks limit source (i + 1)
  if source[i]? ≠ some (ascii '\x7b') then return none
  return some i

def tableBody (source : Bytes) (brace : Nat) : Checked (Option Bytes) := do
  let body ← tail source (brace + 1)
  match body.findIdx? (· == ascii '\x7d') with
  | none => return none
  | some stop => return some (← slice body 0 stop)

def tableRound (limit : Nat) (identifier source : Bytes) (start : Nat) :
    Checked (Round Nat (Option Bytes)) := do
  match ← find (← tail source start) identifier with
  | none => return .done none
  | some place =>
    let p := start + place
    if ← isTail source p then return .again (p + 1)
    match ← headerBrace limit source (p + identifier.length) with
    | none => return .again (p + 1)
    | some brace => return .done (← tableBody source brace)

def findTable (limit : Nat) (identifier source : Bytes) : Checked (Option Bytes) := do
  if identifier.isEmpty then return none
  loop (tableRound limit identifier source) limit 0

/-- Blanks are skipped in the bytes from an offset on. -/
def blankEnd (source : Bytes) (i : Nat) : Nat :=
  i + ((source.drop i).takeWhile isBlankByte).length

theorem skipBlanks_eq (hlimit : source.length < limit) (i : Nat) :
    skipBlanks limit source i = pure (blankEnd source i) := by
  have hround (i : Nat) : Keeps (fun _ => True) (source.length - ·) (blankEnd source) i
      (blanksRound source i) := by
    by_cases hi : i < source.length
    · have hdrop : source.drop i = source[i] :: source.drop (i + 1) := List.drop_eq_getElem_cons hi
      by_cases hblank : isBlankByte source[i]
      · refine .again (i + 1) ?_ trivial (Nat.sub_lt_sub_left hi (Nat.lt_succ_self i)) ?_
        · unfold blanksRound
          rw [List.getElem?_eq_getElem hi, Option.any_some, if_pos hblank]
        · unfold blankEnd
          rw [hdrop, List.takeWhile_cons_of_pos hblank, List.length_cons]
          omega
      · refine .done ?_
        unfold blanksRound blankEnd
        rw [List.getElem?_eq_getElem hi, Option.any_some, if_neg hblank, hdrop,
          List.takeWhile_cons_of_neg hblank]
        rfl
    · have hle : source.length ≤ i := Nat.le_of_not_lt hi
      refine .done ?_
      unfold blanksRound blankEnd
      rw [List.getElem?_eq_none hle, List.drop_eq_nil_of_le hle]
      rfl
  exact loop_eq (fun i _ => hround i) (by omega) trivial

theorem skipBlank_drop (source : Bytes) (i : Nat) :
    skipBlank (source.drop i) = source.drop (blankEnd source i) := by
  have hsplit := List.takeWhile_append_dropWhile (p := isBlankByte) (l := source.drop i)
  unfold skipBlank blankEnd
  rw [← List.drop_drop]
  conv => rhs; arg 2; rw [← hsplit]
  exact List.drop_left.symm

theorem after?_singleton_drop (c : UInt8) (source : Bytes) (i : Nat) :
    after? [c] (source.drop i) =
      if source[i]? = some c then some (source.drop (i + 1)) else none := by
  by_cases hi : i < source.length
  · rw [List.drop_eq_getElem_cons hi, List.getElem?_eq_getElem hi, after?, after?]
    simp only [Option.some.injEq, eq_comm]
  · have hle : source.length ≤ i := Nat.le_of_not_lt hi
    rw [List.drop_eq_nil_of_le hle, List.getElem?_eq_none hle]
    rfl

/-- The byte before a position is looked at only where there is one. -/
theorem isTail_eq (hp : p ≤ source.length) :
    isTail source p = pure ((source.take p).getLast?.any isIdentifierByte) := by
  unfold isTail
  by_cases hzero : p = 0
  · subst hzero
    rw [if_pos rfl, List.take_zero]
    rfl
  · have hpos : 0 < p := Nat.pos_of_ne_zero hzero
    have hlt : p - 1 < source.length := by omega
    rw [if_neg hzero, sub_eq (Nat.one_le_iff_ne_zero.2 hzero), pure_bind,
      getLast?_take_eq_getElem? hpos hp, List.getElem?_eq_getElem hlt]
    rfl

/-- What the search for a header finds behind the identifier. -/
theorem exists_headerBrace_eq (hlimit : source.length < limit) (hi : i ≤ source.length) :
    ∃ brace, headerBrace limit source i = pure brace ∧
      (∀ q, brace = some q → q < source.length) ∧
      ∀ identifier, afterHeader? identifier (identifier ++ source.drop i) =
        brace.map fun q => source.drop (q + 1) := by
  -- what follows the identifier does not depend on it
  have hheader (identifier : Bytes) : afterHeader? identifier (identifier ++ source.drop i) =
      (after? [ascii '[', ascii ']'] (source.drop i)).bind fun s =>
        (after? [ascii '='] (skipBlank s)).bind fun s =>
          after? [ascii '\x7b'] (skipBlank s) := by
    unfold afterHeader?
    rw [after?_eq_some_iff.2 rfl]
    rfl
  simp only [hheader]
  unfold headerBrace
  rw [tail_eq hi, pure_bind]
  cases hbrackets : after? [ascii '[', ascii ']'] (source.drop i) with
  | none => exact ⟨none, rfl, nofun, fun _ => rfl⟩
  | some rest =>
    have hrest : rest = source.drop (i + 2) := by
      rw [← List.drop_drop, after?_eq_some_iff.1 hbrackets]
      rfl
    rw [if_neg (by simp), hrest, skipBlanks_eq hlimit, pure_bind]
    simp only [Option.bind_some, skipBlank_drop, after?_singleton_drop]
    by_cases hequals : source[blankEnd source (i + 2)]? = some (ascii '=')
    · rw [if_neg (not_not_intro hequals), if_pos hequals, skipBlanks_eq hlimit, pure_bind]
      simp only [Option.bind_some, skipBlank_drop, after?_singleton_drop]
      generalize blankEnd source (blankEnd source (i + 2) + 1) = brace
      by_cases hbrace : source[brace]? = some (ascii '\x7b')
      · rw [if_neg (not_not_intro hbrace), if_pos hbrace]
        refine ⟨some brace, rfl, ?_, fun _ => rfl⟩
        rintro _ ⟨⟩
        exact (List.getElem?_eq_some_iff.1 hbrace).1
      · rw [if_pos hbrace, if_neg hbrace]
        exact ⟨none, rfl, nofun, fun _ => rfl⟩
    · rw [if_pos hequals, if_neg hequals]
      exact ⟨none, rfl, nofun, fun _ => rfl⟩

theorem beforeBrace?_eq_map_findIdx? (s : Bytes) :
    beforeBrace? s = (s.findIdx? (· == ascii '\x7d')).map (s.take ·) := by
  cases hplace : s.findIdx? (· == ascii '\x7d') with
  | none =>
    rw [List.findIdx?_eq_none_iff] at hplace
    unfold beforeBrace?
    rw [if_neg, Option.map_none]
    rw [List.contains_iff_mem]
    intro hmem
    exact beq_eq_false_iff_ne.1 (hplace _ hmem) rfl
  | some k =>
    obtain ⟨hlt, hbrace, hbefore⟩ := List.findIdx?_eq_some_iff_getElem.1 hplace
    refine beforeBrace?_eq_some_iff.2 ⟨fun hmem => ?_, s.drop (k + 1), ?_⟩
    · obtain ⟨j, hj, hget⟩ := List.mem_take_iff_getElem.1 hmem
      exact hbefore j (by omega) (beq_iff_eq.2 hget)
    · rw [← beq_iff_eq.1 hbrace, ← List.drop_eq_getElem_cons hlt, List.take_append_drop]

theorem tableBody_eq {q : Nat} (hq : q < source.length) :
    tableBody source q = pure (beforeBrace? (source.drop (q + 1))) := by
  unfold tableBody
  rw [tail_eq hq, pure_bind, beforeBrace?_eq_map_findIdx?]
  cases hplace : (source.drop (q + 1)).findIdx? (· == ascii '\x7d') with
  | none => rfl
  | some stop =>
    obtain ⟨hlt, -⟩ := List.findIdx?_eq_some_iff_getElem.1 hplace
    simp only
    rw [slice_eq (Nat.zero_le _) (Nat.le_of_lt hlt), pure_bind, List.extract_eq_take_drop]
    rfl

theorem table?_map_body (hne : identifier ≠ []) {rest : Bytes}
    (h : FirstAt (headerAt? identifier source) p rest) :
    (table? identifier source).map Table.body = beforeBrace? rest := by
  unfold table?
  rw [if_neg (by rwa [List.isEmpty_iff]), firstHeader?_eq_some_iff.2 h, Option.bind_some,
    Option.map_map]
  exact Option.map_id'

theorem table?_eq_none (h : ∀ p, headerAt? identifier source p = none) :
    table? identifier source = none := by
  rw [Option.eq_none_iff_forall_ne_some]
  intro found hfound
  obtain ⟨-, -, rest, hfirst, -⟩ := table?_eq_some_iff.1 hfound
  have hat := hfirst.found
  rw [h] at hat
  cases hat

/-- Each round of the search for a table passes one place that holds no header. -/
theorem tableRound_keeps (hlimit : source.length < limit) (hne : identifier ≠ [])
    (h : IsPast (headerAt? identifier source) source start) :
    Keeps (IsPast (headerAt? identifier source) source) (source.length - ·)
      (fun _ => (table? identifier source).map Table.body) start
      (tableRound limit identifier source start) := by
  have hneedle (p : Nat) (rest : Bytes) (hat : headerAt? identifier source p = some rest) :
      identifier <+: source.drop p := by
    obtain ⟨_, ⟨left, right, -, -, rfl⟩, heq⟩ := exists_header_of_headerAt? hat
    rw [heq, List.append_assoc, List.append_assoc]
    exact List.prefix_append _ _
  unfold tableRound
  rw [tail_eq h.le_length, pure_bind]
  rcases find_drop_of_isPast hne hneedle h with ⟨hfind, hnone⟩ | ⟨place, hfind, hnext⟩
  · refine .done ?_
    rw [hfind, pure_bind, table?_eq_none hnone]
    rfl
  · rw [hfind, pure_bind]
    simp only
    generalize start + place = p at hnext
    -- the identifier stands at the place, so what the round reads lies inside the source
    rw [isTail_eq (Nat.le_of_lt (hnext.lt_length hne)), pure_bind]
    by_cases htail : (source.take p).getLast?.any isIdentifierByte
    · have hat : headerAt? identifier source p = none := if_pos htail
      rw [if_pos htail]
      exact .again (p + 1) rfl (hnext.isPast_succ hne hat) (hnext.size_lt hne) rfl
    · obtain ⟨brace, hbrace, hbound, hafter⟩ := exists_headerBrace_eq hlimit (hnext.length_le hne)
      have hat : headerAt? identifier source p = brace.map fun q => source.drop (q + 1) := by
        obtain ⟨rest, hrest⟩ := hnext.isPrefix
        have hdrop : source.drop (p + identifier.length) = rest := by
          rw [← List.drop_drop, ← hrest, List.drop_left]
        rw [headerAt?, if_neg htail, ← hafter identifier, hdrop, hrest]
      rw [if_neg htail, hbrace, pure_bind]
      cases brace with
      | none => exact .again (p + 1) rfl (hnext.isPast_succ hne hat) (hnext.size_lt hne) rfl
      | some q =>
        refine .done ?_
        simp only
        rw [tableBody_eq (hbound q rfl), pure_bind, table?_map_body hne ⟨hat, hnext.before⟩]

/-- The search for a table does not fail. -/
theorem findTable_eq (hlimit : source.length < limit) (identifier : Bytes) :
    findTable limit identifier source = pure ((table? identifier source).map Table.body) := by
  unfold findTable
  by_cases hne : identifier = []
  · rw [hne]
    rfl
  · rw [if_neg (by rwa [List.isEmpty_iff])]
    exact loop_eq (fun _ h => tableRound_keeps hlimit hne h) hlimit (isPast_zero _ source)

/-! ## 2. Regions -/

def markerRound (marker source : Bytes) (start : Nat) :
    Checked (Round Nat (Option (Nat × Newline))) := do
  match ← find (← tail source start) marker with
  | none => return .done none
  | some place =>
    let p := start + place
    match Newline.leading? (← tail source (p + marker.length)) with
    | some newline => return .done (some (p, newline))
    | none => return .again (p + 1)

def findMarker (limit : Nat) (marker source : Bytes) : Checked (Option (Nat × Newline)) :=
  loop (markerRound marker source) limit 0

def locate (limit : Nat) (beginMarker endMarker : String) (source : Bytes) :
    Checked (Except RegionError Region) := do
  match ← findMarker limit (utf8 beginMarker) source with
  | none => return .error (.markerNotFound beginMarker)
  | some (first, newline) =>
    match ← findMarker limit (utf8 endMarker) source with
    | none => return .error (.markerNotFound endMarker)
    | some (stop, _) =>
      let start := first + (utf8 beginMarker).length + newline.bytes.length
      return if stop < start then .error .markersOutOfOrder else .ok ⟨start, stop, newline⟩

/-- The source with the region replaced, and the space that is reserved for it. -/
def replace (source : Bytes) (region : Region) (generated : Bytes) : Checked (Bytes × Nat) := do
  let space := (← sub source.length (← sub region.stop region.start)) + generated.length
  return ((← slice source 0 region.start) ++ generated ++ (← tail source region.stop), space)

theorem markerLine?_eq_none (h : ∀ p, markerAt? marker source p = none) :
    markerLine? marker source = none := by
  rw [Option.eq_none_iff_forall_ne_some]
  rintro ⟨p, newline⟩ hfound
  have hat := (markerLine?_eq_some_iff.1 hfound).2.found
  rw [h] at hat
  cases hat

/-- Each round of the search for a marker passes one place that is not its line. -/
theorem markerRound_keeps (hne : marker ≠ [])
    (h : IsPast (markerAt? marker source) source start) :
    Keeps (IsPast (markerAt? marker source) source) (source.length - ·)
      (fun _ => markerLine? marker source) start (markerRound marker source start) := by
  -- a marker line begins with its marker, so the search may skip to the next one
  have hneedle (p : Nat) (newline : Newline) (hat : markerAt? marker source p = some newline) :
      marker <+: source.drop p := by
    obtain ⟨rest, heq⟩ := markerHere?_eq_some_iff.1 hat
    rw [heq, List.append_assoc]
    exact List.prefix_append _ _
  unfold markerRound
  rw [tail_eq h.le_length, pure_bind]
  rcases find_drop_of_isPast hne hneedle h with ⟨hfind, hnone⟩ | ⟨place, hfind, hnext⟩
  · refine .done ?_
    rw [hfind, pure_bind, markerLine?_eq_none hnone]
  · rw [hfind, pure_bind]
    simp only
    generalize start + place = p at hnext
    have hat : markerAt? marker source p =
        Newline.leading? (source.drop (p + marker.length)) := by
      obtain ⟨rest, hrest⟩ := hnext.isPrefix
      rw [markerAt?, markerHere?, ← List.drop_drop, ← hrest, List.drop_left,
        after?_eq_some_iff.2 rfl, Option.bind_some]
    rw [tail_eq (hnext.length_le hne), pure_bind, ← hat]
    cases hnewline : markerAt? marker source p with
    | some newline =>
      refine .done ?_
      rw [markerLine?_eq_some_iff.2 ⟨hne, hnewline, hnext.before⟩]
    | none => exact .again (p + 1) rfl (hnext.isPast_succ hne hnewline) (hnext.size_lt hne) rfl

theorem findMarker_eq (hlimit : source.length < limit) (marker : Bytes) :
    findMarker limit marker source = pure (markerLine? marker source) := by
  unfold findMarker
  by_cases hne : marker = []
  · obtain ⟨limit, rfl⟩ := Nat.exists_eq_add_one_of_ne_zero (Nat.ne_zero_of_lt hlimit)
    rw [hne, loop, markerRound, tail_eq (Nat.zero_le _), pure_bind, find_nil]
    rfl
  · exact loop_eq (fun _ h => markerRound_keeps hne h) hlimit (isPast_zero _ source)

/-- The search for a region does not fail, and its slices are within the source. -/
theorem locate_eq (hlimit : source.length < limit) (beginMarker endMarker : String) :
    locate limit beginMarker endMarker source =
      pure (findRegion beginMarker endMarker source) := by
  unfold locate findRegion
  rw [findMarker_eq hlimit, findMarker_eq hlimit, pure_bind]
  cases markerLine? (utf8 beginMarker) source with
  | none => rfl
  | some begin =>
    simp only
    rw [pure_bind]
    cases markerLine? (utf8 endMarker) source with
    | none => rfl
    | some stop => rfl

/-- A region within the source is replaced without a failure, with room for just the new text. -/
theorem replace_eq {region : Region} (hle : region.start ≤ region.stop)
    (hstop : region.stop ≤ source.length) (generated : Bytes) :
    replace source region generated = pure (splice source region generated,
      source.length - (region.stop - region.start) + generated.length) := by
  unfold replace splice
  rw [sub_eq hle, pure_bind, sub_eq (by omega), pure_bind, slice_eq (Nat.zero_le _) (by omega),
    pure_bind, tail_eq hstop, pure_bind, List.extract_eq_take_drop]
  rfl

/-- A region behind the source cannot be replaced. -/
example : replace [] ⟨0, 1, .lf⟩ [] = throw .subtraction := rfl

/-! ## 3. Regeneration -/

/-- A name with its offset, which is looked up. -/
def entryOf (ledger : Ledger) (name : String) : Checked (String × Nat) := do
  return (name, ← orFault .key (ledger.offsets name))

def tableOf (ledger : Ledger) : Checked NameTable := do
  return ⟨← ledger.names.mapM (entryOf ledger), ledger.packedLength⟩

/-- Regeneration by offsets, where anything may be out of range. -/
def regenerate (limit : Nat) (settings : Settings) (source : Bytes) :
    Checked (Except SourceError Regenerated) := do
  match ← findTable limit (utf8 settings.table) source with
  | none => return .error (.tableNotFound settings.table)
  | some body =>
    let ledger := Ledger.ofList (← scanNames limit body)
    if ledger.names.isEmpty then return .error .emptyTable
    match ← locate limit settings.beginMarker settings.endMarker source with
    | .error cause => return .error (.region cause)
    | .ok region =>
      let table ← tableOf ledger
      let generated := utf8 (table.render settings region.newline.text)
      let (output, _) ← replace source region generated
      return .ok ⟨output, table⟩

/-- Offsets that the ledger has are looked up without a failure. -/
theorem mapM_entryOf {ledger : Ledger} {entries : List (String × Nat)}
    (h : ∀ entry ∈ entries, ledger.offsets entry.1 = some entry.2) :
    (entries.map (·.1)).mapM (entryOf ledger) = pure entries := by
  induction entries with
  | nil => rfl
  | cons entry entries ih =>
    have hentry : entryOf ledger entry.1 = pure entry := by
      rw [entryOf, h entry List.mem_cons_self]
      rfl
    rw [List.map_cons, List.mapM_cons, hentry, pure_bind,
      ih fun other hother => h other (List.mem_cons_of_mem entry hother), pure_bind]

/-- Every name of the table is among those with an offset. -/
theorem tableOf_ofList (added : List String) :
    tableOf (Ledger.ofList added) = pure (NameTable.ofList added) := by
  have hstep := Ledger.inStep_ofList added
  have hlookup (entry : String × Nat) (hentry : entry ∈ (NameTable.ofList added).entries) :
      (Ledger.ofList added).offsets entry.1 = some entry.2 := by
    rw [hstep.offsets, NameTable.ofList_eq_ofDistinct]
    rw [NameTable.ofList_eq_ofDistinct] at hentry
    exact (NameTable.holds_ofDistinct added).offset?_of_mem hentry
  unfold tableOf
  rw [hstep.names, hstep.packedLength, NameTable.names, mapM_entryOf hlookup, pure_bind]

theorem length_body_lt {found : Table} (h : table? identifier source = some found) :
    found.body.length < source.length := by
  obtain ⟨-, -, rest, hfirst, -⟩ := table?_eq_some_iff.1 h
  have hle := length_le_of_headerAt? hfirst.found
  rw [List.length_append, List.length_cons] at hle
  omega

/-- Whatever the source and the settings are, regeneration by offsets ends without a fault and with
the same result. No loop takes more than one round for each byte and one more. -/
theorem regenerate_eq_ok (settings : Settings) (hlimit : source.length < limit) :
    regenerate limit settings source = .ok (MemoryKit.regenerate settings source) := by
  unfold regenerate MemoryKit.regenerate
  rw [findTable_eq hlimit, pure_bind]
  cases hfound : table? (utf8 settings.table) source with
  | none => rfl
  | some found =>
    -- one limit serves the source and the body inside it
    have hbody := length_body_lt hfound
    simp only [Option.map_some]
    rw [scanNames_eq (by omega), pure_bind]
    generalize names found.body = added
    have hnames : (Ledger.ofList added).names.isEmpty = (NameTable.ofList added).isEmpty := by
      rw [(Ledger.inStep_ofList added).names, NameTable.names, List.isEmpty_map]
      rfl
    rw [hnames]
    by_cases hempty : (NameTable.ofList added).isEmpty
    · rw [if_pos hempty, if_pos hempty]
      rfl
    · rw [if_neg hempty, if_neg hempty, locate_eq hlimit, pure_bind]
      cases hregion : findRegion settings.beginMarker settings.endMarker source with
      | error cause => rfl
      | ok region =>
        simp only
        rw [tableOf_ofList, pure_bind, replace_eq (Region.start_le_stop hregion)
          (Region.stop_le_length hregion), pure_bind]
        rfl

/-- The table ends in a literal that a backslash leaves open, behind a lone slash, and the end marker
is the last line. -/
def tornSource : Bytes :=
  utf8 "t[]=\x7b\"ld\"/\"\\\x7d\n//b\r\n//e\n"

theorem regenerate_eq_ok_torn : tornSource.length < 32 ∧
    regenerate 32 { table := "t", beginMarker := "//b", endMarker := "//e" } tornSource =
      .ok (.ok ⟨utf8 ("t[]=\x7b\"ld\"/\"\\\x7d\n//b\r\nconst char instructionName[] =\r\n" ++
        "  \"ld\\0\"\r\n  ;\r\n\r\n#define INST_LD_INDEX 0\r\n//e\n"), ⟨[("ld", 0)], 3⟩⟩) := by
  have hlimit : tornSource.length < 32 := by decide
  refine ⟨hlimit, (regenerate_eq_ok _ hlimit).trans ?_⟩
  decide +kernel

end MemoryKit.Checked
