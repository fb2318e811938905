import Mathlib.Data.List.Perm.Basic
import MemoryKit.Proofs.WrittenCommand

/-!
# The order of arguments

Arguments that hold no lexical error are cut into pieces in one way. What they are read as depends
on the words in their order, on the values of each setting in their order, and on the flags in any
order. So the pieces may be moved past each other, and each of them may be spelled in another way.
-/

namespace MemoryKit.CommandLine

/-! ## 1. Pieces -/

/-- The arguments of one group: a flag or several in one, an option with its value in the next
argument or behind an equals sign, or a word. -/
inductive Piece where
  | flags (argument : String) (flags : List Flag) (h : shape argument = .ok (.flags flags))
  | key (argument : String) (setting : Setting) (value : String)
      (h : shape argument = .ok (.key setting))
  | keyValue (argument : String) (setting : Setting) (value : String)
      (h : shape argument = .ok (.keyValue setting value))
  | word (argument text : String) (h : shape argument = .ok (.word text))
  deriving DecidableEq

namespace Piece

def arguments : Piece → List String
  | .flags argument _ _ | .keyValue argument _ _ _ | .word argument _ _ => [argument]
  | .key argument _ value _ => [argument, value]

def group : Piece → Group
  | .flags _ fs _ => .flags fs
  | .key _ setting value _ | .keyValue _ setting value _ => .setting setting value
  | .word _ text _ => .word text

def spell (ps : List Piece) : List String :=
  ps.flatMap arguments

def isWord : Piece → Bool
  | .word .. => true
  | _ => false

def gives (setting : Setting) : Piece → Bool
  | .key _ s _ _ | .keyValue _ s _ _ => s = setting
  | _ => false

end Piece

/-- The arguments of one piece spelled in another way. -/
inductive Respelled : List String → List String → Prop
  | equals (setting : Setting) (value : String) :
      Respelled [setting.longName, value] [setting.argument value]
  | long (setting : Setting) (short value : String) :
      setting.shortName? = some short → Respelled [short, value] [setting.longName, value]
  | separate (flags : List Flag) :
      2 ≤ flags.length → Respelled [combined flags] (flags.map Flag.shortName)

/-- The pieces in another order. The words keep their order, and so do the pieces that give a value
to the same setting. -/
structure Reordered (ps qs : List Piece) : Prop where
  perm : ps.Perm qs
  words : ps.filter Piece.isWord = qs.filter Piece.isWord
  values : ∀ setting, ps.filter (Piece.gives setting) = qs.filter (Piece.gives setting)

/-- Any number of pieces are moved and spelled in another way, or back. -/
inductive Rearranged : List Piece → List Piece → Prop
  | reorder {ps qs : List Piece} : Reordered ps qs → Rearranged ps qs
  | respell {before after qs : List Piece} {p : Piece} :
      Respelled p.arguments (Piece.spell qs) →
      Rearranged (before ++ p :: after) (before ++ qs ++ after)
  | symm {ps qs : List Piece} : Rearranged ps qs → Rearranged qs ps
  | trans {ps qs rs : List Piece} : Rearranged ps qs → Rearranged qs rs → Rearranged ps rs

/-! ## 2. The one cut -/

variable {arguments rest rest' : List String} {argument : String} {ps qs : List Piece}
  {gs gs' : List Group}

theorem Piece.groups_arguments (p : Piece) : groups p.arguments = .ok [p.group] := by
  cases p with
  | flags argument flags h | keyValue argument setting value h | word argument text h =>
    simp only [arguments, groups, h]
    rfl
  | key argument setting value h =>
    simp only [arguments, groups, h]
    rfl

/-- The pieces of a command line are read as their groups. -/
theorem groups_spell (ps : List Piece) : groups (Piece.spell ps) = .ok (ps.map Piece.group) := by
  induction ps with
  | nil => rfl
  | cons p ps ih => exact groups_append p.groups_arguments ih

theorem exists_spell_eq (h : groups arguments = .ok gs) : ∃ ps, Piece.spell ps = arguments := by
  fun_induction groups arguments generalizing gs with
  | case1 => exact ⟨[], rfl⟩
  | case2 | case6 => cases h
  | case3 argument rest flags hshape ih =>
    obtain ⟨_, hrest, -⟩ := map_eq_ok_iff.1 h
    obtain ⟨ps, rfl⟩ := ih hrest
    exact ⟨.flags argument flags hshape :: ps, rfl⟩
  | case4 argument rest setting value hshape ih =>
    obtain ⟨_, hrest, -⟩ := map_eq_ok_iff.1 h
    obtain ⟨ps, rfl⟩ := ih hrest
    exact ⟨.keyValue argument setting value hshape :: ps, rfl⟩
  | case5 argument rest text hshape ih =>
    obtain ⟨_, hrest, -⟩ := map_eq_ok_iff.1 h
    obtain ⟨ps, rfl⟩ := ih hrest
    exact ⟨.word argument text hshape :: ps, rfl⟩
  | case7 argument setting hshape value rest ih =>
    obtain ⟨_, hrest, -⟩ := map_eq_ok_iff.1 h
    obtain ⟨ps, rfl⟩ := ih hrest
    exact ⟨.key argument setting value hshape :: ps, rfl⟩

/-- The first argument of a piece says what the piece is. -/
theorem Piece.eq_of_append_eq {p q : Piece} (h : p.arguments ++ rest = q.arguments ++ rest') :
    p = q ∧ rest = rest' := by
  cases p <;> cases q <;> grind [arguments]

/-- There is one way to cut a command line into pieces. -/
theorem spell_injective (h : Piece.spell ps = Piece.spell qs) : ps = qs := by
  induction ps generalizing qs with
  | nil =>
    cases qs with
    | nil => rfl
    | cons q qs => cases q <;> cases h
  | cons p ps ih =>
    cases qs with
    | nil => cases p <;> cases h
    | cons q qs =>
      obtain ⟨rfl, hrest⟩ := Piece.eq_of_append_eq h
      rw [ih hrest]

/-! ## 3. What reading depends on -/

/-- Groups that say the same: the same flags in any order, and the same words and the same values of
each setting in their order. -/
structure SaySame (gs gs' : List Group) : Prop where
  flags : (flagsOf gs).Perm (flagsOf gs')
  words : wordsOf gs = wordsOf gs'
  values : ∀ setting, valuesOf gs setting = valuesOf gs' setting

theorem valuesOf_append (gs gs' : List Group) (setting : Setting) :
    valuesOf (gs ++ gs') setting = valuesOf gs setting ++ valuesOf gs' setting :=
  List.filterMap_append

namespace SaySame

theorem refl (gs : List Group) : SaySame gs gs :=
  ⟨.refl _, rfl, fun _ => rfl⟩

theorem symm (h : SaySame gs gs') : SaySame gs' gs :=
  ⟨h.flags.symm, h.words.symm, fun setting => (h.values setting).symm⟩

theorem trans {gs'' : List Group} (h : SaySame gs gs') (h' : SaySame gs' gs'') : SaySame gs gs'' :=
  ⟨h.flags.trans h'.flags, h.words.trans h'.words,
    fun setting => (h.values setting).trans (h'.values setting)⟩

theorem append {fs fs' : List Group} (h : SaySame gs gs') (h' : SaySame fs fs') :
    SaySame (gs ++ fs) (gs' ++ fs') where
  flags := by
    rw [flagsOf_append, flagsOf_append]
    exact h.flags.append h'.flags
  words := by rw [wordsOf_append, wordsOf_append, h.words, h'.words]
  values setting := by
    rw [valuesOf_append, valuesOf_append, h.values, h'.values]

end SaySame

/-- The command depends on what the groups say and not on their order. -/
theorem commandOf_congr (h : SaySame gs gs') : commandOf gs = commandOf gs' := by
  have hvalue : value? gs = value? gs' := by
    funext setting
    rw [value?, value?, h.values]
  unfold commandOf
  simp only [h.flags.mem_iff, h.words, commandOfWords_congr hvalue]

/-- What is read depends on what the groups say and not on their order. -/
theorem read_congr {arguments' : List String} (h : SaySame gs gs')
    (hgs : groups arguments = .ok gs) (hgs' : groups arguments' = .ok gs') :
    read arguments = read arguments' := by
  unfold read
  rw [hgs, hgs']
  show (commandOf gs >>= _) = (commandOf gs' >>= _)
  simp only [commandOf_congr h, h.flags.count_eq, h.flags.mem_iff]

/-! ## 4. Pieces moved and spelled anew -/

theorem wordsOf_filter_isWord (ps : List Piece) :
    wordsOf ((ps.filter Piece.isWord).map Piece.group) = wordsOf (ps.map Piece.group) := by
  unfold wordsOf
  rw [List.filterMap_map, List.filterMap_map, List.filterMap_filter]
  congr 1
  funext p
  cases p <;> rfl

theorem valuesOf_filter_gives (ps : List Piece) (setting : Setting) :
    valuesOf ((ps.filter (Piece.gives setting)).map Piece.group) setting =
      valuesOf (ps.map Piece.group) setting := by
  unfold valuesOf
  rw [List.filterMap_map, List.filterMap_map, List.filterMap_filter]
  congr 1
  funext p
  cases p with
  | key argument s value | keyValue argument s value =>
    by_cases h : s = setting <;> simp [Piece.gives, Piece.group, h]
  | flags | word => rfl

/-- Pieces whose words and values keep their order say the same. -/
theorem Reordered.saySame (h : Reordered ps qs) :
    SaySame (ps.map Piece.group) (qs.map Piece.group) where
  flags := (h.perm.map Piece.group).flatMap_right _
  words := by rw [← wordsOf_filter_isWord, h.words, wordsOf_filter_isWord]
  values setting := by rw [← valuesOf_filter_gives, h.values, valuesOf_filter_gives]

/-- Letters of one argument say what the flags say one by one. -/
theorem saySame_separate (flags : List Flag) :
    SaySame [.flags flags] (flags.map fun flag => .flags [flag]) where
  flags := by simp [flagsOf, List.flatMap_map]
  words := by simp [wordsOf, List.filterMap_map]
  values setting := by simp [valuesOf, List.filterMap_map]

theorem groups_short {short : String} {setting : Setting} (value : String)
    (h : setting.shortName? = some short) :
    groups [short, value] = .ok [.setting setting value] := by
  cases setting <;> cases h <;> rfl

theorem groups_long (setting : Setting) (value : String) :
    groups [setting.longName, value] = .ok [.setting setting value] := by
  cases setting <;> rfl

/-- Another spelling of an option is read as a group that says the same. -/
theorem Respelled.exists_saySame {before after : List String} (h : Respelled before after) :
    ∃ gs gs', groups before = .ok gs ∧ groups after = .ok gs' ∧ SaySame gs gs' := by
  cases h with
  | equals setting value =>
    have hafter := groups_options [(setting, value)]
    exact ⟨_, _, groups_long setting value, hafter, .refl _⟩
  | long setting short value hshort =>
    exact ⟨_, _, groups_short value hshort, groups_long setting value, .refl _⟩
  | separate flags hlen =>
    have hbefore : groups [combined flags] = .ok [.flags flags] := by
      rw [groups, shape_combined hlen]
      rfl
    exact ⟨_, _, hbefore, groups_flags flags, saySame_separate flags⟩

theorem Rearranged.saySame (h : Rearranged ps qs) :
    SaySame (ps.map Piece.group) (qs.map Piece.group) := by
  induction h with
  | reorder h => exact h.saySame
  | symm _ ih => exact ih.symm
  | trans _ _ ih ih' => exact ih.trans ih'
  | @respell before after qs p h =>
    obtain ⟨gs, gs', hgs, hgs', hsame⟩ := h.exists_saySame
    rw [p.groups_arguments] at hgs
    rw [groups_spell] at hgs'
    cases hgs
    cases hgs'
    rw [List.map_append, List.map_append, List.map_append, List.append_assoc]
    exact (SaySame.refl _).append (hsame.append (.refl _))

/-! ## 5. Reading -/

/-- Arguments without a lexical error are cut into pieces in exactly one way, and any rearrangement
of the pieces is read as the arguments are. -/
theorem exists_cut_read (h : ∀ error, groups arguments ≠ .error error) :
    ∃ ps, (∀ qs, Piece.spell qs = arguments ↔ qs = ps) ∧
      ∀ qs, Rearranged ps qs → read (Piece.spell qs) = read arguments := by
  obtain ⟨gs, hgs⟩ : ∃ gs, groups arguments = .ok gs := by
    cases hgs : groups arguments with
    | error error => exact absurd hgs (h error)
    | ok gs => exact ⟨gs, rfl⟩
  obtain ⟨ps, rfl⟩ := exists_spell_eq hgs
  refine ⟨ps, fun qs => ⟨spell_injective, congrArg _⟩, fun qs hqs => ?_⟩
  exact (read_congr hqs.saySame (groups_spell ps) (groups_spell qs)).symm

/-- Flags in one argument before the command, an option given twice, and a value that looks like a
flag. -/
def scatteredPieces : List Piece :=
  [.flags "-vq" [.verbose, .quiet] (by decide), .word "write" "write" (by decide),
   .key "-p" .pid "9" (by decide), .key "-w" .value "-h" (by decide),
   .keyValue "--pid=7" .pid "7" (by decide), .key "-a" .address "0x10" (by decide),
   .key "--type" .type "int16" (by decide)]

def longPieces : List Piece :=
  [.flags "-v" [.verbose] (by decide), .flags "-q" [.quiet] (by decide),
   .word "write" "write" (by decide), .key "--pid" .pid "9" (by decide),
   .key "-w" .value "-h" (by decide), .keyValue "--pid=7" .pid "7" (by decide),
   .key "-a" .address "0x10" (by decide), .key "--type" .type "int16" (by decide)]

def gatheredPieces : List Piece :=
  [.key "--type" .type "int16" (by decide), .key "-w" .value "-h" (by decide),
   .flags "-q" [.quiet] (by decide), .key "-a" .address "0x10" (by decide),
   .key "--pid" .pid "9" (by decide), .word "write" "write" (by decide),
   .keyValue "--pid=7" .pid "7" (by decide), .flags "-v" [.verbose] (by decide)]

theorem rearranged_scatteredPieces : Rearranged scatteredPieces gatheredPieces := by
  have hflags : Respelled (Piece.arguments (.flags "-vq" [.verbose, .quiet] (by decide)))
      (Piece.spell [.flags "-v" [.verbose] (by decide), .flags "-q" [.quiet] (by decide)]) :=
    .separate [.verbose, .quiet] (by decide)
  have hpid : Respelled (Piece.arguments (.key "-p" .pid "9" (by decide)))
      (Piece.spell [.key "--pid" .pid "9" (by decide)]) := .long .pid "-p" "9" rfl
  have hlong : Rearranged scatteredPieces longPieces :=
    (@Rearranged.respell [] scatteredPieces.tail _ _ hflags).trans
      (@Rearranged.respell (longPieces.take 3) (longPieces.drop 4) _ _ hpid)
  have horder : Reordered longPieces gatheredPieces :=
    ⟨by decide, by decide, fun setting => by cases setting <;> decide⟩
  exact hlong.trans (.reorder horder)

theorem exists_cut_read_scattered :
    (∀ error, groups (Piece.spell scatteredPieces) ≠ .error error) ∧
      Rearranged scatteredPieces gatheredPieces ∧
        read ["--type", "int16", "-w", "-h", "-q", "-a", "0x10", "--pid", "9", "write", "--pid=7",
            "-v"] =
          read ["-vq", "write", "-p", "9", "-w", "-h", "--pid=7", "-a", "0x10", "--type",
            "int16"] := by
  have hno : ∀ error, groups (Piece.spell scatteredPieces) ≠ .error error := by
    rw [groups_spell]
    exact fun _ => nofun
  obtain ⟨ps, hcut, hread⟩ := exists_cut_read hno
  obtain rfl := (hcut scatteredPieces).1 rfl
  exact ⟨hno, rearranged_scatteredPieces, hread gatheredPieces rearranged_scatteredPieces⟩

end MemoryKit.CommandLine
