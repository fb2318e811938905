import Mathlib.Data.List.Induction
import Mathlib.Data.List.Perm.Basic
import MemoryKit.CommandLine.Command
import MemoryKit.Proofs.Ascii

/-!
# Arguments as a queue

The arguments can also be read by a loop over a queue. Each round takes the first argument, and an
argument that stands for several goes back to the front in pieces: flags behind one dash as single
flags, the last one first, and a key with its value as two arguments. The loop ends on every list of
arguments, because the pieces are read as what they are, and with the same answer as one pass over
the groups.
-/

namespace MemoryKit.CommandLine

/-! ## 1. The loop -/

structure Gathered where
  help : Bool := false
  version : Bool := false
  verbosity : Nat := 0
  quiet : Bool := false
  command : Option String := none
  operands : List String := []
  given? : Setting → Option String := fun _ => none

namespace Gathered

def raise (gathered : Gathered) : Flag → Gathered
  | .help => { gathered with help := true }
  | .version => { gathered with version := true }
  | .verbose => { gathered with verbosity := min verbosityLimit (gathered.verbosity + 1) }
  | .quiet => { gathered with quiet := true }

/-- A later value takes the place of an earlier one. -/
def keep (gathered : Gathered) (setting : Setting) (value : String) : Gathered :=
  { gathered with given? := fun s => if s = setting then some value else gathered.given? s }

def add (gathered : Gathered) (word : String) : Gathered :=
  match gathered.command with
  | none => { gathered with command := some word }
  | some _ => { gathered with operands := gathered.operands ++ [word] }

def isCombined (argument : String) : Bool :=
  let text := argument.toList
  text.head? = some '-' && !isLong text && 2 < (utf8 argument).length &&
    (text.drop 1).all fun c => c ∈ ['v', 'q', 'h', 'V']

/-- One round: what is gathered and what is left in the queue behind an argument. -/
def round (gathered : Gathered) (argument : String) (queue : List String) :
    Except LexicalError (Gathered × List String) :=
  match Flag.ofName? argument with
  | some flag => .ok (gathered.raise flag, queue)
  | none =>
    match Setting.ofName? argument with
    | some setting =>
      match queue with
      | [] => .error (.missingValue setting)
      | value :: queue => .ok (gathered.keep setting value, queue)
    | none =>
      if isCombined argument then
        .ok (gathered, (argument.toList.drop 1).foldl
          (fun queue c => String.ofList ['-', c] :: queue) queue)
      else
        match keyValue? argument.toList with
        | some (key, value) =>
          if (Setting.ofLongName? key).isSome then .ok (gathered, key :: value :: queue)
          else .error (.takesNoValue key)
        | none =>
          if argument.toList.head? = some '-' ∧ 1 < (utf8 argument).length then
            .error (.unknownOption argument)
          else .ok (gathered.add argument, queue)

/-- The rounds end with a result: when the queue is empty or at the first error. -/
inductive Ends : List String → Gathered → Except LexicalError Gathered → Prop
  | empty {gathered : Gathered} : Ends [] gathered (.ok gathered)
  | error {gathered : Gathered} {argument : String} {queue : List String} {error : LexicalError} :
      gathered.round argument queue = .error error →
      Ends (argument :: queue) gathered (.error error)
  | next {gathered gathered' : Gathered} {argument : String} {queue queue' : List String}
      {result : Except LexicalError Gathered} :
      gathered.round argument queue = .ok (gathered', queue') → Ends queue' gathered' result →
      Ends (argument :: queue) gathered result

def settings (gathered : Gathered) : List Group :=
  Setting.all.filterMap fun setting => (gathered.given? setting).map (Group.setting setting)

/-- A request for help comes before one for the version, and both before any word. -/
def chosen (gathered : Gathered) : Except UsageError Command :=
  if gathered.help then .ok .help
  else if gathered.version then .ok .version
  else
    match gathered.command with
    | none => .error .noCommand
    | some name => commandOfWords gathered.settings (name :: gathered.operands)

def invocation (gathered : Gathered) : Except UsageError Invocation := do
  let command ← gathered.chosen
  return { command, verbosity := gathered.verbosity, quiet := gathered.quiet }

end Gathered

/-! ## 2. Spellings -/

theorem Flag.ofLetter?_eq_some_iff {c : Char} {flag : Flag} :
    Flag.ofLetter? c = some flag ↔ c = flag.letter := by
  constructor
  · intro h
    have hletter := List.find?_some h
    exact (of_decide_eq_true hletter).symm
  · rintro rfl
    cases flag <;> decide

theorem mapM_ofLetter?_eq_some_iff {cs : List Char} {flags : List Flag} :
    cs.mapM Flag.ofLetter? = some flags ↔ cs = flags.map Flag.letter := by
  induction cs generalizing flags with
  | nil => cases flags <;> simp
  | cons c cs ih =>
    simp only [List.mapM_cons, Option.bind_eq_bind, Option.bind_eq_some_iff, Option.pure_def,
      Option.some_inj, Flag.ofLetter?_eq_some_iff, ih]
    constructor
    · rintro ⟨flag, rfl, flags, rfl, rfl⟩
      rfl
    · intro h
      cases flags with
      | nil => cases h
      | cons flag flags =>
        obtain ⟨hc, hcs⟩ := List.cons.inj h
        exact ⟨flag, hc, flags, hcs, rfl⟩

/-- A key without an equals sign ends at the first one. -/
theorem splitEquals?_append {key value : List Char} (h : '=' ∉ key) :
    splitEquals? (key ++ '=' :: value) = some (String.ofList key, String.ofList value) := by
  have hkey : ∀ c ∈ key, decide (c ≠ '=') = true := by
    intro c hc
    exact decide_eq_true fun heq => h (heq ▸ hc)
  unfold splitEquals?
  rw [if_pos (by simp), List.takeWhile_append_of_pos hkey, List.dropWhile_append_of_pos hkey]
  simp

/-- The first equals sign separates a key from its value. -/
theorem splitEquals?_eq_some_iff {text : List Char} {key value : String} :
    splitEquals? text = some (key, value) ↔
      '=' ∉ key.toList ∧ text = key.toList ++ '=' :: value.toList := by
  constructor
  · intro h
    have hmem : '=' ∈ text := by
      by_contra hno
      rw [splitEquals?, if_neg (by simpa using hno)] at h
      cases h
    obtain ⟨before, behind, rfl, hbefore⟩ := List.eq_append_cons_of_mem hmem
    rw [splitEquals?_append hbefore] at h
    cases h
    rw [String.toList_ofList, String.toList_ofList]
    exact ⟨hbefore, rfl⟩
  · rintro ⟨hkey, rfl⟩
    rw [splitEquals?_append hkey, String.ofList_toList, String.ofList_toList]

/-- An argument of the form `--key=value` is cut at its first equals sign. -/
theorem splitEquals?_of_keyValue? {text : List Char} {pair : String × String}
    (h : keyValue? text = some pair) : splitEquals? text = some pair := by
  unfold keyValue? at h
  split at h
  · exact h
  · cases h

theorem Flag.ofName?_shortName (flag : Flag) : Flag.ofName? flag.shortName = some flag := by
  cases flag <;> decide

theorem Flag.ofName?_longName (setting : Setting) : Flag.ofName? setting.longName = none := by
  cases setting <;> decide

theorem Setting.ofName?_longName (setting : Setting) :
    Setting.ofName? setting.longName = some setting := by
  cases setting <;> decide

theorem Setting.ofLongName?_eq_some_iff {key : String} {setting : Setting} :
    Setting.ofLongName? key = some setting ↔ key = setting.longName := by
  constructor
  · intro h
    have hname := List.find?_some h
    exact of_decide_eq_true hname
  · rintro rfl
    cases setting <;> decide

theorem one_le_length_utf8EncodeChar (c : Char) : 1 ≤ (String.utf8EncodeChar c).length := by
  rw [String.length_utf8EncodeChar]
  exact c.utf8Size_pos

/-- A text has at least as many bytes as characters. -/
theorem length_toList_le_length_utf8 (text : String) : text.toList.length ≤ (utf8 text).length := by
  unfold utf8
  induction text.toList with
  | nil => simp
  | cons c cs ih =>
    have := one_le_length_utf8EncodeChar c
    rw [List.flatMap_cons, List.length_append, List.length_cons]
    omega

/-- Combined flags are a dash and at least two letters, each of a flag. -/
theorem combinedFlags?_eq_some_iff {text : List Char} {flags : List Flag} :
    combinedFlags? text = some flags ↔ 2 ≤ flags.length ∧ text = '-' :: flags.map Flag.letter := by
  constructor
  · intro h
    unfold combinedFlags? at h
    split at h
    · rename_i first second rest
      have htext := mapM_ofLetter?_eq_some_iff.1 h
      have hlen := congrArg List.length htext
      rw [List.length_map, List.length_cons, List.length_cons] at hlen
      exact ⟨by omega, by rw [htext]⟩
    · cases h
  · rintro ⟨hlen, rfl⟩
    match flags, hlen with
    | first :: second :: rest, _ => exact mapM_ofLetter?_eq_some_iff.2 rfl

theorem mem_letters_iff {c : Char} : c ∈ ['v', 'q', 'h', 'V'] ↔ ∃ flag : Flag, c = flag.letter := by
  constructor
  · intro h
    simp only [List.mem_cons, List.not_mem_nil, or_false] at h
    rcases h with rfl | rfl | rfl | rfl
    · exact ⟨.verbose, rfl⟩
    · exact ⟨.quiet, rfl⟩
    · exact ⟨.help, rfl⟩
    · exact ⟨.version, rfl⟩
  · rintro ⟨flag, rfl⟩
    cases flag <;> decide

theorem exists_map_letter_eq {cs : List Char} (h : ∀ c ∈ cs, c ∈ ['v', 'q', 'h', 'V']) :
    ∃ flags : List Flag, cs = flags.map Flag.letter := by
  induction cs with
  | nil => exact ⟨[], rfl⟩
  | cons c cs ih =>
    obtain ⟨flag, rfl⟩ := mem_letters_iff.1 (h c List.mem_cons_self)
    obtain ⟨flags, rfl⟩ := ih fun c hc => h c (List.mem_cons_of_mem _ hc)
    exact ⟨flag :: flags, rfl⟩

namespace Gathered

theorem isCombined_iff {argument : String} :
    isCombined argument ↔ ∃ flags, combinedFlags? argument.toList = some flags := by
  simp only [combinedFlags?_eq_some_iff, isCombined, Bool.and_eq_true, decide_eq_true_eq,
    Bool.not_eq_true', List.all_eq_true]
  constructor
  · rintro ⟨⟨⟨hdash, -⟩, hlen⟩, hletters⟩
    obtain ⟨cs, hcs⟩ := List.head?_eq_some_iff.1 hdash
    rw [hcs, List.drop_succ_cons, List.drop_zero] at hletters
    obtain ⟨flags, rfl⟩ := exists_map_letter_eq hletters
    refine ⟨flags, ?_, hcs⟩
    -- all characters are ASCII, so there are as many bytes
    rw [utf8_eq_map_ascii, hcs, List.length_map, List.length_cons, List.length_map] at hlen
    · omega
    · intro c hc
      rw [hcs, List.mem_cons, List.mem_map] at hc
      rcases hc with rfl | ⟨flag, -, rfl⟩
      · decide
      · cases flag <;> decide
  · rintro ⟨flags, hlen, htext⟩
    have hbytes := length_toList_le_length_utf8 argument
    rw [htext, List.length_cons, List.length_map] at hbytes
    rw [htext]
    refine ⟨⟨⟨rfl, ?_⟩, by omega⟩, ?_⟩
    · match flags, hlen with
      | first :: rest, _ => cases first <;> rfl
    · intro c hc
      obtain ⟨flag, -, rfl⟩ := List.mem_map.1 hc
      exact mem_letters_iff.2 ⟨flag, rfl⟩

/-- An option is a dash with more behind it, so a dash alone is a word. -/
theorem isOption_iff {argument : String} :
    isOption argument.toList ↔
      argument.toList.head? = some '-' ∧ 1 < (utf8 argument).length := by
  have hbytes := length_toList_le_length_utf8 argument
  constructor
  · intro h
    unfold isOption at h
    split at h
    · rename_i c cs htext
      rw [htext, List.length_cons, List.length_cons] at hbytes
      exact ⟨by rw [htext, List.head?_cons], by omega⟩
    · cases h
  · rintro ⟨hdash, hlen⟩
    obtain ⟨cs, hcs⟩ := List.head?_eq_some_iff.1 hdash
    rw [hcs]
    cases cs with
    | nil =>
      rw [utf8, hcs] at hlen
      exact absurd hlen (by decide)
    | cons c cs => rfl

/-! ## 3. Rounds -/

variable {gathered gathered' : Gathered} {argument : String} {queue queue' : List String}
  {result : Except LexicalError Gathered}

theorem ends_nil_iff : Ends [] gathered result ↔ result = .ok gathered := by
  constructor
  · intro h
    cases h
    rfl
  · rintro rfl
    exact .empty

theorem ends_cons_iff_of_error {error : LexicalError}
    (h : gathered.round argument queue = .error error) :
    Ends (argument :: queue) gathered result ↔ result = .error error := by
  constructor
  · intro hends
    cases hends with
    | error h' =>
      rw [h] at h'
      rw [Except.error.inj h']
    | next h' _ =>
      rw [h] at h'
      cases h'
  · rintro rfl
    exact .error h

/-- A round that is done leaves the rest of the loop to the queue it made. -/
theorem ends_cons_iff_of_ok (h : gathered.round argument queue = .ok (gathered', queue')) :
    Ends (argument :: queue) gathered result ↔ Ends queue' gathered' result := by
  constructor
  · intro hends
    cases hends with
    | error h' =>
      rw [h] at h'
      cases h'
    | next h' hends =>
      rw [h] at h'
      obtain ⟨rfl, rfl⟩ := Prod.mk.inj (Except.ok.inj h')
      exact hends
  · exact .next h

/-- Pieces that are put back one by one come out in reverse. -/
theorem foldl_cons_letters (flags : List Flag) (queue : List String) :
    (flags.map Flag.letter).foldl (fun queue c => String.ofList ['-', c] :: queue) queue =
      flags.reverse.map Flag.shortName ++ queue := by
  induction flags generalizing queue with
  | nil => rfl
  | cons flag flags ih =>
    rw [List.map_cons, List.foldl_cons, ih, List.reverse_cons, List.map_append, List.append_assoc]
    rfl

/-- A round does what the shape of its argument says. -/
theorem round_eq (gathered : Gathered) (argument : String) (queue : List String) :
    gathered.round argument queue =
      match shape argument with
      | .error error => .error error
      | .ok (.flags [flag]) => .ok (gathered.raise flag, queue)
      | .ok (.flags flags) => .ok (gathered, flags.reverse.map Flag.shortName ++ queue)
      | .ok (.key setting) =>
        match queue with
        | [] => .error (.missingValue setting)
        | value :: queue => .ok (gathered.keep setting value, queue)
      | .ok (.keyValue setting value) => .ok (gathered, setting.longName :: value :: queue)
      | .ok (.word text) => .ok (gathered.add text, queue) := by
  unfold round shape
  cases Flag.ofName? argument with
  | some flag => rfl
  | none =>
    cases Setting.ofName? argument with
    | some setting => rfl
    | none =>
      cases hcombined : combinedFlags? argument.toList with
      | some flags =>
        -- the letters go back to the queue one by one, the last one first
        obtain ⟨hlen, htext⟩ := combinedFlags?_eq_some_iff.1 hcombined
        simp only [if_pos (isCombined_iff.2 ⟨flags, hcombined⟩), htext, List.drop_succ_cons,
          List.drop_zero, foldl_cons_letters]
        match flags, hlen with
        | first :: second :: rest, _ => rfl
      | none =>
        have hno : ¬isCombined argument = true := by
          rw [isCombined_iff, hcombined]
          simp
        simp only [if_neg hno]
        cases keyValue? argument.toList with
        | some pair =>
          obtain ⟨key, value⟩ := pair
          cases hkey : Setting.ofLongName? key with
          | some setting =>
            have hname := Setting.ofLongName?_eq_some_iff.1 hkey
            simp only [hkey, Option.isSome_some, if_true]
            rw [hname]
          | none => simp only [hkey, Option.isSome_none, Bool.false_eq_true, if_false]
        | none =>
          -- the loop counts bytes and the grammar characters, with the same answer
          by_cases hoption : isOption argument.toList
          · rw [if_pos hoption, if_pos (isOption_iff.1 hoption)]
          · rw [if_neg hoption, if_neg (mt isOption_iff.2 hoption)]

/-! ## 4. Whole runs -/

def addGroup (gathered : Gathered) : Group → Gathered
  | .flags flags => flags.foldl raise gathered
  | .setting setting value => gathered.keep setting value
  | .word text => gathered.add text

instance : RightCommutative raise where
  right_comm gathered first second := by cases first <;> cases second <;> rfl

/-- Letters that were queued again are raised one after the other. -/
theorem ends_shortNames_iff (flags : List Flag) :
    Ends (flags.map Flag.shortName ++ queue) gathered result ↔
      Ends queue (flags.foldl raise gathered) result := by
  induction flags generalizing gathered with
  | nil => rfl
  | cons flag flags ih =>
    have hround : gathered.round flag.shortName (flags.map Flag.shortName ++ queue) =
        .ok (gathered.raise flag, flags.map Flag.shortName ++ queue) := by
      unfold round
      rw [Flag.ofName?_shortName]
    rw [List.map_cons, List.cons_append, ends_cons_iff_of_ok hround, ih, List.foldl_cons]

/-- A name that was queued again in front of its value keeps that value. -/
theorem ends_longName_iff (setting : Setting) (value : String) :
    Ends (setting.longName :: value :: queue) gathered result ↔
      Ends queue (gathered.keep setting value) result := by
  apply ends_cons_iff_of_ok
  unfold round
  rw [Flag.ofName?_longName, Setting.ofName?_longName]

/-- The pieces of one argument are read as one group, whatever the queue holds behind them. -/
theorem ends_cons_iff_of_flags {flags : List Flag} (h : shape argument = .ok (.flags flags)) :
    Ends (argument :: queue) gathered result ↔
      Ends queue (gathered.addGroup (.flags flags)) result := by
  have hround := round_eq gathered argument queue
  rw [h] at hround
  match flags with
  | [flag] => exact ends_cons_iff_of_ok hround
  | [] | first :: second :: rest =>
    rw [ends_cons_iff_of_ok hround, ends_shortNames_iff, (List.reverse_perm _).foldl_eq]
    rfl

theorem ends_cons_iff_of_keyValue {setting : Setting} {value : String}
    (h : shape argument = .ok (.keyValue setting value)) :
    Ends (argument :: queue) gathered result ↔
      Ends queue (gathered.addGroup (.setting setting value)) result := by
  have hround := round_eq gathered argument queue
  rw [h] at hround
  rw [ends_cons_iff_of_ok hround, ends_longName_iff]
  rfl

/-- The rounds end with what one pass over the groups gathers, or with the first error of that
pass. -/
theorem ends_iff : Ends queue gathered result ↔
    result = (groups queue).map fun gs => gs.foldl addGroup gathered := by
  have hmap (group : Group) (rest : List String) (gathered : Gathered) :
      ((groups rest).map (group :: ·)).map (fun gs => gs.foldl addGroup gathered) =
        (groups rest).map fun gs => gs.foldl addGroup (gathered.addGroup group) := by
    cases groups rest <;> rfl
  -- along the one pass over the arguments, with what the loop has gathered so far left open
  fun_induction groups queue generalizing gathered with
  | case1 => exact ends_nil_iff
  | case2 argument rest error h =>
    have hround := round_eq gathered argument rest
    rw [h] at hround
    exact ends_cons_iff_of_error hround
  | case3 argument rest flags h ih =>
    rw [hmap, ends_cons_iff_of_flags h]
    exact ih
  | case4 argument rest setting value h ih =>
    rw [hmap, ends_cons_iff_of_keyValue h]
    exact ih
  | case5 argument rest text h ih =>
    have hround := round_eq gathered argument rest
    rw [h] at hround
    rw [hmap, ends_cons_iff_of_ok hround]
    exact ih
  | case6 argument setting h =>
    have hround := round_eq gathered argument []
    rw [h] at hround
    exact ends_cons_iff_of_error hround
  | case7 argument setting h value rest ih =>
    have hround := round_eq gathered argument (value :: rest)
    rw [h] at hround
    rw [hmap, ends_cons_iff_of_ok hround]
    exact ih

end Gathered

/-! ## 5. The gathered invocation -/

theorem flagsOf_append (gs gs' : List Group) : flagsOf (gs ++ gs') = flagsOf gs ++ flagsOf gs' :=
  List.flatMap_append

theorem wordsOf_append (gs gs' : List Group) : wordsOf (gs ++ gs') = wordsOf gs ++ wordsOf gs' :=
  List.filterMap_append

/-- The last value given counts. -/
theorem value?_append (gs gs' : List Group) (setting : Setting) :
    value? (gs ++ gs') setting = (value? gs' setting).or (value? gs setting) := by
  unfold value? valuesOf
  rw [List.filterMap_append, List.getLast?_append]

/-- A command is read from the value of each setting alone. -/
theorem commandOfWords_congr {gs gs' : List Group} (h : value? gs = value? gs') :
    commandOfWords gs = commandOfWords gs' := by
  funext words
  unfold commandOfWords
  simp only [readCommand, writeCommand, demoCommand, typesCommand, regenCommand, readTarget,
    readType, readSettings, require, anyGiven, h]

namespace Gathered

/-- What groups say, with nothing gathered in steps. -/
def ofGroups (gs : List Group) : Gathered where
  help := decide (Flag.help ∈ flagsOf gs)
  version := decide (Flag.version ∈ flagsOf gs)
  verbosity := min verbosityLimit ((flagsOf gs).count .verbose)
  quiet := decide (Flag.quiet ∈ flagsOf gs)
  command := (wordsOf gs).head?
  operands := (wordsOf gs).tail
  given? := value? gs

/-- Flags that are raised are counted up to the limit, whatever their order. -/
theorem foldl_raise (gathered : Gathered) (flags : List Flag)
    (h : gathered.verbosity ≤ verbosityLimit) :
    flags.foldl raise gathered =
      { gathered with
        help := gathered.help || decide (Flag.help ∈ flags)
        version := gathered.version || decide (Flag.version ∈ flags)
        verbosity := min verbosityLimit (gathered.verbosity + flags.count .verbose)
        quiet := gathered.quiet || decide (Flag.quiet ∈ flags) } := by
  induction flags generalizing gathered with
  | nil =>
    have hmin : min verbosityLimit gathered.verbosity = gathered.verbosity := by omega
    simp [hmin]
  | cons flag flags ih =>
    have hraise : (gathered.raise flag).verbosity ≤ verbosityLimit := by
      cases flag <;> simp only [raise] <;> omega
    rw [List.foldl_cons, ih _ hraise]
    cases flag with
    | verbose =>
      simp [raise]
      omega
    | help | version | quiet => simp [raise]

/-- Flags at the end are raised after everything before them. -/
theorem ofGroups_append_flags (gs : List Group) (flags : List Flag) :
    ofGroups (gs ++ [.flags flags]) = flags.foldl raise (ofGroups gs) := by
  have hflags : flagsOf [.flags flags] = flags := List.append_nil flags
  have hwords : wordsOf [.flags flags] = [] := rfl
  have hvalue : value? (gs ++ [.flags flags]) = value? gs := by
    funext setting
    rw [value?_append]
    rfl
  have hcount : min verbosityLimit ((flagsOf gs).count .verbose + flags.count .verbose) =
      min verbosityLimit
        (min verbosityLimit ((flagsOf gs).count .verbose) + flags.count .verbose) := by omega
  rw [foldl_raise (ofGroups gs) flags (Nat.min_le_left ..)]
  simp only [ofGroups, flagsOf_append, hflags, wordsOf_append, hwords, List.append_nil, hvalue,
    List.count_append, hcount, List.mem_append, Bool.decide_or]

theorem ofGroups_append_setting (gs : List Group) (setting : Setting) (value : String) :
    ofGroups (gs ++ [.setting setting value]) = (ofGroups gs).keep setting value := by
  have hflags : flagsOf [.setting setting value] = [] := rfl
  have hwords : wordsOf [.setting setting value] = [] := rfl
  have hvalue : value? (gs ++ [.setting setting value]) =
      fun s => if s = setting then some value else value? gs s := by
    funext s
    rw [value?_append]
    by_cases h : s = setting
    · simp [value?, valuesOf, h]
    · simp [value?, valuesOf, h, Ne.symm h]
  simp only [ofGroups, keep, flagsOf_append, hflags, wordsOf_append, hwords, List.append_nil,
    hvalue]

theorem ofGroups_append_word (gs : List Group) (text : String) :
    ofGroups (gs ++ [.word text]) = (ofGroups gs).add text := by
  have hflags : flagsOf [.word text] = [] := rfl
  have hwords : wordsOf [.word text] = [text] := rfl
  have hvalue : value? (gs ++ [.word text]) = value? gs := by
    funext setting
    rw [value?_append]
    rfl
  simp only [ofGroups, add, flagsOf_append, hflags, wordsOf_append, hwords, List.append_nil, hvalue]
  cases wordsOf gs <;> rfl

/-- The groups are added from the left, so the induction takes them off at the right. -/
theorem foldl_addGroup (gs : List Group) : gs.foldl addGroup {} = ofGroups gs := by
  induction gs using List.reverseRecOn with
  | nil => rfl
  | append_singleton gs group ih =>
    rw [List.foldl_append, ih, List.foldl_cons, List.foldl_nil]
    cases group with
    | flags flags => exact (ofGroups_append_flags gs flags).symm
    | setting setting value => exact (ofGroups_append_setting gs setting value).symm
    | word text => exact (ofGroups_append_word gs text).symm

theorem value?_settings (gathered : Gathered) : value? gathered.settings = gathered.given? := by
  funext setting
  have hvalues : valuesOf gathered.settings setting =
      (Setting.all.filter (· = setting)).filterMap gathered.given? := by
    unfold valuesOf settings
    rw [List.filterMap_filterMap, List.filterMap_filter]
    congr 1
    funext s
    cases gathered.given? s <;> simp
  have hsingle : Setting.all.filter (· = setting) = [setting] := by cases setting <;> decide
  rw [value?, hvalues, hsingle]
  cases h : gathered.given? setting <;> simp [h]

/-- What the loop has gathered chooses the command that the groups choose. -/
theorem chosen_ofGroups (gs : List Group) : (ofGroups gs).chosen = commandOf gs := by
  unfold chosen commandOf
  rw [commandOfWords_congr (value?_settings (ofGroups gs))]
  cases h : wordsOf gs with
  | nil => simp only [ofGroups, h, decide_eq_true_eq]; rfl
  | cons name operands => simp only [ofGroups, h, decide_eq_true_eq]; rfl

/-- On every list of arguments the rounds end, with one result, and that result is what one pass
over the arguments reads. -/
theorem exists_ends_read (arguments : List String) :
    ∃ result, (∀ r, Ends arguments {} r ↔ r = result) ∧
      (result.mapError UsageError.lexical >>= invocation) = read arguments := by
  refine ⟨(groups arguments).map ofGroups, ?_, ?_⟩
  · intro r
    rw [ends_iff]
    simp only [foldl_addGroup]
  · unfold read
    cases groups arguments with
    | error error => rfl
    | ok gs =>
      change (ofGroups gs).invocation = _
      unfold invocation
      rw [chosen_ofGroups]
      rfl

end Gathered

/-! ## 6. The texts of errors -/

namespace Gathered

/-- The text of the error in a round that reads `argument` in front of a queue. -/
inductive ErrorText (argument : String) (queue : List String) : String → Prop
  | missingValue {setting : Setting} : Setting.ofName? argument = some setting → queue = [] →
      ErrorText argument queue (setting.longName ++ " requires a value")
  | takesNoValue {key value : String} : '=' ∉ key.toList →
      argument.toList = key.toList ++ '=' :: value.toList → Setting.ofLongName? key = none →
      ErrorText argument queue ("option '" ++ key ++ "' does not take a value")
  | unknownOption : argument.toList.head? = some '-' →
      ErrorText argument queue ("unknown option '" ++ argument ++ "'")

/-- A round that refuses its argument says why in one of three texts, filled in with what the
argument holds. -/
theorem errorText_of_round_eq_error {gathered : Gathered} {argument : String}
    {queue : List String} {error : LexicalError}
    (h : gathered.round argument queue = .error error) :
    ErrorText argument queue error.message := by
  unfold round at h
  split at h
  · cases h
  split at h
  · rename_i setting hsetting
    cases queue with
    | nil =>
      cases h
      exact .missingValue hsetting rfl
    | cons => cases h
  split at h
  · cases h
  split at h
  · rename_i key value hkey
    split at h
    · cases h
    · rename_i hnone
      cases h
      -- the key of the message ends at the first equals sign
      have hsplit := splitEquals?_of_keyValue? hkey
      obtain ⟨hequals, htext⟩ := splitEquals?_eq_some_iff.1 hsplit
      have hname : Setting.ofLongName? key = none := by simpa using hnone
      exact @ErrorText.takesNoValue argument queue key value hequals htext hname
  · split at h
    · rename_i hdash
      cases h
      exact .unknownOption hdash.1
    · cases h

/-- A loop that ends in an error tells in its text what the last round has read. -/
theorem exists_errorText_of_ends {queue : List String} {gathered : Gathered}
    {error : LexicalError} (h : Ends queue gathered (.error error)) :
    ∃ argument rest, ErrorText argument rest error.message := by
  generalize hresult : (Except.error error : Except LexicalError Gathered) = result at h
  induction h with
  | empty => cases hresult
  | error hround =>
    cases hresult
    exact ⟨_, _, errorText_of_round_eq_error hround⟩
  | next _ _ ih => exact ih hresult

end Gathered

end MemoryKit.CommandLine
