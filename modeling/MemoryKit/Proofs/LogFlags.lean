import MemoryKit.Proofs.ProgramEffects
import MemoryKit.Proofs.WrittenCommand

/-!
# Settings of the log

Flags that choose the level of the log may be put among the arguments, wherever no value is awaited,
and the log's variable may be set. The exit code, the files and what is printed stay the same, and
the recorded events are those of one sequence up to a threshold, which the variable sets or else the
flags.
-/

namespace MemoryKit

namespace CommandLine

/-! ## 1. Inserted flags -/

/-- Flags that are about the log alone: one by a name, or the letters of several behind a dash. -/
def IsLogFlag (argument : String) : Prop :=
  argument ∈ ["-v", "--verbose", "-q", "--quiet"] ∨
    ∃ letters : List Char, 2 ≤ letters.length ∧ (∀ c ∈ letters, c = 'v' ∨ c = 'q') ∧
      argument = String.ofList ('-' :: letters)

/-- The arguments end with an option that takes the next argument as its value. -/
def AwaitsValue (arguments : List String) : Prop :=
  ∃ setting, groups arguments = .error (.missingValue setting)

/-- Flags of the log are put among arguments, none of them where a value is awaited. -/
inductive Inserted (arguments : List String) : List String → Prop
  | refl : Inserted arguments arguments
  | insert {before after : List String} {flag : String} :
      Inserted arguments (before ++ after) → IsLogFlag flag → ¬AwaitsValue before →
      Inserted arguments (before ++ flag :: after)

-- An option that is itself a value takes none.
example : AwaitsValue ["read", "-v", "-p"] ∧ ¬AwaitsValue ["read", "-p", "-p"] :=
  ⟨⟨.pid, by decide⟩, fun ⟨_, h⟩ => nomatch h⟩

example : Inserted ["read", "-p", "-v"] ["read", "-qv", "-p", "-v", "--quiet"] := by
  have hlast : Inserted ["read", "-p", "-v"] ["read", "-p", "-v", "--quiet"] :=
    @Inserted.insert _ ["read", "-p", "-v"] [] "--quiet" .refl (.inl (by decide))
      fun ⟨_, h⟩ => nomatch h
  exact @Inserted.insert _ ["read"] ["-p", "-v", "--quiet"] "-qv" hlast
    (.inr ⟨['q', 'v'], by decide, by simp, rfl⟩) fun ⟨_, h⟩ => nomatch h

variable {argument : String} {before after arguments arguments' : List String} {flags : List Flag}
  {gs gs' : List Group}

theorem exists_flags_of_letters {letters : List Char} (h : ∀ c ∈ letters, c = 'v' ∨ c = 'q') :
    ∃ flags : List Flag, letters = flags.map Flag.letter ∧
      ∀ flag ∈ flags, flag = .verbose ∨ flag = .quiet := by
  induction letters with
  | nil => exact ⟨[], rfl, nofun⟩
  | cons c letters ih =>
    obtain ⟨flags, rfl, hflags⟩ := ih fun c hc => h c (List.mem_cons_of_mem _ hc)
    rcases h c List.mem_cons_self with rfl | rfl
    · exact ⟨.verbose :: flags, rfl, List.forall_mem_cons.2 ⟨.inl rfl, hflags⟩⟩
    · exact ⟨.quiet :: flags, rfl, List.forall_mem_cons.2 ⟨.inr rfl, hflags⟩⟩

/-- A flag of the log is read as flags that are about the log alone. -/
theorem IsLogFlag.exists_shape (h : IsLogFlag argument) :
    ∃ flags, shape argument = .ok (.flags flags) ∧
      ∀ flag ∈ flags, flag = .verbose ∨ flag = .quiet := by
  obtain hname | ⟨letters, hlen, hletters, rfl⟩ := h
  · simp only [List.mem_cons, List.not_mem_nil, or_false] at hname
    rcases hname with rfl | rfl | rfl | rfl
    · exact ⟨[.verbose], by decide, by decide⟩
    · exact ⟨[.verbose], by decide, by decide⟩
    · exact ⟨[.quiet], by decide, by decide⟩
    · exact ⟨[.quiet], by decide, by decide⟩
  · obtain ⟨flags, rfl, hflags⟩ := exists_flags_of_letters hletters
    rw [List.length_map] at hlen
    exact ⟨flags, shape_combined hlen, hflags⟩

/-! ## 2. The command stays the same -/

theorem map_eq_error_iff {ε α β : Type} {f : α → β} {x : Except ε α} {error : ε} :
    x.map f = .error error ↔ x = .error error := by
  cases x <;> simp [Except.map]

/-- An error that is not about the end of the arguments is there whatever follows. -/
theorem groups_append_of_error {error : LexicalError} (h : groups before = .error error)
    (hend : ∀ setting, error ≠ .missingValue setting) :
    groups (before ++ after) = .error error := by
  fun_induction groups before with
  | case1 => cases h
  | case2 argument rest error hshape =>
    cases h
    rw [List.cons_append, groups, hshape]
  | case3 _ _ _ hshape ih | case4 _ _ _ _ hshape ih | case5 _ _ _ hshape ih
  | case7 _ _ hshape _ _ ih =>
    simp only [List.cons_append, groups, hshape, ih (map_eq_error_iff.1 h)]
    rfl
  | case6 argument setting hshape =>
    cases h
    exact absurd rfl (hend setting)

/-- Flags put where no value is awaited are one group more. -/
theorem groups_insert_of_ok (hshape : shape argument = .ok (.flags flags))
    (h : groups before = .ok gs) :
    groups (before ++ argument :: after) =
      (groups after).map fun gs' => gs ++ .flags flags :: gs' := by
  rw [groups_append_of_ok h, groups, hshape]
  cases groups after <;> rfl

/-- Flags of the log have no part in the command. -/
theorem commandOf_insert (h : ∀ flag ∈ flags, flag = .verbose ∨ flag = .quiet) :
    commandOf (gs ++ .flags flags :: gs') = commandOf (gs ++ gs') := by
  have hflags : flagsOf (gs ++ .flags flags :: gs') = flagsOf gs ++ (flags ++ flagsOf gs') :=
    flagsOf_append gs _
  have hmem {flag : Flag} (hflag : flag = .help ∨ flag = .version) :
      flag ∈ flagsOf (gs ++ .flags flags :: gs') ↔ flag ∈ flagsOf (gs ++ gs') := by
    have hnot : flag ∉ flags := by
      intro hmem
      rcases hflag with rfl | rfl <;> exact absurd (h _ hmem) (by decide)
    simp [hflags, flagsOf_append, hnot]
  have hwords : wordsOf (gs ++ .flags flags :: gs') = wordsOf (gs ++ gs') := by
    rw [wordsOf_append, wordsOf_append]
    rfl
  have hvalue : value? (gs ++ .flags flags :: gs') = value? (gs ++ gs') := by
    funext setting
    have hnone : value? [.flags flags] setting = none := rfl
    rw [value?_append, value?_append, value?_cons, hnone, Option.or_none]
  simp only [commandOf, hmem, hwords, commandOfWords_congr hvalue, true_or, or_true]

theorem map_command_read (arguments : List String) :
    (read arguments).map Invocation.command =
      ((groups arguments).mapError UsageError.lexical >>= commandOf) := by
  unfold read
  cases groups arguments with
  | error error => rfl
  | ok gs =>
    change ((commandOf gs >>= fun command => pure _).map _) = commandOf gs
    cases commandOf gs <;> rfl

/-- One flag more leaves the command as it was. -/
theorem map_command_read_insert (hflag : IsLogFlag argument) (hawaits : ¬AwaitsValue before) :
    (read (before ++ argument :: after)).map Invocation.command =
      (read (before ++ after)).map Invocation.command := by
  obtain ⟨flags, hshape, hflags⟩ := hflag.exists_shape
  rw [map_command_read, map_command_read]
  cases hgs : groups before with
  | error error =>
    have hend (setting : Setting) : error ≠ .missingValue setting := by
      rintro rfl
      exact hawaits ⟨setting, hgs⟩
    rw [groups_append_of_error hgs hend, groups_append_of_error hgs hend]
  | ok gs =>
    rw [groups_insert_of_ok hshape hgs, groups_append_of_ok hgs]
    cases groups after with
    | error error => rfl
    | ok gs' => exact commandOf_insert hflags

/-- Flags put in one after the other leave the command as it was. -/
theorem Inserted.map_command_read (h : Inserted arguments arguments') :
    (read arguments').map Invocation.command = (read arguments).map Invocation.command := by
  induction h with
  | refl => rfl
  | insert _ hflag hawaits ih => rw [map_command_read_insert hflag hawaits, ih]

/-- A command line that is refused is refused with the same error. -/
theorem Inserted.read_eq_error {error : UsageError} (h : Inserted arguments arguments')
    (hread : read arguments = .error error) : read arguments' = .error error := by
  have hmap := h.map_command_read
  rw [hread] at hmap
  exact map_eq_error_iff.1 hmap

theorem Inserted.exists_read_eq_ok {invocation : Invocation} (h : Inserted arguments arguments')
    (hread : read arguments = .ok invocation) :
    ∃ invocation', read arguments' = .ok invocation' ∧
      invocation'.command = invocation.command := by
  have hmap := h.map_command_read
  rw [hread] at hmap
  exact map_eq_ok_iff.1 hmap

end CommandLine

open CommandLine

/-! ## 3. Thresholds -/

namespace Log

/-- The text is the name of the level, in upper or lower case. -/
def Level.IsNamed (level : Level) (text : List Char) : Prop :=
  text.map Char.toLower = level.name.toList.map Char.toLower

instance (level : Level) (text : List Char) : Decidable (level.IsNamed text) :=
  inferInstanceAs (Decidable (_ = _))

/-- What is relied on of a parser of filter texts: the name of a level is the filter up to that
level, and `off` is the filter that no event passes. -/
structure ReadsLevels (parse : String → Option Filter) : Prop where
  level : ∀ (level : Level) (text : String), level.IsNamed text.toList →
    parse text = some (.upTo (some level))
  off : parse "off" = some (.upTo none)

/-- The level that flags choose. Silence wins, otherwise each flag for more log adds detail. -/
inductive FlagLevel (flags : List Flag) : Level → Prop
  | error : Flag.quiet ∈ flags → FlagLevel flags .error
  | warn : Flag.quiet ∉ flags → flags.count .verbose = 0 → FlagLevel flags .warn
  | info : Flag.quiet ∉ flags → flags.count .verbose = 1 → FlagLevel flags .info
  | debug : Flag.quiet ∉ flags → flags.count .verbose = 2 → FlagLevel flags .debug
  | trace : Flag.quiet ∉ flags → 3 ≤ flags.count .verbose → FlagLevel flags .trace

/-- The most detailed level that is recorded, if any is, for the text of the log's variable and the
level of the flags. The flags count where the variable is unset or blank or its text is rejected. -/
inductive Threshold (parse : String → Option Filter) (flags : Level) :
    Option String → Option Level → Prop
  | unset : Threshold parse flags none (some flags)
  | blank {text : String} : Text.trim text.toList = [] →
      Threshold parse flags (some text) (some flags)
  | level {text : String} {level : Level} : level.IsNamed (Text.trim text.toList) →
      Threshold parse flags (some text) (some level)
  | off {text : String} : Text.trim text.toList = "off".toList →
      Threshold parse flags (some text) none
  | rejected {text : String} : parse (String.ofList (Text.trim text.toList)) = none →
      Threshold parse flags (some text) (some flags)

variable {parse : String → Option Filter} {flags : List Flag} {level : Level}
  {text? : Option String} {threshold : Option Level}

/-- The level that is computed from the flags is the one they choose. -/
theorem FlagLevel.ofFlags_eq (h : FlagLevel flags level) :
    Level.ofFlags (min verbosityLimit (flags.count .verbose)) (decide (Flag.quiet ∈ flags)) =
      level := by
  have hcount (n : Nat) (hn : n ≤ verbosityLimit) (h : flags.count .verbose = n) :
      min verbosityLimit (flags.count .verbose) = n := by
    rw [h, Nat.min_eq_right hn]
  unfold Level.ofFlags
  cases h with
  | error hquiet => rw [if_pos (decide_eq_true hquiet)]
  | warn hquiet h => rw [decide_eq_false hquiet, hcount 0 (by decide) h]; rfl
  | info hquiet h => rw [decide_eq_false hquiet, hcount 1 (by decide) h]; rfl
  | debug hquiet h => rw [decide_eq_false hquiet, hcount 2 (by decide) h]; rfl
  | trace hquiet h =>
    obtain ⟨n, hn⟩ : ∃ n, min verbosityLimit (flags.count .verbose) = n + 3 := by
      have hle : 3 ≤ min verbosityLimit (flags.count .verbose) := Nat.le_min.2 ⟨by decide, h⟩
      exact ⟨_, (Nat.sub_add_cancel hle).symm⟩
    rw [decide_eq_false hquiet, hn]
    rfl

theorem exists_flagLevel (flags : List Flag) : ∃ level, FlagLevel flags level := by
  by_cases hquiet : Flag.quiet ∈ flags
  · exact ⟨_, .error hquiet⟩
  match h : flags.count .verbose with
  | 0 => exact ⟨_, .warn hquiet h⟩
  | 1 => exact ⟨_, .info hquiet h⟩
  | 2 => exact ⟨_, .debug hquiet h⟩
  | n + 3 => exact ⟨_, .trace hquiet (by omega)⟩

theorem choose_of_trim_eq_nil {text : String} (h : Text.trim text.toList = [])
    (parse : String → Option Filter) (verbosity : Nat) (quiet : Bool) :
    Filter.choose parse (some text) verbosity quiet =
      .upTo (some (Level.ofFlags verbosity quiet)) := by
  unfold Filter.choose
  rw [Option.map_some, h]

/-- A text that is not blank wins when it can be parsed. -/
theorem choose_of_trim_ne_nil {text : String} (h : Text.trim text.toList ≠ [])
    (parse : String → Option Filter) (verbosity : Nat) (quiet : Bool) :
    Filter.choose parse (some text) verbosity quiet =
      (parse (String.ofList (Text.trim text.toList))).getD
        (.upTo (some (Level.ofFlags verbosity quiet))) := by
  unfold Filter.choose
  rw [Option.map_some]
  cases htrim : Text.trim text.toList with
  | nil => exact absurd htrim h
  | cons c chars => rfl

theorem Level.IsNamed.ne_nil {text : List Char} (h : level.IsNamed text) : text ≠ [] := by
  rintro rfl
  cases level <;> exact absurd h (by decide)

/-- A text names one level. -/
theorem Level.IsNamed.unique {level other : Level} {text : List Char} (h : level.IsNamed text)
    (h' : other.IsNamed text) : level = other := by
  have hname : level.name.toList.map Char.toLower = other.name.toList.map Char.toLower :=
    h.symm.trans h'
  cases level <;> cases other <;> first | rfl | exact absurd hname (by decide)

/-- The filter of a run passes the events up to the threshold. -/
theorem choose_eq_upTo (hparse : ReadsLevels parse) {verbosity : Nat} {quiet : Bool}
    (h : Threshold parse (Level.ofFlags verbosity quiet) text? threshold) :
    Filter.choose parse text? verbosity quiet = .upTo threshold := by
  cases h with
  | unset => rfl
  | blank hblank => exact choose_of_trim_eq_nil hblank parse verbosity quiet
  | level hnamed =>
    rw [choose_of_trim_ne_nil hnamed.ne_nil, hparse.level _ _ (by rwa [String.toList_ofList])]
    rfl
  | off hoff =>
    rw [choose_of_trim_ne_nil (by rw [hoff]; decide), hoff, String.ofList_toList, hparse.off]
    rfl
  | @rejected text hrejected =>
    by_cases hblank : Text.trim text.toList = []
    · exact choose_of_trim_eq_nil hblank parse verbosity quiet
    · rw [choose_of_trim_ne_nil hblank, hrejected]
      rfl

/-- A threshold as a number, which is zero where nothing is recorded. -/
def rank (threshold : Option Level) : Nat :=
  threshold.elim 0 Level.detail

/-- An event passes when its detail is within the threshold. -/
theorem passes_upTo_iff (threshold : Option Level) (event : Event) :
    (Filter.upTo threshold).passes event ↔ event.level.detail ≤ rank threshold := by
  cases threshold <;> simp [Filter.upTo, rank, Level.detail]

/-- A quieter threshold lets a part of the events pass, in their order. -/
theorem filter_upTo_sublist {quieter louder : Option Level} (h : rank quieter ≤ rank louder)
    (events : List Event) :
    (events.filter (Filter.upTo quieter).passes).Sublist
      (events.filter (Filter.upTo louder).passes) := by
  apply List.monotone_filter_right
  intro event hpasses
  exact (passes_upTo_iff _ _).2 (Nat.le_trans ((passes_upTo_iff _ _).1 hpasses) h)

end Log

/-! ## 4. One sequence of events -/

namespace Program

variable {φ : Type}

theorem ended_apply (palette : Report.Palette) (result : Except Failure Unit) (s : Session φ)
    (filter : Option Log.Filter) (recorded : List Log.Event) :
    ended palette (result, { s with filter, events := recorded }) =
      ((ended palette (result, s)).1,
        { (ended palette (result, s)).2 with filter, events := recorded }) := by
  cases result <;> rfl

theorem files_ended (palette : Report.Palette) (result : Except Failure Unit) (s : Session φ) :
    (ended palette (result, s)).2.files = s.files := by
  cases result <;> rfl

variable [FileStore (StateM φ)] {palette : Report.Palette}
  {parse : String → Option Log.Filter} {arguments : List String} {command : Command}
  {invocation : Invocation} {files : φ} {output errors : Sink}

/-- The events of a command, or of arguments that are not read as one. Help, version and usage
errors come before the log begins. -/
def events (command? : Option Command) (files : φ) : List Log.Event :=
  match command? with
  | none | some .help | some .version => []
  | some (.regen paths settings) =>
    .running (.regen paths settings) :: fileEvents settings paths files
  | some command => [.running command]

def Finishes (files after : φ) (reports : List FileReport) : Option Command → Prop
  | some (.regen paths settings) => ∃ failure?,
    Processes settings paths reports failure? files after
  | _ => reports = []

/-- Under every filter a command has the same result and files, and its reports are the events at
the level of information. -/
theorem exists_logs_run (h : command.flag? = none) (palette : Report.Palette) (s : Session φ) :
    ∃ result s' reports,
      Logs (Program.run palette command) s result s' (events (some command) s.files) ∧
      Finishes s.files s'.files reports (some command) ∧
      Log.infos (events (some command) s.files) = reports.map Log.Event.regenerated := by
  cases command with
  | help | version => cases h
  | regen paths settings =>
    obtain ⟨reports, failure?, after, hprocesses, hinfos, hlogs⟩ :=
      exists_logs_run_regen paths settings s.files
    exact ⟨_, _, reports, hlogs palette s rfl, ⟨failure?, hprocesses⟩, hinfos⟩
  | types => exact ⟨_, _, [], logs_run_types palette s, rfl, rfl⟩
  | read | write | demo => exact ⟨_, s, [], logs_run_of_target rfl palette s, rfl, rfl⟩

/-! ## 5. Whole runs -/

def flagsIn (arguments : List String) : List Flag :=
  match groups arguments with
  | .ok gs => flagsOf gs
  | .error _ => []

theorem ofFlags_of_read (h : CommandLine.read arguments = .ok invocation) {level : Log.Level}
    (hlevel : Log.FlagLevel (flagsIn arguments) level) :
    Log.Level.ofFlags invocation.verbosity invocation.quiet = level := by
  unfold CommandLine.read at h
  unfold flagsIn at hlevel
  cases hgs : groups arguments with
  | error error =>
    rw [hgs] at h
    cases h
  | ok gs =>
    rw [hgs] at h hlevel
    change (commandOf gs >>= fun command => _) = _ at h
    cases hcommand : commandOf gs with
    | error error =>
      rw [hcommand] at h
      cases h
    | ok command =>
      rw [hcommand] at h
      cases h
      exact hlevel.ofFlags_eq

/-- In every setting of the log a run ends with the same code and leaves the same, but for the
events. Those are the ones of `recorded` that pass a filter, which is the one up to the threshold
where the setting has a threshold. -/
def Leaves (palette : Report.Palette) (parse : String → Option Log.Filter)
    (arguments : List String) (s : Session φ) (code : UInt32) (after : Session φ)
    (recorded : List Log.Event) : Prop :=
  ∀ logText arguments', Inserted arguments arguments' →
    ∃ filter,
      execute (m := SessionM φ) palette parse logText arguments' s =
        (code, { after with filter, events := Log.passing filter recorded }) ∧
      ∀ level threshold, Log.FlagLevel (flagsIn arguments') level →
        Log.Threshold parse level logText threshold →
        Log.passing filter recorded = recorded.filter (Log.Filter.upTo threshold).passes

/-- Before the log begins nothing is recorded, and one text is printed. -/
theorem leaves_print {stream : Stream} {chunks : List String} {code : UInt32}
    (h : ∀ logText arguments', Inserted arguments arguments' →
      execute (m := SessionM φ) palette parse logText arguments' { files, output, errors } =
        (code, (Session.print { files, output, errors } stream chunks).2)) :
    Leaves palette parse arguments { files, output, errors } code
      (Session.print { files, output, errors } stream chunks).2 [] := by
  intro logText arguments' hinserted
  refine ⟨none, ?_, fun _ _ _ _ => rfl⟩
  rw [h logText arguments' hinserted]
  cases stream <;> rfl

/-- A run leaves its result and, of its events, those that the threshold lets pass. -/
theorem leaves_of_logs (hparse : Log.ReadsLevels parse)
    (hread : CommandLine.read arguments = .ok invocation) (h : invocation.command.flag? = none)
    {result : Except Failure Unit} {s' : Session φ} {recorded : List Log.Event}
    (hlogs : Logs (Program.run palette invocation.command) { files, output, errors } result s'
      recorded) :
    Leaves palette parse arguments { files, output, errors } (ended palette (result, s')).1
      (ended palette (result, s')).2 recorded := by
  intro logText arguments' hinserted
  obtain ⟨⟨command, verbosity, quiet⟩, hread', hcommand⟩ := hinserted.exists_read_eq_ok hread
  have hrun := hlogs (some (.choose parse logText verbosity quiet)) []
  rw [← hcommand] at h hrun
  refine ⟨some (.choose parse logText verbosity quiet), ?_, ?_⟩
  · rw [← ended_apply, ← List.nil_append (Log.passing _ _), ← hrun, execute_apply, hread']
    cases command with
    | help | version => cases h
    | _ => rfl
  · intro level threshold hlevel hthreshold
    have hflags : Log.Level.ofFlags verbosity quiet = level := ofFlags_of_read hread' hlevel
    rw [← hflags] at hthreshold
    rw [Log.choose_eq_upTo hparse hthreshold]
    rfl

def flagText : Flag → List String
  | .help => [helpText, "\n"]
  | .version => [versionText, "\n"]
  | _ => []

theorem leaves_of_flag? {flag : Flag} (hread : CommandLine.read arguments = .ok invocation)
    (h : invocation.command.flag? = some flag) :
    Leaves palette parse arguments { files, output, errors } 0
      (Session.print ({ files, output, errors } : Session φ) .output (flagText flag)).2 [] := by
  apply leaves_print
  intro logText arguments' hinserted
  obtain ⟨⟨command, verbosity, quiet⟩, hread', hcommand⟩ := hinserted.exists_read_eq_ok hread
  rw [← hcommand] at h
  rw [execute_apply, hread']
  cases command with
  | help | version =>
    cases h
    rfl
  | _ => cases h

/-- Any arguments end with the code and the files of their command, and with those of its events
that the threshold lets pass. -/
theorem exists_leaves (palette : Report.Palette) (hparse : Log.ReadsLevels parse)
    (arguments : List String) (files : φ) (output errors : Sink) :
    ∃ code after reports,
      Leaves palette parse arguments { files, output, errors } code after
        (events (command? arguments) files) ∧
      Finishes files after.files reports (command? arguments) ∧
      Log.infos (events (command? arguments) files) = reports.map Log.Event.regenerated := by
  rw [command?]
  cases hread : CommandLine.read arguments with
  | error error =>
    -- a usage error is printed before the log begins
    have hexecute (logText : Option String) (arguments' : List String)
        (hinserted : Inserted arguments arguments') :
        execute (m := SessionM φ) palette parse logText arguments' { files, output, errors } =
          (1, (Session.print { files, output, errors } .errors
            ["error: " ++ error.message ++ "\n", "For more information, try '--help'\n"]).2) := by
      rw [execute_apply, hinserted.read_eq_error hread]
    exact ⟨1, _, [], leaves_print hexecute, rfl, rfl⟩
  | ok invocation =>
    cases hflag : invocation.command.flag? with
    | some flag =>
      have hleaves : Leaves palette parse arguments { files, output, errors } _ _ _ :=
        leaves_of_flag? hread hflag
      obtain ⟨command, verbosity, quiet⟩ := invocation
      cases command with
      | help | version => exact ⟨0, _, [], hleaves, rfl, rfl⟩
      | _ => cases hflag
    | none =>
      obtain ⟨result, s', reports, hlogs, hfinishes, hinfos⟩ :=
        exists_logs_run hflag palette ({ files, output, errors } : Session φ)
      rw [← files_ended palette result s'] at hfinishes
      exact ⟨_, _, reports, leaves_of_logs hparse hread hflag hlogs, hfinishes, hinfos⟩

/-- Flags and settings of the log change nothing but the log. What it records are the events of one
sequence up to the threshold of the setting, for which all flags choose a level, so that a quieter
setting records a part of what a louder one records. The events on the level of information are the
reports on the files that are done. -/
theorem execute_inserted (palette : Report.Palette) (hparse : Log.ReadsLevels parse)
    (arguments : List String) (files : φ) (output errors : Sink) :
    (∀ arguments', ∃ level, Log.FlagLevel (flagsIn arguments') level) ∧
    ∃ code after reports,
      Leaves palette parse arguments { files, output, errors } code after
        (events (command? arguments) files) ∧
      Finishes files after.files reports (command? arguments) ∧
      Log.infos (events (command? arguments) files) = reports.map Log.Event.regenerated ∧
      ∀ quieter louder : Option Log.Level, Log.rank quieter ≤ Log.rank louder →
        ((events (command? arguments) files).filter (Log.Filter.upTo quieter).passes).Sublist
          ((events (command? arguments) files).filter (Log.Filter.upTo louder).passes) := by
  obtain ⟨code, after, reports, hleaves, hfinishes, hinfos⟩ :=
    exists_leaves palette hparse arguments files output errors
  exact ⟨fun arguments' => Log.exists_flagLevel _, code, after, reports, hleaves, hfinishes, hinfos,
    fun quieter louder hrank => Log.filter_upTo_sublist hrank _⟩

/-- A parser that reads the names of the levels and `off` and rejects every other text. -/
def parseLevel (text : String) : Option Log.Filter :=
  if text = "off" then some (.upTo none)
  else (Log.Level.all.find? fun level => level.IsNamed text.toList).map fun level =>
    .upTo (some level)

theorem readsLevels_parseLevel : Log.ReadsLevels parseLevel where
  level level text h := by
    have hoff : text ≠ "off" := by
      rintro rfl
      cases level <;> exact absurd h (by decide)
    have hnamed : (fun other : Log.Level => decide (other.IsNamed text.toList)) =
        fun other => decide (other = level) :=
      funext fun other => decide_eq_decide.2 ⟨fun h' => h'.unique h, fun heq => heq ▸ h⟩
    unfold parseLevel
    rw [if_neg hoff, hnamed]
    cases level <;> rfl
  off := rfl

theorem execute_inserted_oneFile :
    Log.ReadsLevels parseLevel ∧
    Inserted ["regen", "/a.cpp"] ["-vq", "regen", "--verbose", "/a.cpp"] ∧
    Inserted ["regen", "/a.cpp"] ["regen", "-v", "/a.cpp"] ∧
    ∃ (code : UInt32) (after : Session Disk),
      (∃ filter, execute (m := SessionM Disk) .indexed parseLevel none
          ["-vq", "regen", "--verbose", "/a.cpp"] { files := oneFile } =
        (code, { after with filter, events := [] })) ∧
      (∃ filter, execute (m := SessionM Disk) .indexed parseLevel (some "a=b=c")
          ["regen", "-v", "/a.cpp"] { files := oneFile } =
        (code, { after with filter, events := [.regenerated ⟨"/a.cpp", .updated, 1, 3⟩] })) ∧
      ∃ filter, execute (m := SessionM Disk) .indexed parseLevel (some " Debug ")
          ["regen", "-v", "/a.cpp"] { files := oneFile } =
        (code, { after with
          filter
          events := [.running (.regen ["/a.cpp"] {}), .scanned "/a.cpp" 1 1,
            .regenerated ⟨"/a.cpp", .updated, 1, 3⟩] }) := by
  have hone : Inserted ["regen", "/a.cpp"] ["regen", "-v", "/a.cpp"] :=
    @Inserted.insert _ ["regen"] ["/a.cpp"] "-v" .refl (.inl (by decide)) fun ⟨_, h⟩ => nomatch h
  have hlong : Inserted ["regen", "/a.cpp"] ["regen", "--verbose", "/a.cpp"] :=
    @Inserted.insert _ ["regen"] ["/a.cpp"] "--verbose" .refl (.inl (by decide))
      fun ⟨_, h⟩ => nomatch h
  have hboth : Inserted ["regen", "/a.cpp"] ["-vq", "regen", "--verbose", "/a.cpp"] :=
    @Inserted.insert _ [] _ "-vq" hlong (.inr ⟨['v', 'q'], by decide, by simp, rfl⟩)
      fun ⟨_, h⟩ => nomatch h
  have hevents : events (command? ["regen", "/a.cpp"]) oneFile =
      [.running (.regen ["/a.cpp"] {}), .scanned "/a.cpp" 1 1,
        .regenerated ⟨"/a.cpp", .updated, 1, 3⟩] := by decide +kernel
  obtain ⟨-, code, after, reports, hleaves, -⟩ :=
    execute_inserted .indexed readsLevels_parseLevel ["regen", "/a.cpp"] oneFile {} {}
  rw [hevents] at hleaves
  refine ⟨readsLevels_parseLevel, hboth, hone, code, after, ?_, ?_, ?_⟩
  · -- silence wins over every flag for more log
    obtain ⟨filter, hrun, hpassing⟩ := hleaves none _ hboth
    rw [hpassing .error (some .error) (.error (by decide)) .unset] at hrun
    exact ⟨filter, hrun⟩
  · -- a text that is no filter leaves the choice to the flag
    obtain ⟨filter, hrun, hpassing⟩ := hleaves (some "a=b=c") _ hone
    rw [hpassing .info (some .info) (.info (by decide) (by decide)) (.rejected (by decide))] at hrun
    exact ⟨filter, hrun⟩
  · -- the name of a level wins over the flag
    obtain ⟨filter, hrun, hpassing⟩ := hleaves (some " Debug ") _ hone
    rw [hpassing .info (some .debug) (.info (by decide) (by decide)) (.level (by decide))] at hrun
    exact ⟨filter, hrun⟩

end Program

end MemoryKit
