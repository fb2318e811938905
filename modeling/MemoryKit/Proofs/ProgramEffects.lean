import MemoryKit.Proofs.Ascii
import MemoryKit.Proofs.ProgramRuns

/-!
# Effects of the program

What a whole run does to the files, what it prints and how it ends. Files, lines and exit code say
the same about which files were regenerated, because all three follow one chain of steps.
-/

namespace MemoryKit

open CommandLine

variable {φ : Type} [FileStore (StateM φ)] {palette : Report.Palette}

/-! ## 1. One chain of steps -/

section

open LawfulStore

variable [LawfulStore φ] {settings : Settings} {paths : List String} {reports : List FileReport}
  {failure? : Option FileFailure} {before after : φ}

/-- The files that are done follow one another in the tree, and a failure leaves it as it is. -/
theorem Processes.regeneratesAll (h : Processes settings paths reports failure? before after) :
    FileTree.RegeneratesAll settings (paths.take reports.length) reports (tree before)
      (tree after) := by
  induction h with
  | nil files => exact .nil _
  | @fails path paths failure before after hrun =>
    obtain ⟨cause, s', -, htree, herror⟩ | ⟨report, s', hok, -⟩ :=
      regenerateFile_cases settings path ({ files := before } : Session φ)
    · rw [hrun] at herror
      cases herror
      have hsame : tree after = tree before := htree
      rw [hsame]
      exact .nil _
    · rw [hrun] at hok
      cases hok
  | step hrun _ ih => exact .cons (regenerates_of_eq_ok hrun) ih

/-- Only files that are done are new. -/
theorem Processes.exists_path (h : Processes settings paths reports failure? before after)
    {location : Location}
    (hnew : (tree after).node? location ≠ (tree before).node? location) :
    ∃ path ∈ paths.take reports.length, (tree before).location? path = some location := by
  by_contra hnone
  apply hnew
  apply h.regeneratesAll.node?_eq
  intro path hmem hlocation
  exact hnone ⟨path, hmem, hlocation⟩

end

/-! ## 2. Printed lines -/

def okLine (palette : Report.Palette) (report : FileReport) : String :=
  palette.start .green ++ "[ OK ]" ++ palette.reset ++ " " ++ report.path ++
    (match report.outcome with
      | .updated => " updated ("
      | .unchanged => " unchanged (") ++
    Number.decimalText report.names ++ " names, " ++ Number.decimalText report.packedLength ++
    " bytes)\n"

def failedLine (palette : Report.Palette) (message : String) : String :=
  palette.start .red ++ "error:" ++ palette.reset ++ " " ++ message ++ "\n"

theorem join_fileLine (palette : Report.Palette) (report : FileReport) :
    String.join (Report.fileLine palette report) = okLine palette report := by
  unfold Report.fileLine Report.statusLine okLine Report.outcomeWord
  apply String.toList_inj.1
  cases report.outcome <;> simp

theorem join_errorLine (palette : Report.Palette) (message : String) :
    String.join (Report.errorLine palette message) = failedLine palette message := by
  unfold Report.errorLine failedLine
  apply String.toList_inj.1
  simp

structure Sink.IsOpen (sink : Sink) : Prop where
  limit_eq : sink.limit = none
  flushFails_eq : sink.flushFails = false

theorem Sink.print_of_isOpen {sink : Sink} (h : sink.IsOpen) (chunks : List String) :
    sink.print chunks =
      ({ sink with
          written := sink.written ++ chunks.flatMap utf8, flushes := sink.flushes + 1 },
        .ok ()) := by
  obtain ⟨limit, flushFails, written, flushes⟩ := sink
  obtain ⟨rfl, rfl⟩ : limit = none ∧ flushFails = false := ⟨h.limit_eq, h.flushFails_eq⟩
  induction chunks generalizing written with
  | nil =>
    rw [List.flatMap_nil, List.append_nil]
    rfl
  | cons chunk chunks ih =>
    rw [List.flatMap_cons, ← List.append_assoc]
    exact ih (written ++ utf8 chunk) ⟨rfl, rfl⟩

/-- An open sink gets the line of each report. -/
theorem foldl_printLine (palette : Report.Palette) {sink : Sink} (h : sink.IsOpen)
    (reports : List FileReport) :
    reports.foldl (printLine palette) (.ok (), sink) =
      (.ok (), { sink with
          written := sink.written ++ utf8 (String.join (reports.map (okLine palette)))
          flushes := sink.flushes + reports.length }) := by
  induction reports generalizing sink with
  | nil => simp [utf8]
  | cons report reports ih =>
    have hline := Sink.print_of_isOpen h (Report.fileLine palette report)
    rw [← utf8_join, join_fileLine] at hline
    have hstep : printLine palette (.ok (), sink) report = (.ok (), { sink with
        written := sink.written ++ utf8 (okLine palette report), flushes := sink.flushes + 1 }) := by
      rw [printLine, hline]
      rfl
    have hopen : Sink.IsOpen { sink with
        written := sink.written ++ utf8 (okLine palette report), flushes := sink.flushes + 1 } :=
      ⟨h.limit_eq, h.flushFails_eq⟩
    rw [List.foldl_cons, hstep, ih hopen]
    simp [utf8_append, Nat.add_assoc, Nat.add_comm 1]

/-! ## 3. Effects -/

namespace Program

def command? (arguments : List String) : Option Command :=
  (CommandLine.read arguments).toOption.map Invocation.command

/-- The command can succeed where the system has no access to other processes, and so do all files
that it regenerates. -/
def Succeeds (files : φ) : Command → Prop
  | .help | .version | .types => True
  | .regen paths settings => ∃ reports after, Processes settings paths reports none files after
  | .read .. | .write .. | .demo .. => False

section

open LawfulStore

variable [LawfulStore φ]

/-- What a run with a command, or with arguments that are not read as one, does to the files and
prints, and the exit code that it ends with. -/
structure Effect (palette : Report.Palette) (command? : Option Command) (files : φ) (code : UInt32)
    (after : Session φ) : Prop where
  code_eq : code = 0 ∨ code = 1
  code_eq_zero_iff : code = 0 ↔ ∃ command ∈ command?, Succeeds files command
  /-- Files change only by a regeneration. -/
  files_eq : (∀ paths settings, command? ≠ some (.regen paths settings)) → after.files = files
  /-- A regeneration prints a line for each file that is done and then the failure that ends it, if
  there is one, and changes no other files than those that are done. -/
  regen : ∀ paths settings, command? = some (.regen paths settings) →
    ∃ reports failure?, Processes settings paths reports failure? files after.files ∧
      FileTree.RegeneratesAll settings (paths.take reports.length) reports (tree files)
        (tree after.files) ∧
      (∀ location, (tree after.files).node? location ≠ (tree files).node? location →
        ∃ path ∈ paths.take reports.length, (tree files).location? path = some location) ∧
      after.output.written = utf8 (String.join (reports.map (okLine palette))) ∧
      after.errors.written =
        failure?.elim [] (fun failure => utf8 (failedLine palette failure.message)) ∧
      (code = 0 ↔ failure? = none)
  /-- Arguments that are not read, and commands that reach into another process, print nothing on
  the output. -/
  output_eq : (∀ command ∈ command?, command.target?.isSome) → after.output.written = []

variable {arguments : List String} {files : φ} {command : Command} {code : UInt32}
  {after : Session φ}

/-- Refused arguments that leave the files and the output alone have their effect. -/
theorem Effect.of_none (hfiles : after.files = files) (houtput : after.output.written = []) :
    Effect palette none files 1 after where
  code_eq := .inr rfl
  code_eq_zero_iff := by simp
  files_eq _ := hfiles
  regen := nofun
  output_eq _ := houtput

/-- A command on a process that leaves the files and the output alone has its effect. -/
theorem Effect.of_target {target : Target} (htarget : command.target? = some target)
    (hfiles : after.files = files) (houtput : after.output.written = []) :
    Effect palette (some command) files 1 after where
  code_eq := .inr rfl
  code_eq_zero_iff := by cases command <;> simp [Succeeds, Command.target?] at htarget ⊢
  files_eq _ := hfiles
  regen := by
    rintro paths settings hregen
    obtain rfl := Option.some.inj hregen
    cases htarget
  output_eq _ := houtput

theorem Effect.of_info (hinfo : command = .help ∨ command = .version ∨ command = .types)
    (hfiles : after.files = files) : Effect palette (some command) files 0 after where
  code_eq := .inl rfl
  code_eq_zero_iff := by rcases hinfo with rfl | rfl | rfl <;> simp [Succeeds]
  files_eq _ := hfiles
  regen := by
    rintro paths settings hregen
    obtain rfl := Option.some.inj hregen
    rcases hinfo with h | h | h <;> cases h
  output_eq h := by
    have htarget := h command rfl
    rcases hinfo with rfl | rfl | rfl <;> cases htarget

/-- The effect of `regen` from its reports and the first failure. -/
theorem Effect.of_regen {paths : List String} {settings : Settings} {reports : List FileReport}
    {failure? : Option FileFailure}
    (h : Processes settings paths reports failure? files after.files)
    (hcode : code = if failure?.isSome then 1 else 0)
    (houtput : after.output.written = utf8 (String.join (reports.map (okLine palette))))
    (herrors : after.errors.written =
      failure?.elim [] fun failure => utf8 (failedLine palette failure.message)) :
    Effect palette (some (.regen paths settings)) files code after where
  code_eq := by
    cases failure? with
    | none => exact .inl hcode
    | some failure => exact .inr hcode
  code_eq_zero_iff := by
    have hsucceeds : Succeeds files (.regen paths settings) ↔ failure? = none := by
      constructor
      · rintro ⟨reports', after', h'⟩
        exact (h'.unique h).2.1
      · rintro rfl
        exact ⟨reports, after.files, h⟩
    cases failure? with
    | none => simpa [hcode] using hsucceeds
    | some failure => simpa [hcode] using hsucceeds
  files_eq hregen := absurd rfl (hregen paths settings)
  regen := by
    rintro _ _ ⟨rfl, rfl⟩
    refine ⟨reports, failure?, h, h.regeneratesAll, fun _ hnew => h.exists_path hnew, houtput,
      herrors, ?_⟩
    cases failure? <;> simp [hcode]
  output_eq h := nomatch h _ rfl

end

/-- The files of a regeneration are the words behind the command's, or one file by default. -/
theorem files_eq_of_command?_eq {arguments files : List String} {settings : Settings}
    (h : command? arguments = some (.regen files settings)) :
    ∃ gs operands, groups arguments = .ok gs ∧ wordsOf gs = "regen" :: operands ∧
      files = if operands.isEmpty then [defaultFile] else operands := by
  unfold command? at h
  cases hread : CommandLine.read arguments with
  | error error =>
    rw [hread] at h
    cases h
  | ok invocation =>
    rw [hread] at h
    have hcommand : invocation.command = .regen files settings := Option.some.inj h
    obtain ⟨gs, hgs, hcommandOf⟩ := commandOf_eq_ok_of_read hread
    rw [hcommand, commandOf] at hcommandOf
    split at hcommandOf
    · cases hcommandOf
    split at hcommandOf
    · cases hcommandOf
    obtain ⟨name, operands, hwords, hname, htakes, -⟩ := commandOfWords_eq_ok_iff.1 hcommandOf
    cases hname
    exact ⟨gs, operands, hgs, hwords, htakes⟩

variable [LawfulStore φ]

theorem effect_run_regen (palette : Report.Palette) (filter : Option Log.Filter)
    (paths : List String) (settings : Settings) (files : φ) :
    ∃ code after,
      ended palette
        (Program.run (m := SessionM φ) palette (.regen paths settings) { files, filter }) =
          (code, after) ∧
      Effect palette (some (.regen paths settings)) files code after := by
  obtain ⟨reports, failure?, after, hprocesses, -, hlogs⟩ :=
    exists_logs_run_regen paths settings files
  have hopen : Sink.IsOpen {} := ⟨rfl, rfl⟩
  have hrun := hlogs palette { files } rfl filter []
  rw [foldl_printLine palette hopen] at hrun
  rw [hrun]
  refine ⟨_, _, rfl, ?_⟩
  cases failure? with
  | none => exact .of_regen hprocesses rfl rfl rfl
  | some failure =>
    have herrors := Sink.print_of_isOpen hopen (Report.errorLine palette failure.message)
    rw [← utf8_join, join_errorLine] at herrors
    exact .of_regen hprocesses rfl rfl (congrArg (·.1.written) herrors)

theorem effect_run_types (palette : Report.Palette) (filter : Option Log.Filter) (files : φ) :
    ∃ code after,
      ended palette (Program.run (m := SessionM φ) palette .types { files, filter }) =
        (code, after) ∧
      Effect palette (some .types) files code after := by
  have hopen : Sink.IsOpen {} := ⟨rfl, rfl⟩
  have hprint : (Session.print ({ files } : Session φ) .output (Report.typesTable palette)).1 =
      .ok () := congrArg Prod.snd (Sink.print_of_isOpen hopen (Report.typesTable palette))
  have hrun := logs_run_types palette ({ files } : Session φ) filter []
  rw [hrun, hprint]
  exact ⟨_, _, rfl, .of_info (.inr (.inr rfl)) rfl⟩

theorem effect_run_of_target {command : Command} {target : Target}
    (h : command.target? = some target) (palette : Report.Palette) (filter : Option Log.Filter)
    (files : φ) :
    ∃ code after,
      ended palette (Program.run (m := SessionM φ) palette command { files, filter }) =
        (code, after) ∧
      Effect palette (some command) files code after := by
  have hrun := logs_run_of_target h palette ({ files } : Session φ) filter []
  rw [hrun]
  exact ⟨_, _, rfl, .of_target h rfl rfl⟩

/-- Exit code, files and what is printed tell the same story, for all arguments and all files, with
every setting of the log. -/
theorem effect_execute (palette : Report.Palette) (parse : String → Option Log.Filter)
    (logText : Option String) (arguments : List String) (files : φ) :
    (∃ code after,
      execute (m := SessionM φ) palette parse logText arguments { files } = (code, after) ∧
        Effect palette (command? arguments) files code after) ∧
      ∀ paths settings, command? arguments = some (.regen paths settings) →
        ∃ gs operands, groups arguments = .ok gs ∧ wordsOf gs = "regen" :: operands ∧
          paths = if operands.isEmpty then [defaultFile] else operands := by
  refine ⟨?_, fun _ _ => files_eq_of_command?_eq⟩
  rw [execute_apply, command?]
  cases CommandLine.read arguments with
  | error error => exact ⟨_, _, rfl, .of_none rfl rfl⟩
  | ok invocation =>
    obtain ⟨command, verbosity, quiet⟩ := invocation
    change ∃ code after, _ ∧ Effect palette (some command) files code after
    cases command with
    | help => exact ⟨_, _, rfl, .of_info (.inl rfl) rfl⟩
    | version => exact ⟨_, _, rfl, .of_info (.inr (.inl rfl)) rfl⟩
    | types => exact effect_run_types palette _ files
    | regen paths settings => exact effect_run_regen palette _ paths settings files
    | read | write | demo => exact effect_run_of_target rfl palette _ files

/-- A file in the root whose region is empty. Relative paths begin in `/home`. -/
def oneFile : Disk where
  tree := .ofList ["home"] [
    (["home"], .directory),
    (["a.cpp"], .file ⟨utf8 ("instructionDescription[] = \x7b \"LD\" \x7d;\n" ++
      "// $\x7bINSTRUCTION_DATA_BEGIN\x7d\n// $\x7bINSTRUCTION_DATA_END\x7d\n"), 0o644⟩)]

theorem effect_execute_oneFile : ∃ after,
    execute (m := SessionM Disk) .indexed (fun _ => none) none ["regen", "/a.cpp", "../b.cpp", "/c"]
      { files := oneFile } = (1, after) ∧
    Effect .indexed (command? ["regen", "/a.cpp", "../b.cpp", "/c"]) oneFile 1 after ∧
    after.output.written =
      utf8 "\x1b[38;5;10m[ OK ]\x1b[0m /a.cpp updated (1 names, 3 bytes)\n" ∧
    after.errors.written =
      utf8 "\x1b[38;5;9merror:\x1b[0m ../b.cpp: No such file or directory (os error 2)\n" := by
  obtain ⟨⟨code, after, hrun, heffect⟩, -⟩ := effect_execute .indexed (fun _ => none) none
    ["regen", "/a.cpp", "../b.cpp", "/c"] oneFile
  have hends : (execute (m := SessionM Disk) .indexed (fun _ => none) none
      ["regen", "/a.cpp", "../b.cpp", "/c"] { files := oneFile }).1 = 1 ∧
      (execute (m := SessionM Disk) .indexed (fun _ => none) none
        ["regen", "/a.cpp", "../b.cpp", "/c"] { files := oneFile }).2.output.written =
        utf8 "\x1b[38;5;10m[ OK ]\x1b[0m /a.cpp updated (1 names, 3 bytes)\n" ∧
      (execute (m := SessionM Disk) .indexed (fun _ => none) none
        ["regen", "/a.cpp", "../b.cpp", "/c"] { files := oneFile }).2.errors.written =
        utf8 "\x1b[38;5;9merror:\x1b[0m ../b.cpp: No such file or directory (os error 2)\n" := by
    decide +kernel
  rw [hrun] at hends
  obtain ⟨rfl, hprinted⟩ := hends
  exact ⟨after, hrun, heffect, hprinted⟩

end Program

end MemoryKit
