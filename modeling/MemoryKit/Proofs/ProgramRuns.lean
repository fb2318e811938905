import MemoryKit.Program
import MemoryKit.Proofs.FileRuns
import MemoryKit.Proofs.GivenOptions

/-!
# Runs of the program

What the commands of the program do to a session. The log only adds events: the result of a command
and everything else in the session are the same with every filter, and the recorded events are those
of one sequence that the filter lets pass. The events on the level of information are the reports on
the files that are done.
-/

namespace MemoryKit

open CommandLine

variable {φ α β : Type}

/-! ## 1. Logged computations -/

namespace Log

def passing (filter : Option Filter) (events : List Event) : List Event :=
  events.filter fun event => filter.any (·.passes event)

theorem passing_append (filter : Option Filter) (events events' : List Event) :
    passing filter (events ++ events') = passing filter events ++ passing filter events' :=
  List.filter_append _ _

theorem passing_none (events : List Event) : passing none events = [] :=
  List.filter_false events

theorem passing_trace (events : List Event) :
    passing (some (.upTo (some .trace))) events = events := by
  apply List.filter_eq_self.2
  intro event _
  cases event <;> rfl

def infos (events : List Event) : List Event :=
  events.filter fun event => event.level = .info

theorem infos_append (events events' : List Event) :
    infos (events ++ events') = infos events ++ infos events' :=
  List.filter_append _ _

end Log

/-- In a session a computation gives `a` and leaves `s'`, whatever the filter of the log is and
whatever has been recorded before. It records those of the events that pass. -/
def Logs (x : SessionM φ α) (s : Session φ) (a : α) (s' : Session φ)
    (events : List Log.Event) : Prop :=
  ∀ filter recorded, x { s with filter, events := recorded } =
    (a, { s' with filter, events := recorded ++ Log.passing filter events })

namespace Logs

variable {s s' s'' : Session φ} {a : α} {b : β} {events events' : List Log.Event}

/-- A computation that neither sees nor records events. -/
theorem of_forall {x : SessionM φ α}
    (h : ∀ filter recorded, x { s with filter, events := recorded } =
      (a, { s' with filter, events := recorded })) :
    Logs x s a s' [] := by
  intro filter recorded
  have hnone : Log.passing filter [] = [] := rfl
  rw [hnone, List.append_nil]
  exact h filter recorded

theorem pure (a : α) (s : Session φ) : Logs (Pure.pure a) s a s [] :=
  of_forall fun _ _ => rfl

/-- Steps one after the other log their events one after the other. -/
theorem bind {x : SessionM φ α} {f : α → SessionM φ β} (hx : Logs x s a s' events)
    (hf : Logs (f a) s' b s'' events') : Logs (x >>= f) s b s'' (events ++ events') := by
  intro filter recorded
  rw [bind_apply, hx, hf, Log.passing_append, List.append_assoc]

theorem bind_pure {x : SessionM φ α} {f : α → SessionM φ β} (hx : Logs x s a s' events)
    (hf : f a = Pure.pure b) : Logs (x >>= f) s b s' events := by
  intro filter recorded
  rw [bind_apply, hx, hf]
  rfl

theorem record (event : Log.Event) (s : Session φ) :
    Logs (Logger.record event) s () s [event] := by
  intro filter recorded
  change ((), Session.record _ event) = _
  unfold Session.record Log.passing
  rw [List.filter_singleton]
  by_cases hpasses : filter.any (·.passes event) <;> simp [hpasses]

theorem print (stream : Stream) (chunks : List String) (s : Session φ) :
    Logs (Console.print stream chunks) s (s.print stream chunks).1 (s.print stream chunks).2 [] :=
  of_forall fun _ _ => by cases stream <;> rfl

/-- A call on the files logs nothing. -/
theorem callOnFiles {x : ExceptT FileError (StateM φ) α} {result : Except FileError α}
    {files : φ} (h : x.run s.files = (result, files)) :
    Logs (Session.callOnFiles x).run s result { s with files } [] :=
  of_forall fun _ _ => Session.run_callOnFiles_of_eq h

/-- Without a filter nothing is recorded. -/
theorem apply_of_filter_eq_none {files : φ} {x : SessionM φ α} (h : Logs x { files } a s' events) :
    x { files } = (a, { s' with filter := none, events := [] }) := by
  have hrun := h none []
  rwa [Log.passing_none] at hrun

end Logs

/-! ## 2. Files -/

def scanEvents (settings : Settings) (path : String) (source : Bytes) : List Log.Event :=
  match nameCounts? settings source with
  | none => []
  | some (found, unique) => [.scanned path found unique]

theorem infos_scanEvents (settings : Settings) (path : String) (source : Bytes) :
    Log.infos (scanEvents settings path source) = [] := by
  unfold scanEvents
  cases nameCounts? settings source <;> rfl

/-- The names of a table are logged with what the scan has found. -/
theorem logs_logNames (settings : Settings) (path : String) (source : Bytes) (s : Session φ) :
    Logs (logNames settings path source) s () s (scanEvents settings path source) := by
  unfold logNames scanEvents
  cases nameCounts? settings source with
  | none => exact .pure () s
  | some counts => exact .record _ s

def printLine (palette : Report.Palette) (printed : Except SinkError Unit × Sink)
    (report : FileReport) : Except SinkError Unit × Sink :=
  match printed with
  | (.ok (), sink) => (sink.print (Report.fileLine palette report)).swap
  | (.error error, sink) => (.error error, sink)

theorem logs_reportFile (palette : Report.Palette) (printed : Except SinkError Unit)
    (report : FileReport) (s : Session φ) :
    Logs (Program.reportFile palette printed report) s
      (printLine palette (printed, s.output) report).1
      { s with output := (printLine palette (printed, s.output) report).2 } [] := by
  cases printed with
  | ok => exact .print .output (Report.fileLine palette report) s
  | error error => exact .pure (Except.error error) s

variable [FileStore (StateM φ)] {settings : Settings} {path : String} {paths : List String}

/-- Files are regenerated in order up to the first failure: all of them, or those before the one
that fails. -/
inductive Processes (settings : Settings) :
    List String → List FileReport → Option FileFailure → φ → φ → Prop
  | nil (files : φ) : Processes settings [] [] none files files
  | fails {path : String} {paths : List String} {failure : FileFailure} {before after : φ} :
      regenerateFile (m := SessionM φ) settings path { files := before } =
        (.error failure, { files := after }) →
      Processes settings (path :: paths) [] (some failure) before after
  | step {path : String} {paths : List String} {report : FileReport} {reports : List FileReport}
      {failure? : Option FileFailure} {before middle after : φ} :
      regenerateFile (m := SessionM φ) settings path { files := before } =
        (.ok report, { files := middle }) →
      Processes settings paths reports failure? middle after →
      Processes settings (path :: paths) (report :: reports) failure? before after

/-- What is done in order is determined by the files. -/
theorem Processes.unique {reports reports' : List FileReport}
    {failure? failure?' : Option FileFailure} {before after after' : φ}
    (h : Processes settings paths reports failure? before after)
    (h' : Processes settings paths reports' failure?' before after') :
    reports' = reports ∧ failure?' = failure? ∧ after' = after := by
  -- both chains run the same step first
  induction h generalizing reports' with
  | nil =>
    cases h'
    exact ⟨rfl, rfl, rfl⟩
  | fails hrun =>
    cases h' with
    | fails hrun' =>
      rw [hrun] at hrun'
      cases hrun'
      exact ⟨rfl, rfl, rfl⟩
    | step hrun' =>
      rw [hrun] at hrun'
      cases hrun'
  | step hrun _ ih =>
    cases h' with
    | fails hrun' =>
      rw [hrun] at hrun'
      cases hrun'
    | step hrun' hrest' =>
      rw [hrun] at hrun'
      cases hrun'
      obtain ⟨rfl, rfl, rfl⟩ := ih hrest'
      exact ⟨rfl, rfl, rfl⟩

/-- Whether a file is replaced or left, the update logs what was done. -/
theorem logs_updateFile {source output : Bytes} {files after : φ}
    {result : Except FileError Unit}
    (h : (updateFile (m := StateM φ) path source output).run files = (result, after))
    {s : Session φ} (hs : s.files = files) :
    Logs (updateFile path source output).run s result { s with files := after } [] := by
  subst hs
  unfold updateFile at h ⊢
  by_cases hsame : output = source
  · rw [if_pos hsame] at h ⊢
    cases h
    exact .pure _ s
  · rw [if_neg hsame] at h ⊢
    rw [Session.replaceFile_eq]
    exact .callOnFiles h

/-- Regenerating a file sees and changes nothing but files, and records its report at the end. -/
theorem exists_logs_regenerateFile (settings : Settings) (path : String) (files : φ) :
    ∃ result after events,
      Log.infos events = result.toOption.toList.map Log.Event.regenerated ∧
      ∀ s : Session φ, s.files = files →
        Logs (regenerateFile settings path) s result { s with files := after } events := by
  rcases hread : (FileStore.read (m := StateM φ) path).run files with ⟨error | source, files₁⟩
  · refine ⟨.error ⟨path, .unreadable error⟩, files₁, [], rfl, ?_⟩
    rintro s rfl
    exact (Logs.callOnFiles hread).bind_pure rfl
  have hscan := infos_scanEvents settings path source
  have hnames (s : Session φ) := logs_logNames settings path source s
  cases hr : regenerate settings source with
  | error error =>
    refine ⟨.error ⟨path, .source error⟩, files₁, [] ++ scanEvents settings path source, hscan, ?_⟩
    rintro s rfl
    refine (Logs.callOnFiles hread).bind ((hnames _).bind_pure ?_)
    simp only [hr]
  | ok r =>
    -- the source can be regenerated, and the write is what may still fail
    rcases hupdate : (updateFile (m := StateM φ) path source r.output).run files₁ with
      ⟨error | _, files₂⟩
    · refine ⟨.error ⟨path, .unwritable error⟩, files₂,
        [] ++ (scanEvents settings path source ++ []), ?_, ?_⟩
      · rw [List.nil_append, List.append_nil, hscan]
        rfl
      · rintro s rfl
        refine (Logs.callOnFiles hread).bind ((hnames _).bind ?_)
        simp only [hr]
        exact (logs_updateFile hupdate rfl).bind_pure rfl
    · refine ⟨.ok (r.report path source), files₂, [] ++ (scanEvents settings path source ++
        ([] ++ [.regenerated (r.report path source)])), ?_, ?_⟩
      · rw [List.nil_append, List.nil_append, Log.infos_append, hscan]
        rfl
      · rintro s rfl
        refine (Logs.callOnFiles hread).bind ((hnames _).bind ?_)
        simp only [hr]
        exact (logs_updateFile hupdate rfl).bind ((Logs.record _ _).bind_pure rfl)

/-- Regenerating files in order sees and changes nothing but files and what the reports do, and
records the reports on the files that are done, among other events. -/
theorem exists_logs_regenerateAll (settings : Settings) (paths : List String) (files : φ) :
    ∃ reports failure? after events,
      Processes settings paths reports failure? files after ∧
      Log.infos events = reports.map Log.Event.regenerated ∧
      ∀ {τ : Type} (onReport : τ → FileReport → SessionM φ τ)
        (observe : τ × Sink → FileReport → τ × Sink),
        (∀ t report s, Logs (onReport t report) s (observe (t, s.output) report).1
          { s with output := (observe (t, s.output) report).2 } []) →
        ∀ t s, s.files = files →
          Logs (regenerateAll settings onReport t paths) s
            ((reports.foldl observe (t, s.output)).1,
              match failure? with
              | none => .ok reports
              | some failure => .error failure)
            { s with files := after, output := (reports.foldl observe (t, s.output)).2 }
            events := by
  -- each file is done in the state that the one before has left
  induction paths generalizing files with
  | nil =>
    refine ⟨[], none, files, [], .nil files, rfl, ?_⟩
    rintro τ onReport observe - t s rfl
    exact .pure _ s
  | cons path paths ih =>
    obtain ⟨result, middle, events, hinfos, hfile⟩ := exists_logs_regenerateFile settings path files
    have hrun := (hfile { files } rfl).apply_of_filter_eq_none
    cases result with
    | error failure =>
      refine ⟨[], some failure, middle, events, .fails hrun, hinfos, ?_⟩
      rintro τ onReport observe - t s rfl
      exact (hfile s rfl).bind_pure rfl
    | ok report =>
      obtain ⟨reports, failure?, after, events', hprocesses, hinfos', hrest⟩ := ih middle
      -- a report is printed and logs nothing
      refine ⟨report :: reports, failure?, after, events ++ ([] ++ events'),
        .step hrun hprocesses, ?_, ?_⟩
      · rw [List.nil_append, Log.infos_append, hinfos, hinfos']
        rfl
      · rintro τ onReport observe hreport t s rfl
        refine (hfile s rfl).bind ((hreport t report { s with files := middle }).bind ?_)
        have hlines := hrest onReport observe hreport (observe (t, s.output) report).1
          { s with files := middle, output := (observe (t, s.output) report).2 } rfl
        cases failure? with
        | none => exact hlines.bind_pure rfl
        | some failure => exact hlines.bind_pure rfl

/-! ## 3. Commands -/

def fileEvents (settings : Settings) (paths : List String) (files : φ) : List Log.Event :=
  (regenerateAll (m := SessionM φ) settings (fun _ _ => pure ()) () paths
    { files, filter := some (.upTo (some .trace)) }).2.events

/-- The result of a regeneration: the failure of a file comes before that of the output. -/
def resultOf (failure? : Option FileFailure) (printed : Except SinkError Unit) :
    Except Program.Failure Unit :=
  match failure? with
  | some failure => .error (.file failure)
  | none => printed.mapError .output

/-- `regen` gives the same reports, files and events under any filter. -/
theorem exists_logs_run_regen (paths : List String) (settings : Settings) (files : φ) :
    ∃ reports failure? after,
      Processes settings paths reports failure? files after ∧
      Log.infos (fileEvents settings paths files) = reports.map Log.Event.regenerated ∧
      ∀ palette s, s.files = files →
        Logs (Program.run palette (.regen paths settings)) s
          (resultOf failure? (reports.foldl (printLine palette) (.ok (), s.output)).1)
          { s with
            files := after
            output := (reports.foldl (printLine palette) (.ok (), s.output)).2 }
          (.running (.regen paths settings) :: fileEvents settings paths files) := by
  obtain ⟨reports, failure?, after, events, hprocesses, hinfos, hlogs⟩ :=
    exists_logs_regenerateAll settings paths files
  -- the events are those of a run that prints nothing and records everything
  have hevents : fileEvents settings paths files = events := by
    have hquiet := hlogs (fun _ _ => pure ()) (fun printed _ => printed) (fun _ _ s => .pure () s)
      () { files } rfl (some (.upTo (some .trace))) []
    rw [Log.passing_trace, List.nil_append] at hquiet
    unfold fileEvents
    rw [hquiet]
  refine ⟨reports, failure?, after, hprocesses, hevents ▸ hinfos, ?_⟩
  intro palette s hs
  rw [hevents]
  refine (Logs.record (.running (.regen paths settings)) s).bind ?_
  have hlines := hlogs _ _ (logs_reportFile palette) (.ok ()) s hs
  cases failure? with
  | none => exact hlines.bind_pure rfl
  | some failure => exact hlines.bind_pure rfl

theorem logs_run_types (palette : Report.Palette) (s : Session φ) :
    Logs (Program.run palette .types) s
      ((s.print .output (Report.typesTable palette)).1.mapError .output)
      (s.print .output (Report.typesTable palette)).2 [.running .types] := by
  refine (Logs.record (.running .types) s).bind ?_
  exact (Logs.print .output (Report.typesTable palette) s).bind_pure rfl

/-- No process can be reached into, so nothing happens. -/
theorem logs_run_of_target {command : Command} {target : Target} (h : command.target? = some target)
    (palette : Report.Palette) (s : Session φ) :
    Logs (Program.run palette command) s (.error (.process .unsupported)) s
      [.running command] := by
  refine (Logs.record (.running command) s).bind ?_
  cases command with
  | read | write | demo => exact .pure _ s
  | types | regen | help | version => cases h

/-! ## 4. Whole runs -/

/-- The end of a run: a failure is printed and gives exit code 1. -/
def ended (palette : Report.Palette) :
    Except Program.Failure Unit × Session φ → UInt32 × Session φ
  | (.ok (), s) => (0, s)
  | (.error failure, s) => (1, (s.print .errors (Report.errorLine palette failure.message)).2)

/-- A run of the program reads its arguments, chooses the filter and ends the command. -/
theorem execute_apply (palette : Report.Palette) (parse : String → Option Log.Filter)
    (logText : Option String) (arguments : List String) (s : Session φ) :
    Program.execute (m := SessionM φ) palette parse logText arguments s =
      match CommandLine.read arguments with
      | .error error =>
        (1, (s.print .errors
          ["error: " ++ error.message ++ "\n", "For more information, try '--help'\n"]).2)
      | .ok invocation =>
        match invocation.command with
        | .help => (0, (s.print .output [helpText, "\n"]).2)
        | .version => (0, (s.print .output [versionText, "\n"]).2)
        | command =>
          ended palette (Program.run (m := SessionM φ) palette command
            { s with
              filter := s.filter <|>
                some (.choose parse logText invocation.verbosity invocation.quiet) }) := by
  unfold Program.execute
  cases CommandLine.read arguments with
  | error error => rfl
  | ok invocation =>
    simp only
    cases invocation.command with
    | help | version => rfl
    | read | write | demo | types | regen =>
      simp only [bind_apply]
      rcases (Program.run (m := SessionM φ) _ _ _) with ⟨_ | _, _⟩ <;> rfl

end MemoryKit
