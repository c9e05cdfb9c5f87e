import CompilerTrials.Proofs.ExitCodes
import Mathlib.Data.List.Flatten

/-!
# Log levels

How talkative the log is plays no part in what the program does: the options that set the level are
read by nobody but the log (`Program.serve_quiet`). The log shares standard error with the report,
and puts its lines before the report and after it.

* `LogLevel.shown`: the events that a level shows; `Log.alarms`: the warnings and errors.
* `Log.alarms_shown`: every level that the options can set shows all alarms.
* `Log.render_sublist`: a more talkative log has the lines of a less talkative one in it.
* `Program.run_of_quiet`: command lines that differ in the level alone make runs that differ in log
  lines below a warning alone.
-/

namespace CompilerTrials

/-- The options without those that set the level of the log. -/
def Options.quiet (o : Options) : Options := { o with logDebug := false, logTrace := false }

/-! ## What a level shows -/

/-- The events that a level shows. -/
def LogLevel.shown (limit : LogLevel) (events : List Event) : List Event :=
  events.filter (fun e => limit.shownAt e.level)

namespace Log

variable {quieter louder limit : LogLevel}

/-- The warnings and errors. -/
def alarms (events : List Event) : List Event :=
  events.filter (fun e => e.level = .error ∨ e.level = .warn)

theorem shownAt_of_le (h : quieter.rank ≤ louder.rank) (level : LogLevel)
    (hshown : quieter.shownAt level = true) : louder.shownAt level = true := by
  unfold LogLevel.shownAt at hshown ⊢
  rw [decide_eq_true_iff] at hshown ⊢
  omega

theorem shownAt_alarm (h : LogLevel.warn.rank ≤ limit.rank) {level : LogLevel}
    (hlevel : level = .error ∨ level = .warn) : limit.shownAt level = true := by
  apply shownAt_of_le h
  rcases hlevel with rfl | rfl
  · rfl
  · rfl

/-- No alarm is lost at a level that shows warnings. -/
theorem alarms_shown (h : LogLevel.warn.rank ≤ limit.rank) (events : List Event) :
    alarms (limit.shown events) = alarms events := by
  unfold alarms LogLevel.shown
  rw [List.filter_filter]
  apply List.filter_congr
  intro e _
  by_cases hlevel : e.level = .error ∨ e.level = .warn
  · rw [shownAt_alarm h hlevel, Bool.and_true]
  · rw [decide_eq_false hlevel, Bool.false_and]

theorem shown_sublist (h : quieter.rank ≤ louder.rank) (events : List Event) :
    (quieter.shown events).Sublist (louder.shown events) := by
  apply List.monotone_filter_right events
  intro e hshown
  exact shownAt_of_le h e.level hshown

theorem render_sublist (h : quieter.rank ≤ louder.rank) (color : Bool) (events : List Event) :
    (render color quieter events).Sublist (render color louder events) :=
  (shown_sublist h events).flatMap (line color)

end Log

namespace Program

variable {host : Host} {env : Environment} {args args' : List ByteString} {o o' : Options}

theorem warn_le_logLevel (o : Options) : LogLevel.warn.rank ≤ (logLevel o).rank := by
  unfold logLevel
  split
  · decide
  · split
    · decide
    · exact Nat.le_refl _

/-! ## What the level plays no part in -/

theorem listTrials_quiet (host : Host) (o : Options) :
    listTrials host o.quiet = listTrials host o := rfl

theorem report_quiet (host : Host) (color : Bool) (o : Options) (rs : Results) :
    report host color o.quiet rs = report host color o rs := rfl

theorem runTrials_quiet (host : Host) (color : Bool) (o : Options) :
    runTrials host color o.quiet = runTrials host color o := by
  unfold runTrials
  simp only [report_quiet]
  rfl

theorem serve_quiet (host : Host) (color : Bool) (o : Options) :
    serve host color o.quiet = serve host color o := by
  unfold serve
  rw [listTrials_quiet, runTrials_quiet]
  rfl

theorem serve_congr (h : o.quiet = o'.quiet) (host : Host) (color : Bool) :
    serve host color o = serve host color o' := by
  rw [← serve_quiet host color o, h, serve_quiet]

theorem write_sublist {quieter louder : LogLevel} (h : quieter.rank ≤ louder.rank) (color : Bool)
    (c : Conduct) : (write color quieter c).stderr.Sublist (write color louder c).stderr :=
  ((Log.render_sublist h color c.events).append (List.Sublist.refl c.report)).append
    (Log.render_sublist h color c.closing)

/-- Of two command lines that differ in the level of the log alone, each makes the program leave with
the same code, print the same, start the same and report the same. On standard error the report
stands between log lines, and the warnings and errors among these are the same too. A more talkative
log only adds to what is there. -/
theorem run_of_quiet (hread : CommandLine.read env args = .ok (.run o))
    (hread' : CommandLine.read env args' = .ok (.run o')) (h : o.quiet = o'.quiet) (host : Host) :
    (run host env args).code = (run host env args').code ∧
    (run host env args).stdout = (run host env args').stdout ∧
    (run host env args).started = (run host env args').started ∧
    (∃ conduct conduct' : Conduct,
      conduct = serve host (colorsReport env) o ∧ conduct' = serve host (colorsReport env) o' ∧
      (run host env args).stderr = Log.render (colorsLog env) (logLevel o) conduct.events ++
        conduct.report ++ Log.render (colorsLog env) (logLevel o) conduct.closing ∧
      (run host env args').stderr = Log.render (colorsLog env) (logLevel o') conduct'.events ++
        conduct'.report ++ Log.render (colorsLog env) (logLevel o') conduct'.closing ∧
      conduct.report = conduct'.report ∧
      Log.alarms ((logLevel o).shown conduct.events) =
        Log.alarms ((logLevel o').shown conduct'.events) ∧
      Log.alarms ((logLevel o).shown conduct.closing) =
        Log.alarms ((logLevel o').shown conduct'.closing)) ∧
    ((logLevel o).rank ≤ (logLevel o').rank →
      (run host env args).stderr.Sublist (run host env args').stderr) := by
  have hserve : serve host (colorsReport env) o = serve host (colorsReport env) o' :=
    serve_congr h host (colorsReport env)
  have halarms (events : List Event) : Log.alarms ((logLevel o).shown events) =
      Log.alarms ((logLevel o').shown events) := by
    rw [Log.alarms_shown (warn_le_logLevel o), Log.alarms_shown (warn_le_logLevel o')]
  rw [run_of_read hread, run_of_read hread', hserve]
  refine ⟨rfl, rfl, rfl, ⟨_, _, rfl, rfl, rfl, rfl, rfl, halarms _, halarms _⟩, ?_⟩
  intro hlevel
  exact write_sublist hlevel (colorsLog env) _

namespace Sample

/-- Where the compiler crashes on one trial. -/
def crashSite : Host := { site with compiler := Session.Sample.stub }

/-- The command line with an option behind it. -/
def lineWith (option : String) : List ByteString := line ++ [Utf8.encode option.toList]

end Sample

/-- The log of a run in which the compiler crashes, at its most talkative and at its least. -/
theorem run_of_quiet_sample :
    CommandLine.read {} Sample.line = .ok (.run Sample.options) ∧
      CommandLine.read {} (Sample.lineWith "--log-trace") =
        .ok (.run { Sample.options with logTrace := true }) ∧
      (run Sample.crashSite {} Sample.line).code =
        (run Sample.crashSite {} (Sample.lineWith "--log-trace")).code ∧
      (run Sample.crashSite {} Sample.line).stdout =
        (run Sample.crashSite {} (Sample.lineWith "--log-trace")).stdout ∧
      (run Sample.crashSite {} Sample.line).stderr.Sublist
        (run Sample.crashSite {} (Sample.lineWith "--log-trace")).stderr := by
  have hread : CommandLine.read {} (Sample.lineWith "--log-trace") =
      .ok (.run { Sample.options with logTrace := true }) := by
    decide +kernel
  obtain ⟨hcode, hstdout, -, -, hsublist⟩ :=
    run_of_quiet Sample.read_line hread rfl Sample.crashSite
  exact ⟨Sample.read_line, hread, hcode, hstdout, hsublist (by decide)⟩

end Program

end CompilerTrials
