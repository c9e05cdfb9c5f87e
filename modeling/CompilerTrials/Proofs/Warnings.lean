import CompilerTrials.Proofs.Logging
import CompilerTrials.Proofs.Crashes

/-!
# Warnings

The only warnings of the program are about compilers that a signal terminated. A crash below `error`
passes for a rejection and leaves no trace in any report, so its warning is all that tells of it.

* `Log.warnings_shown`: every level that the options can set shows all warnings.
* `Log.line_crashed`: what the log writes of a crash, with the signal and the command line.
* `TrialResult.warning`: the warning about a result.
* `Session.warnings_said`: what is said of one trial holds the warning about its result, and no
  other; `Session.warnings_run`: so does what a completed run says of all trials.
* `Program.run_warnings`: what the log writes to standard error, and that the warnings in it are
  those about the results, in the order of the trials; where the program only lists there are none.
-/

namespace CompilerTrials

variable {t : FileTree} {compiler : Compiler} {config : Config} {selection : Selection}
variable {r : TrialResult} {rs : Results} {i : Invocation} {ran : CompilerRun} {e : Event}

/-! ## Warnings in a log -/

namespace Log

def warnings (events : List Event) : List Event := events.filter (fun e => e.level = .warn)

theorem warnings_append (events later : List Event) :
    warnings (events ++ later) = warnings events ++ warnings later :=
  List.filter_append events later

theorem warnings_alarms (events : List Event) : warnings (alarms events) = warnings events := by
  unfold warnings alarms
  rw [List.filter_filter]
  apply List.filter_congr
  intro e _
  by_cases hlevel : e.level = .warn <;> simp [hlevel]

/-- No warning is lost at a level that shows warnings. -/
theorem warnings_shown {limit : LogLevel} (h : LogLevel.warn.rank ≤ limit.rank)
    (events : List Event) : warnings (limit.shown events) = warnings events := by
  rw [← warnings_alarms, alarms_shown h, warnings_alarms]

/-- Only crashes are warned of. -/
theorem level_eq_warn_iff (e : Event) :
    e.level = .warn ↔ ∃ signal i, e = .crashed signal i := by
  constructor
  · intro h
    cases e with
    | crashed signal i => exact ⟨signal, i, rfl⟩
    | _ => cases h
  · rintro ⟨signal, i, rfl⟩
    rfl

theorem warnings_of_idle {α : Type} {x : Transcript α} (h : x.Idle) : warnings x.events = [] := by
  apply List.filter_eq_nil_iff.mpr
  intro e he
  rw [decide_eq_true_iff]
  exact h.unalarmed e he

/-! ### Lines -/

/-- The lines that are written of some events are those of the events that are shown. -/
theorem render_eq (color : Bool) (limit : LogLevel) (events : List Event) :
    render color limit events = (limit.shown events).flatMap (line color) := rfl

theorem disarm_append (t u : Text) : disarm (t ++ u) = disarm t ++ disarm u :=
  List.flatMap_append

/-- No terminal takes the character as an order. -/
def IsHarmless (c : Char) : Prop := 0x20 ≤ c.toNat ∧ c.toNat < 0x7F ∨ 0xA0 ≤ c.toNat

instance : DecidablePred IsHarmless := fun _ => inferInstanceAs (Decidable (_ ∨ _))

theorem disarmChar_of_harmless {c : Char} (h : IsHarmless c) : disarmChar c = [c] := by
  have hne {order : Char} (horder : ¬ IsHarmless order) : c ≠ order := fun heq => horder (heq ▸ h)
  have hrange : ¬ (0x80 ≤ c.toNat ∧ c.toNat < 0xA0) := by
    unfold IsHarmless at h
    omega
  unfold disarmChar
  rw [if_neg (hne (by decide)), if_neg (hne (by decide)), if_neg (hne (by decide)),
    if_neg (hne (by decide)), if_neg (hne (by decide)), if_neg hrange]

/-- A message that orders nothing stays as it is. -/
theorem disarm_of_harmless {t : Text} (h : ∀ c ∈ t, IsHarmless c) : disarm t = t := by
  unfold disarm
  induction t with
  | nil => rfl
  | cons c t ih =>
    rw [List.flatMap_cons, disarmChar_of_harmless (h c List.mem_cons_self),
      ih fun d hd => h d (List.mem_cons_of_mem c hd)]
    rfl

theorem disarm_of_printable {t : Text} (h : t.IsPrintable) : disarm t = t :=
  disarm_of_harmless fun c hc => .inl (h c hc)

/-- The name of the level of warnings as it stands in a log, and the blank behind it. -/
def warnTag (color : Bool) : Text := if color then "\x1b[33m WARN\x1b[0m ".toList else " WARN ".toList

/-- What the log writes of a crash: the signal, and the command line up to the characters that are
spelled out. -/
theorem line_crashed (color : Bool) (signal : Nat) (i : Invocation) :
    line color (.crashed signal i) =
      warnTag color ++ "compiler was terminated by signal ".toList ++ Nat.toDigits 10 signal ++
        ": ".toList ++ disarm ([' '].intercalate ((i.program :: i.args).map Path.display)) ++
        ['\n'] := by
  have htag : (style .warn).paint color LogLevel.warn.name ++ [' '] = warnTag color := by
    cases color <;> decide
  have hmessage : disarm (Event.crashed signal i).message =
      "compiler was terminated by signal ".toList ++ Nat.toDigits 10 signal ++ ": ".toList ++
        disarm ([' '].intercalate ((i.program :: i.args).map Path.display)) := by
    have hsignal : disarm (Text.ofNat signal) = Nat.toDigits 10 signal :=
      disarm_of_printable (.ofNat signal)
    have hstart : disarm "compiler was terminated by signal ".toList =
        "compiler was terminated by signal ".toList := disarm_of_printable (by decide)
    have hcolon : disarm ": ".toList = ": ".toList := disarm_of_printable (by decide)
    unfold Event.message
    rw [disarm_append, disarm_append, disarm_append, hsignal, hstart, hcolon]
    rfl
  have hlevel : (Event.crashed signal i).level = .warn := rfl
  rw [line, hmessage, hlevel, ← htag]
  simp only [List.append_assoc, List.cons_append, List.nil_append]

end Log

open Log (warnings warnings_append)

/-! ## Signals -/

namespace WaitStatus

theorem signal_eq_none_of_code {w : WaitStatus} {n : Nat} (h : w.code = some n) :
    w.signal = none := by
  unfold code at h
  unfold signal
  split at h
  · next hending => rw [hending]
  · cases h

/-- No exit looks like a crash, whatever its code. -/
theorem signal_ofExit (code : Int) : (ofExit code).signal = none := by
  have hlow : (ofExit code).low = 0 := by
    rw [low, toNat_ofExit]
    omega
  rw [signal, ending, if_pos hlow]

theorem signal_ofSignal {n : Nat} (h : 0 < n ∧ n < 0x7F) : (ofSignal n).signal = some n := by
  have hlow : (ofSignal n).low = n := by
    rw [low, toNat_ofSignal h.2]
    omega
  rw [signal, ending, hlow, if_neg (by omega), if_pos h.2]

end WaitStatus

/-! ## Warnings about results -/

namespace TrialResult

/-- The warning about a result: the compiler was started, and a signal terminated it. -/
def warning (r : TrialResult) : Option Event := do
  let i ← r.invocation
  let run ← r.run
  let signal ← run.status.signal
  return .crashed signal i

theorem warning_eq_some_iff :
    r.warning = some e ↔ ∃ i ran signal, r.invocation = some i ∧ r.run = some ran ∧
      ran.status.signal = some signal ∧ e = .crashed signal i := by
  simp only [warning, Option.bind_eq_bind, Option.bind_eq_some_iff, Option.pure_def,
    Option.some.injEq]
  constructor
  · rintro ⟨i, hinvocation, ran, hrun, signal, hsignal, he⟩
    exact ⟨i, ran, signal, hinvocation, hrun, hsignal, he.symm⟩
  · rintro ⟨i, ran, signal, hinvocation, hrun, hsignal, he⟩
    exact ⟨i, hinvocation, ran, hrun, signal, hsignal, he.symm⟩

theorem warning_eq_none (hrun : r.run = some ran) (h : ran.status.signal = none) :
    r.warning = none := by
  rw [Option.eq_none_iff_forall_ne_some]
  intro e he
  obtain ⟨_, other, signal, -, hother, hsignal, -⟩ := warning_eq_some_iff.mp he
  rw [hrun] at hother
  obtain rfl := Option.some.inj hother
  rw [h] at hsignal
  cases hsignal

theorem warning_eq_some (hinvocation : r.invocation = some i) (hrun : r.run = some ran) {n : Nat}
    (h : ran.status.signal = some n) : r.warning = some (.crashed n i) :=
  warning_eq_some_iff.mpr ⟨i, ran, n, hinvocation, hrun, h, rfl⟩

end TrialResult

/-! ## Runs -/

namespace Session

/-- What is said of a trial holds the warning about its result, and no other. -/
theorem warnings_said (compiler : Compiler) (config : Config) (selection : Selection) (c : Trial) :
    warnings (said compiler config selection c) =
      (recorded compiler config selection c).warning.toList := by
  by_cases hselected : selection.accepts c.qualifiedName = true
  · unfold said recorded
    rw [if_pos hselected, if_pos hselected]
    dsimp only
    cases hsignal : (compiler (Invocation.ofTrial config c)).observe.status.signal with
    | none => simp [warnings, Event.level, TrialResult.warning, TrialResult.ran, hsignal]
    | some n => simp [warnings, Event.level, TrialResult.warning, TrialResult.ran, hsignal]
  · unfold said recorded
    rw [if_neg hselected, if_neg hselected]
    rfl

theorem warnings_flatMap_said (compiler : Compiler) (config : Config) (selection : Selection)
    (trials : List Trial) :
    warnings (trials.flatMap (said compiler config selection)) =
      (trials.map (recorded compiler config selection)).filterMap TrialResult.warning := by
  induction trials with
  | nil => rfl
  | cons c rest ih =>
    rw [List.flatMap_cons, warnings_append, warnings_said, ih, List.map_cons]
    cases hwarning : (recorded compiler config selection c).warning with
    | none => rw [List.filterMap_cons_none hwarning]; rfl
    | some e => rw [List.filterMap_cons_some hwarning]; rfl

/-- What a completed run says: what the listing said, and what is said of each trial between two
lines that count. -/
theorem events_of_ok (h : (run t compiler config selection).outcome = .ok rs) :
    ∃ trials, (Discovery.all t config.testsDir).outcome = .ok trials ∧
      rs = ⟨trials.map (recorded compiler config selection)⟩ ∧
      (run t compiler config selection).events = (Discovery.all t config.testsDir).events ++
        (.began trials.length config.testsDir :: trials.flatMap (said compiler config selection) ++
          [.finished rs.attempted rs.passed rs.failed]) := by
  obtain ⟨trials, hall, rfl, -⟩ := run_of_ok h
  have hstart := startable_of_not_blocked hall (not_blocked_of_ok h hall)
  refine ⟨trials, hall, rfl, ?_⟩
  rw [run, Transcript.bind_of_ok hall, results_of_startable compiler hstart]
  simp [Bind.bind, Transcript.bind, Transcript.say, Functor.map, Transcript.done]

theorem warnings_run (h : (run t compiler config selection).outcome = .ok rs) :
    warnings (run t compiler config selection).events =
      rs.list.filterMap TrialResult.warning := by
  obtain ⟨trials, -, rfl, hevents⟩ := events_of_ok h
  have hlisted := Log.warnings_of_idle (Discovery.idle_all t config.testsDir)
  have hbegan (n : Nat) (dir : ByteString) (events : List Event) :
      warnings (.began n dir :: events) = warnings events := rfl
  have hfinished (n m k : Nat) : warnings [.finished n m k] = [] := rfl
  rw [hevents, warnings_append, hlisted, List.nil_append, warnings_append, hbegan, hfinished,
    List.append_nil, warnings_flatMap_said]

/-- The warning about a result is what its trial calls for: one if a signal terminated the compiler,
and none if it did not, or if the trial was left out. -/
structure Warned (compiler : Compiler) (config : Config) (r : TrialResult) : Prop where
  skipped : r.isSkipped = true → r.warning = none
  /-- What is recorded of an attempt is the invocation for the trial and what came of it. -/
  attempted : r.isSkipped = false → r.invocation = some (Invocation.ofTrial config r.trial) ∧
    r.run = some (compiler (Invocation.ofTrial config r.trial)).observe
  crashed : ∀ ran signal, r.run = some ran → ran.status.signal = some signal →
    r.warning = some (.crashed signal (Invocation.ofTrial config r.trial))
  spared : ∀ ran, r.run = some ran → ran.status.signal = none → r.warning = none
  exited : ∀ ran code, r.run = some ran → ran.status.code = some code → r.warning = none
  left : r.isSkipped = false → ∀ code,
    (compiler (Invocation.ofTrial config r.trial)).departure = .exit code → r.warning = none
  killed : r.isSkipped = false → ∀ signal, 0 < signal → signal < 0x7F →
    (compiler (Invocation.ofTrial config r.trial)).departure = .kill signal →
      r.warning = some (.crashed signal (Invocation.ofTrial config r.trial))

theorem warned_skipped (compiler : Compiler) (config : Config) (c : Trial) :
    Warned compiler config (.skipped c) where
  skipped _ := rfl
  attempted h := by cases h
  crashed _ _ h := by cases h
  spared _ h := by cases h
  exited _ _ h := by cases h
  left h := by cases h
  killed h := by cases h

theorem warned_ran (compiler : Compiler) (config : Config) (c : Trial) (verdict : Verdict) :
    Warned compiler config (.ran c (Invocation.ofTrial config c)
      (compiler (Invocation.ofTrial config c)).observe verdict) where
  skipped h := by cases h
  attempted _ := ⟨rfl, rfl⟩
  crashed _ _ hrun h := TrialResult.warning_eq_some rfl hrun h
  spared _ hrun h := TrialResult.warning_eq_none hrun h
  exited _ _ hrun h := TrialResult.warning_eq_none hrun (WaitStatus.signal_eq_none_of_code h)
  left _ code h := by
    have hsignal := congrArg (fun d : Departure => d.status.signal) h
    exact TrialResult.warning_eq_none rfl (hsignal.trans (WaitStatus.signal_ofExit code))
  killed _ signal hpos hlt h := by
    have hsignal := congrArg (fun d : Departure => d.status.signal) h
    exact TrialResult.warning_eq_some rfl rfl
      (hsignal.trans (WaitStatus.signal_ofSignal ⟨hpos, hlt⟩))

theorem warned_of_run (h : (run t compiler config selection).outcome = .ok rs) (hr : r ∈ rs.list) :
    Warned compiler config r := by
  obtain ⟨c, rfl⟩ := exists_recorded_of_run h hr
  unfold recorded
  split
  · exact warned_ran compiler config c _
  · exact warned_skipped compiler config c

end Session

/-! ## The program -/

namespace Program

variable {host : Host} {env : Environment} {args : List ByteString} {o : Options} {color : Bool}

/-- What the log shows of what was said. -/
def logged (o : Options) (c : Conduct) : List Event :=
  (logLevel o).shown c.events ++ (logLevel o).shown c.closing

theorem warnings_logged (o : Options) (c : Conduct) :
    warnings (logged o c) = warnings c.events ++ warnings c.closing := by
  rw [logged, warnings_append, Log.warnings_shown (warn_le_logLevel o),
    Log.warnings_shown (warn_le_logLevel o)]

theorem warnings_report (host : Host) (color : Bool) (o : Options) (rs : Results) :
    warnings (report host color o rs).closing = [] := by
  simp only [report, Draft.write]
  cases (Report.draft o.format color o.verbose host.timestamp rs).stop with
  | none => rfl
  | some f => cases f <;> rfl

theorem warnings_serve_of_listOnly (h : o.listOnly = true) (host : Host) (color : Bool) :
    warnings (logged o (serve host color o)) = [] := by
  have hfatal (a : Activity) (e : Error) : warnings [.fatal a e] = [] := rfl
  have hlist := Log.warnings_of_idle (Session.idle_list host.tree o.config o.selection)
  rw [warnings_logged, serve_of_listOnly h]
  simp only [listTrials]
  split
  · rw [hlist]
    rfl
  · rw [warnings_append, hlist, hfatal]
    rfl

theorem warnings_serve_of_completes (h : Completes host env args o rs) (color : Bool) :
    warnings (logged o (serve host color o)) = rs.list.filterMap TrialResult.warning := by
  rw [warnings_logged, serve_of_not_listOnly h.listOnly]
  simp only [runTrials, h.results]
  rw [Session.warnings_run h.results, warnings_report, List.append_nil]

/-- At every level, standard error holds what the log writes of the events that it shows, before the
report and behind it. The warnings among these are about crashes only, and of each is written the
signal and the command line. They are those about the results of the run, in the order of the
trials. Where the program only lists, there are none. -/
theorem run_warnings (hread : CommandLine.read env args = .ok (.run o)) (host : Host) :
    ∃ conduct before after, conduct = serve host (colorsReport env) o ∧
      before = (logLevel o).shown conduct.events ∧ after = (logLevel o).shown conduct.closing ∧
      logged o conduct = before ++ after ∧
      (run host env args).stderr = before.flatMap (Log.line (colorsLog env)) ++ conduct.report ++
        after.flatMap (Log.line (colorsLog env)) ∧
      (∀ e : Event, e.level = .warn ↔ ∃ signal i, e = .crashed signal i) ∧
      (∀ signal i, Log.line (colorsLog env) (.crashed signal i) =
        Log.warnTag (colorsLog env) ++ "compiler was terminated by signal ".toList ++
          Nat.toDigits 10 signal ++ ": ".toList ++
          Log.disarm ([' '].intercalate ((i.program :: i.args).map Path.display)) ++ ['\n']) ∧
      (∀ t : Text, (∀ c ∈ t, Log.IsHarmless c) → Log.disarm t = t) ∧
      (o.listOnly = true → warnings (before ++ after) = []) ∧
      ∀ rs, Completes host env args o rs →
        warnings (before ++ after) = rs.list.filterMap TrialResult.warning ∧
        (Discovery.all host.tree o.config.testsDir).outcome =
          .ok (rs.list.map TrialResult.trial) ∧
        ∀ r ∈ rs.list, Session.Warned host.compiler o.config r := by
  refine ⟨_, _, _, rfl, rfl, rfl, rfl, ?_, Log.level_eq_warn_iff, Log.line_crashed _,
    fun _ => Log.disarm_of_harmless, ?_, ?_⟩
  · rw [run_of_read hread, write, Log.render_eq, Log.render_eq]
  · intro hlistOnly
    exact warnings_serve_of_listOnly hlistOnly host _
  · intro rs h
    refine ⟨warnings_serve_of_completes h _, ?_, fun r hr => Session.warned_of_run h.results hr⟩
    obtain ⟨trials, hall, rfl, -⟩ := Session.run_of_ok h.results
    rw [hall, Session.map_trial_recorded]

namespace Sample

/-- The results where the compiler crashes on one trial. -/
def crashResults : Results :=
  ⟨[Session.Sample.accepted, Session.Sample.rejected].map
    (Session.recorded Session.Sample.stub Session.Sample.setup {})⟩

/-- The crash on the trial below `error`. -/
def crash : Event :=
  .crashed 11 ⟨Utf8.encode "adept".toList, [Utf8.encode "./error/typo".toList]⟩

theorem completes_crashSite : Completes crashSite {} line options crashResults :=
  ⟨read_line, rfl, Session.run_of_launch Session.Sample.stub Session.Sample.outcome_both
    Session.Sample.launchFault_none {}⟩

end Sample

/-- The crash on the trial below `error` is a pass, and the only warning. Its line is on standard
error. -/
theorem run_warnings_sample :
    CommandLine.read {} Sample.line = .ok (.run Sample.options) ∧
      Completes Sample.crashSite {} Sample.line Sample.options Sample.crashResults ∧
      Sample.crashResults.list.map TrialResult.verdict = [some .pass, some .pass] ∧
      warnings (logged Sample.options (serve Sample.crashSite false Sample.options)) =
        [Sample.crash] ∧
      Log.line true Sample.crash = "\x1b[33m WARN\x1b[0m ".toList ++
        "compiler was terminated by signal 11: adept ./error/typo\n".toList ∧
      Log.line true Sample.crash <:+: (run Sample.crashSite {} Sample.line).stderr := by
  obtain ⟨conduct, before, after, rfl, -, -, hlogged, hstderr, -, -, -, -, hruns⟩ :=
    run_warnings Sample.read_line Sample.crashSite
  obtain ⟨hwarnings, -, -⟩ := hruns _ Sample.completes_crashSite
  have hreport : colorsReport {} = false := rfl
  have hlog : colorsLog {} = true := rfl
  have hcrash : Sample.crashResults.list.filterMap TrialResult.warning = [Sample.crash] := by
    decide +kernel
  rw [hreport] at hlogged
  rw [hcrash] at hwarnings
  refine ⟨Sample.read_line, Sample.completes_crashSite, by decide +kernel, hlogged ▸ hwarnings,
    by decide +kernel, ?_⟩
  have hwarned : Sample.crash ∈ warnings (before ++ after) := hwarnings ▸ List.mem_singleton_self _
  have hshown : Sample.crash ∈ before ++ after := (List.mem_filter.mp hwarned).1
  have hwritten {events : List Event} (h : Sample.crash ∈ events) :
      Log.line true Sample.crash <:+: events.flatMap (Log.line true) :=
    List.infix_of_mem_flatten (List.mem_map_of_mem h)
  rw [hstderr, hlog]
  rcases List.mem_append.mp hshown with h | h
  · exact (hwritten h).trans ((List.prefix_append _ _).trans (List.prefix_append _ _)).isInfix
  · exact (hwritten h).trans (List.suffix_append _ _).isInfix

end Program

end CompilerTrials
