import CompilerTrials.Proofs.Decoding
import CompilerTrials.Proofs.Masking
import CompilerTrials.Proofs.Previews
import CompilerTrials.Program

/-!
# Exit codes

What can be told from outside by how the program leaves, and by what it leaves on standard output.
A command line that is read leads to guidance, to a listing or to a run; all that goes wrong before
or in one of them ends in the same code.

* `Program.AsksForGuidance`, `Program.Lists`, `Program.Completes`: the ways that end well.
* `Program.run_of_guidance`, `run_of_lists`, `run_of_completes`, `run_of_else`: the code and the
  standard output of each of them, and of everything else.
* `Program.listed_of_started`: nothing is started before both suites are listed.
* `Program.run_exit`: what the code says, whatever the command line and the files.

A report of a completed run is assumed to be one that can be written: its times have a sum below
2^63 seconds. Streams take all that is written.
-/

namespace CompilerTrials

/-! ## Times -/

namespace Results

variable {rs : Results}

/-- The times of the results have a sum that every report can hold. -/
def IsShort (rs : Results) : Prop :=
  JUnit.nanosOf (rs.list.map TrialResult.duration) < JUnit.secondsLimit * 1000000000

theorem exists_total (h : rs.IsShort) : ∃ d, rs.total? = some d := by
  unfold IsShort JUnit.secondsLimit at h
  have hbound : JUnit.nanosOf (rs.list.map TrialResult.duration) <
      18446744073709551616 * 1000000000 := by omega
  obtain ⟨d, hd, -⟩ := (Duration.checked_total? _).exists_of_lt hbound
  exact ⟨d, hd⟩

theorem exitCode_cases (rs : Results) : rs.exitCode = 0 ∨ rs.exitCode = 1 := by
  unfold exitCode
  split
  · exact .inl rfl
  · exact .inr rfl

theorem exitCode_eq_zero_iff : rs.exitCode = 0 ↔ ∀ r ∈ rs.list, r.verdict ≠ some .fail := by
  have hfailed : rs.failed = 0 ↔ ∀ r ∈ rs.list, r.verdict ≠ some .fail := by
    simp [failed, TrialResult.isFailed, List.countP_eq_zero]
  rw [← hfailed, exitCode, allPassed]
  by_cases h : rs.failed = 0 <;> simp [h]

theorem exitCode_eq_one_iff : rs.exitCode = 1 ↔ ∃ r ∈ rs.list, r.verdict = some .fail := by
  have hflip : rs.exitCode = 1 ↔ ¬ rs.exitCode = 0 := by
    have hcases := rs.exitCode_cases
    omega
  rw [hflip, exitCode_eq_zero_iff]
  simp

end Results

namespace Program

variable {host : Host} {env : Environment} {args : List ByteString}
variable {o : Options} {rs : Results} {trials : List Trial} {color : Bool}

/-! ## Reports -/

/-- No report stops before its end. -/
theorem stop_draft (h : rs.IsShort) (format : ReportFormat) (color verbose : Bool)
    (timestamp : Text) : (Report.draft format color verbose timestamp rs).stop = none := by
  obtain ⟨d, hd⟩ := Results.exists_total h
  obtain ⟨time, hdocument⟩ := JUnit.ofResults_of_durations h color verbose
  cases format with
  | pretty => simp [Report.draft, Pretty.draft, Draft.after, Summary.draft, hd]
  | junit => simp [Report.draft, JUnit.draft, hdocument]
  | terse => simp [Report.draft, Summary.draft, hd]

theorem exitCode_report (h : rs.IsShort) (host : Host) (color : Bool) (o : Options) :
    (report host color o rs).exitCode = rs.exitCode := by
  simp [report, Draft.write, stop_draft h]

theorem stdout_report (host : Host) (color : Bool) (o : Options) (rs : Results) :
    (report host color o rs).stdout =
      if o.format = .junit then (JUnit.draft color o.verbose host.timestamp rs).text else [] := by
  have hstdout : (report host color o rs).stdout =
      if Report.stream o.format = .stdout then
        (Report.draft o.format color o.verbose host.timestamp rs).text else [] := by
    simp only [report, Draft.write]
    cases (Report.draft o.format color o.verbose host.timestamp rs).stop with
    | none => rfl
    | some f => cases f <;> rfl
  rw [hstdout]
  cases o.format <;> rfl

/-- The text of a document, and a line feed. -/
theorem text_draft (h : rs.IsShort) (color verbose : Bool) (timestamp : Text) :
    ∃ document, JUnit.ofResults color verbose rs = .ok document ∧
      (JUnit.draft color verbose timestamp rs).text =
        JUnit.render timestamp document ++ ['\n'] := by
  obtain ⟨time, hdocument⟩ := JUnit.ofResults_of_durations h color verbose
  exact ⟨_, hdocument, by simp [JUnit.draft, hdocument, Draft.text]⟩

/-! ## Ways to leave -/

/-- The command line is read up to an order for help or for the version. -/
def AsksForGuidance (env : Environment) (args : List ByteString) : Prop :=
  (∃ inDetail, CommandLine.read env args = .ok (.help inDetail)) ∨
    CommandLine.read env args = .ok .version

/-- A listing is asked for, and the suites hold these trials. -/
structure Lists (host : Host) (env : Environment) (args : List ByteString) (o : Options)
    (trials : List Trial) : Prop where
  read : CommandLine.read env args = .ok (.run o)
  listOnly : o.listOnly = true
  trials : (Discovery.all host.tree o.config.testsDir).outcome = .ok trials

/-- A run is asked for, and it comes to these results. -/
structure Completes (host : Host) (env : Environment) (args : List ByteString) (o : Options)
    (rs : Results) : Prop where
  read : CommandLine.read env args = .ok (.run o)
  listOnly : o.listOnly = false
  results : (Session.run host.tree host.compiler o.config o.selection).outcome = .ok rs

theorem run_of_read (h : CommandLine.read env args = .ok (.run o)) :
    run host env args =
      write (colorsLog env) (logLevel o) (serve host (colorsReport env) o) := by
  rw [run, h]

theorem serve_of_listOnly (h : o.listOnly = true) : serve host color o = listTrials host o :=
  if_pos h

theorem serve_of_not_listOnly (h : o.listOnly = false) :
    serve host color o = runTrials host color o :=
  if_neg (by rw [h]; exact Bool.false_ne_true)

theorem run_of_guidance (h : AsksForGuidance env args) :
    (run host env args).code = 0 ∧ (run host env args).started = [] := by
  rcases h with ⟨inDetail, h⟩ | h
  · rw [run, h]
    exact ⟨rfl, rfl⟩
  · rw [run, h]
    exact ⟨rfl, rfl⟩

theorem run_of_lists (h : Lists host env args o trials) :
    (run host env args).code = 0 ∧
      (run host env args).stdout =
        (trials.filter (fun c => o.selection.accepts c.qualifiedName)).flatMap
          (fun c => c.qualifiedName ++ ": test\n".toList) ∧
      (run host env args).started = [] := by
  have hlist : (Session.list host.tree o.config o.selection).outcome =
      .ok ((trials.map Trial.qualifiedName).filter o.selection.accepts) := by
    rw [Session.outcome_list, h.trials]
    rfl
  have hnames : listing ((trials.map Trial.qualifiedName).filter o.selection.accepts) =
      (trials.filter (fun c => o.selection.accepts c.qualifiedName)).flatMap
        (fun c => c.qualifiedName ++ ": test\n".toList) := by
    rw [listing, List.filter_map, List.flatMap_map]
    rfl
  rw [run_of_read h.read, serve_of_listOnly h.listOnly, ← hnames]
  simp only [listTrials, hlist, write]
  exact ⟨trivial, trivial, trivial⟩

theorem run_of_completes (h : Completes host env args o rs) (hshort : rs.IsShort) :
    (run host env args).code = rs.exitCode ∧
      (run host env args).stdout =
        if o.format = .junit then
          (JUnit.draft (colorsReport env) o.verbose host.timestamp rs).text
        else [] := by
  rw [run_of_read h.read, serve_of_not_listOnly h.listOnly]
  simp only [runTrials, h.results, write]
  exact ⟨exitCode_report hshort host _ o, stdout_report host _ o rs⟩

/-- Whatever else happens, the program itself fails, and it prints nothing. -/
theorem run_of_else (hguidance : ¬ AsksForGuidance env args)
    (hlists : ∀ o trials, ¬ Lists host env args o trials)
    (hcompletes : ∀ o rs, ¬ Completes host env args o rs) :
    (run host env args).code = failureCode ∧ (run host env args).stdout = [] := by
  cases hread : CommandLine.read env args with
  | error e =>
    rw [run, hread]
    exact ⟨rfl, rfl⟩
  | ok request =>
    cases request with
    | help inDetail => exact absurd (.inl ⟨inDetail, hread⟩) hguidance
    | version => exact absurd (.inr hread) hguidance
    | run o =>
      rw [run_of_read hread]
      cases hlist : o.listOnly with
      | true =>
        rw [serve_of_listOnly hlist]
        cases hall : (Discovery.all host.tree o.config.testsDir).outcome with
        | ok trials => exact absurd ⟨hread, hlist, hall⟩ (hlists o trials)
        | error e =>
          have hnames : (Session.list host.tree o.config o.selection).outcome = .error e :=
            Session.list_eq_error_iff.mpr hall
          simp only [listTrials, hnames, write]
          exact ⟨trivial, trivial⟩
      | false =>
        rw [serve_of_not_listOnly hlist]
        cases hrun : (Session.run host.tree host.compiler o.config o.selection).outcome with
        | ok rs => exact absurd ⟨hread, hlist, hrun⟩ (hcompletes o rs)
        | error e =>
          simp only [runTrials, hrun, write]
          exact ⟨trivial, trivial⟩

/-- Guidance, a listing, a completed run, or a failure of the program. -/
theorem run_cases (hshort : ∀ o rs, Completes host env args o rs → rs.IsShort) :
    (AsksForGuidance env args ∧ (run host env args).code = 0) ∨
      (∃ o trials, Lists host env args o trials ∧ (run host env args).code = 0) ∨
      (∃ o rs, Completes host env args o rs ∧ (run host env args).code = rs.exitCode) ∨
      ((run host env args).code = failureCode ∧ (run host env args).stdout = []) := by
  by_cases hguidance : AsksForGuidance env args
  · exact .inl ⟨hguidance, (run_of_guidance hguidance).1⟩
  by_cases hlists : ∃ o trials, Lists host env args o trials
  · obtain ⟨o, trials, h⟩ := hlists
    exact .inr (.inl ⟨o, trials, h, (run_of_lists h).1⟩)
  by_cases hcompletes : ∃ o rs, Completes host env args o rs
  · obtain ⟨o, rs, h⟩ := hcompletes
    exact .inr (.inr (.inl ⟨o, rs, h, (run_of_completes h (hshort o rs h)).1⟩))
  · exact .inr (.inr (.inr (run_of_else hguidance (fun o trials h => hlists ⟨o, trials, h⟩)
      (fun o rs h => hcompletes ⟨o, rs, h⟩))))

/-! ## Starting the compiler -/

theorem started_runTrials (host : Host) (color : Bool) (o : Options) :
    (runTrials host color o).started =
      (Session.run host.tree host.compiler o.config o.selection).started := by
  simp only [runTrials]
  split <;> rfl

/-- What is started was asked for, and both suites were listed before. -/
theorem listed_of_started (h : (run host env args).started ≠ []) :
    ∃ o trials, CommandLine.read env args = .ok (.run o) ∧ o.listOnly = false ∧
      (Discovery.all host.tree o.config.testsDir).outcome = .ok trials := by
  cases hread : CommandLine.read env args with
  | error e =>
    rw [run, hread] at h
    exact absurd rfl h
  | ok request =>
    cases request with
    | help inDetail => exact absurd (run_of_guidance (.inl ⟨inDetail, hread⟩)).2 h
    | version => exact absurd (run_of_guidance (.inr hread)).2 h
    | run o =>
      rw [run_of_read hread] at h
      cases hlist : o.listOnly with
      | true =>
        rw [serve_of_listOnly hlist] at h
        refine absurd ?_ h
        simp only [listTrials, write]
        split <;> rfl
      | false =>
        rw [serve_of_not_listOnly hlist] at h
        cases hall : (Discovery.all host.tree o.config.testsDir).outcome with
        | ok trials => exact ⟨o, trials, rfl, hlist, hall⟩
        | error e =>
          have hnone : (Session.run host.tree host.compiler o.config o.selection).started = [] :=
            (Session.run_of_listing_error hall).2
          rw [write, started_runTrials, hnone] at h
          exact absurd rfl h

/-! ## The code -/

theorem code_eq_zero_iff (hshort : ∀ o rs, Completes host env args o rs → rs.IsShort) :
    (run host env args).code = 0 ↔
      AsksForGuidance env args ∨ (∃ o trials, Lists host env args o trials) ∨
        ∃ o rs, Completes host env args o rs ∧ ∀ r ∈ rs.list, r.verdict ≠ some .fail := by
  constructor
  · intro hcode
    rcases run_cases hshort with ⟨h, -⟩ | ⟨o, trials, h, -⟩ | ⟨o, rs, h, hexit⟩ | ⟨hfailure, -⟩
    · exact .inl h
    · exact .inr (.inl ⟨o, trials, h⟩)
    · exact .inr (.inr ⟨o, rs, h, Results.exitCode_eq_zero_iff.mp (hexit.symm.trans hcode)⟩)
    · cases hfailure.symm.trans hcode
  · rintro (h | ⟨o, trials, h⟩ | ⟨o, rs, h, hpassed⟩)
    · exact (run_of_guidance h).1
    · exact (run_of_lists h).1
    · rw [(run_of_completes h (hshort o rs h)).1]
      exact Results.exitCode_eq_zero_iff.mpr hpassed

theorem code_eq_one_iff (hshort : ∀ o rs, Completes host env args o rs → rs.IsShort) :
    (run host env args).code = 1 ↔
      ∃ o rs, Completes host env args o rs ∧ ∃ r ∈ rs.list, r.verdict = some .fail := by
  constructor
  · intro hcode
    rcases run_cases hshort with ⟨-, hzero⟩ | ⟨-, -, -, hzero⟩ | ⟨o, rs, h, hexit⟩ | ⟨hfailure, -⟩
    · cases hzero.symm.trans hcode
    · cases hzero.symm.trans hcode
    · exact ⟨o, rs, h, Results.exitCode_eq_one_iff.mp (hexit.symm.trans hcode)⟩
    · cases hfailure.symm.trans hcode
  · rintro ⟨o, rs, h, hfailed⟩
    rw [(run_of_completes h (hshort o rs h)).1]
    exact Results.exitCode_eq_one_iff.mpr hfailed

/-- All codes but zero and one are that of a failure of the program, which prints nothing. -/
theorem code_else (hshort : ∀ o rs, Completes host env args o rs → rs.IsShort) :
    (run host env args).code = 0 ∨ (run host env args).code = 1 ∨
      (run host env args).code = failureCode ∧ (run host env args).stdout = [] := by
  rcases run_cases hshort with ⟨-, hzero⟩ | ⟨-, -, -, hzero⟩ | ⟨o, rs, -, hexit⟩ | hfailure
  · exact .inl hzero
  · exact .inl hzero
  · rw [hexit]
    exact rs.exitCode_cases.imp_right .inl
  · exact .inr (.inr hfailure)

theorem stdout_of_completes (h : Completes host env args o rs) (hshort : rs.IsShort) :
    (o.format = .pretty ∨ o.format = .terse → (run host env args).stdout = []) ∧
      (o.format = .junit → ∃ document,
        JUnit.ofResults (colorsReport env) o.verbose rs = .ok document ∧
          (run host env args).stdout = JUnit.render host.timestamp document ++ ['\n']) := by
  have hstdout := (run_of_completes h hshort).2
  constructor
  · rintro (hformat | hformat)
    · rw [hstdout, hformat, if_neg (by decide)]
    · rw [hstdout, hformat, if_neg (by decide)]
  · intro hformat
    obtain ⟨document, hdocument, htext⟩ :=
      text_draft hshort (colorsReport env) o.verbose host.timestamp
    exact ⟨document, hdocument, by rw [hstdout, if_pos hformat, htext]⟩

/-- The code is zero after guidance, a listing or a run without failures, one after a run with
failures, and two in all other cases. Standard output holds the names of a listing or the document
of a run, and nothing where the program fails or reports to people. -/
theorem run_exit (host : Host) (env : Environment) (args : List ByteString)
    (hshort : ∀ o rs, Completes host env args o rs → rs.IsShort) :
    ((run host env args).code = 0 ↔
      AsksForGuidance env args ∨ (∃ o trials, Lists host env args o trials) ∨
        ∃ o rs, Completes host env args o rs ∧ ∀ r ∈ rs.list, r.verdict ≠ some .fail) ∧
    ((run host env args).code = 1 ↔
      ∃ o rs, Completes host env args o rs ∧ ∃ r ∈ rs.list, r.verdict = some .fail) ∧
    ((run host env args).code ≠ 0 → (run host env args).code ≠ 1 →
      (run host env args).code = 2) ∧
    ((run host env args).started ≠ [] →
      ∃ o trials, CommandLine.read env args = .ok (.run o) ∧ o.listOnly = false ∧
        (Discovery.all host.tree o.config.testsDir).outcome = .ok trials) ∧
    ((run host env args).code = 2 → (run host env args).stdout = []) ∧
    (∀ o trials, Lists host env args o trials → (run host env args).stdout =
      (trials.filter (fun c => o.selection.accepts c.qualifiedName)).flatMap
        (fun c => c.qualifiedName ++ ": test\n".toList)) ∧
    ∀ o rs, Completes host env args o rs →
      (o.format = .pretty ∨ o.format = .terse → (run host env args).stdout = []) ∧
      (o.format = .junit → ∃ document,
        JUnit.ofResults (colorsReport env) o.verbose rs = .ok document ∧
          (run host env args).stdout = JUnit.render host.timestamp document ++ ['\n']) := by
  refine ⟨code_eq_zero_iff hshort, code_eq_one_iff hshort, fun hzero hone => ?_,
    listed_of_started, fun hcode => ?_, fun o trials h => (run_of_lists h).2.1,
    fun o rs h => stdout_of_completes h (hshort o rs h)⟩
  · rcases code_else hshort with h | h | h
    · exact absurd h hzero
    · exact absurd h hone
    · exact h.1
  · rcases code_else hshort with h | h | h
    · cases h.symm.trans hcode
    · cases h.symm.trans hcode
    · exact h.2

namespace Sample

/-- A place where the trial of each suite is accepted. -/
def site : Host := ⟨Session.Sample.tree, Session.Sample.lenient, "2026-01-01T00:00:00Z".toList⟩

def line : List ByteString :=
  [Utf8.encode "--compiler-path=adept".toList, Utf8.encode "--format=junit".toList]

def options : Options := { compilerPath := Session.Sample.adept.bytes, format := .junit }

def results : Results :=
  ⟨[Session.Sample.accepted, Session.Sample.rejected].map
    (Session.recorded Session.Sample.lenient Session.Sample.setup {})⟩

theorem read_line : CommandLine.read {} line = .ok (.run options) := by decide +kernel

theorem outcome_run :
    (Session.run site.tree site.compiler options.config options.selection).outcome =
      .ok results :=
  Session.run_of_launch Session.Sample.lenient Session.Sample.outcome_both
    Session.Sample.launchFault_none {}

theorem isShort_results : results.IsShort := by
  unfold Results.IsShort
  decide +kernel

end Sample

/-- The trial that should be rejected fails, and the document says so. -/
theorem run_exit_sample :
    (∀ o rs, Completes Sample.site {} Sample.line o rs → rs.IsShort) ∧
      Completes Sample.site {} Sample.line Sample.options Sample.results ∧
      (run Sample.site {} Sample.line).code = 1 ∧
      ∃ document, JUnit.ofResults false false Sample.results = .ok document ∧
        (run Sample.site {} Sample.line).stdout =
          JUnit.render Sample.site.timestamp document ++ ['\n'] := by
  have hcompletes : Completes Sample.site {} Sample.line Sample.options Sample.results :=
    ⟨Sample.read_line, rfl, Sample.outcome_run⟩
  have hshort : ∀ o rs, Completes Sample.site {} Sample.line o rs → rs.IsShort := by
    intro o rs h
    have hread := Sample.read_line.symm.trans h.read
    cases hread
    have hrun := Sample.outcome_run.symm.trans h.results
    cases hrun
    exact Sample.isShort_results
  obtain ⟨-, hone, -, -, -, -, hstdout⟩ := run_exit Sample.site {} Sample.line hshort
  refine ⟨hshort, hcompletes, hone.mpr ⟨_, _, hcompletes, ?_⟩, (hstdout _ _ hcompletes).2 rfl⟩
  decide +kernel

end Program

end CompilerTrials
