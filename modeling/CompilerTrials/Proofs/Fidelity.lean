import CompilerTrials.Proofs.Sessions

/-!
# What a run records

The results of a completed run against what the compiler did in it.

* `Departure.IsClean`, `Suite.judge_eq_pass_iff`: the verdict on a departure.
* `Session.Records`: what a result says of its trial is so.
* `Session.run_records`: all results of a completed run are such, one for each trial and in the
  order of the trials, and the run started what it recorded.
-/

namespace CompilerTrials

variable {t : FileTree} {compiler : Compiler} {config : Config} {selection : Selection}
variable {c : Trial} {trials : List Trial} {testsDir : ByteString}

/-! ## Verdicts -/

/-- The process leaves by itself, with a number whose low byte is zero. -/
def Departure.IsClean : Departure → Prop
  | exit code => code % 0x100 = 0
  | kill _ => False

/-- Processes are killed only by signals that a wait status can name. -/
def Compiler.KillsBySignals (compiler : Compiler) : Prop :=
  ∀ i signal, (compiler i).departure = .kill signal → 0 < signal ∧ signal < 0x7F

theorem WaitStatus.isClean_iff (w : WaitStatus) : w.isClean = true ↔ w.bits.toNat = 0 := by
  unfold isClean
  rw [decide_eq_true_iff, ← BitVec.toNat_inj]
  rfl

theorem WaitStatus.toNat_ofExit (code : Int) :
    (ofExit code).bits.toNat = (code % 0x100).toNat * 0x100 := by
  have hbound : (code % 0x100).toNat * 0x100 < 2 ^ 32 := by omega
  unfold ofExit
  rw [BitVec.toNat_ofNat, Nat.mod_eq_of_lt hbound]

theorem WaitStatus.toNat_ofSignal {signal : Nat} (h : signal < 0x7F) :
    (ofSignal signal).bits.toNat = signal := by
  have hbound : signal < 2 ^ 32 := by omega
  unfold ofSignal
  rw [BitVec.toNat_ofNat, Nat.mod_eq_of_lt hbound]

theorem WaitStatus.isClean_ofExit (code : Int) :
    (WaitStatus.ofExit code).isClean = true ↔ code % 0x100 = 0 := by
  rw [isClean_iff, toNat_ofExit]
  omega

theorem WaitStatus.not_isClean_ofSignal {signal : Nat} (h : 0 < signal ∧ signal < 0x7F) :
    ¬ (WaitStatus.ofSignal signal).isClean = true := by
  rw [isClean_iff, toNat_ofSignal h.2]
  omega

theorem isClean_status (hsignals : compiler.KillsBySignals) (i : Invocation) :
    (compiler i).departure.status.isClean = true ↔ (compiler i).departure.IsClean := by
  cases hdeparture : (compiler i).departure with
  | exit code => exact WaitStatus.isClean_ofExit code
  | kill signal =>
    have hkilled := WaitStatus.not_isClean_ofSignal (hsignals i signal hdeparture)
    exact ⟨fun h => absurd h hkilled, fun h => absurd h id⟩

/-- What is below `success` passes if it is clean, what is below `error` if it is not. -/
theorem Suite.judge_eq_pass_iff (suite : Suite) (w : WaitStatus) :
    suite.expectation.judge w = .pass ↔ (suite = .success ↔ w.isClean = true) := by
  cases suite <;> cases hclean : w.isClean <;> simp [Suite.expectation, Expectation.judge, hclean]

namespace Session

/-! ## Results -/

/-- The command line for a trial. -/
def commandLine (config : Config) (c : Trial) : List ByteString :=
  let infrastructure :=
    match config.infrastructure with
    | .disabled => []
    | .enabled dir => [Utf8.encode "--infrastructure".toList, dir]
  let target :=
    match c.kind with
    | .module => c.path
    | .singleFile => c.path ++ Path.slash :: Utf8.encode "main.adept".toList
  config.compilerPath :: infrastructure ++ [target]

theorem vector_ofTrial (config : Config) (h : (Discovery.all t testsDir).outcome = .ok trials)
    (hc : c ∈ trials) : (Invocation.ofTrial config c).vector = commandLine config c := by
  obtain ⟨suite, loc, e, -, rfl⟩ := Discovery.mem_all h hc
  simp only [Invocation.vector, Invocation.ofTrial, Trial.target_below]
  rfl

/-- A result is that of a trial that was left out, or it says what was started for the trial, what
that wrote, and whether it ended as the suite wants it. -/
structure Records (compiler : Compiler) (config : Config) (selection : Selection)
    (r : TrialResult) : Prop where
  skipped_iff : (r.invocation = none ∧ r.run = none ∧ r.verdict = none) ↔
    ¬ selection.accepts r.trial.qualifiedName = true
  ran : selection.accepts r.trial.qualifiedName = true →
    ∃ i run verdict, r.invocation = some i ∧ r.run = some run ∧ r.verdict = some verdict ∧
      i.vector = commandLine config r.trial ∧
      run.stdout = Utf8.decodeLossy (compiler i).stdout ∧
      run.stderr = Utf8.decodeLossy (compiler i).stderr ∧
      (verdict = .pass ↔ (r.trial.suite = .success ↔ (compiler i).departure.IsClean))

theorem records_recorded (hsignals : compiler.KillsBySignals)
    (hvector : (Invocation.ofTrial config c).vector = commandLine config c) :
    Records compiler config selection (recorded compiler config selection c) := by
  have htrial := recorded_trial compiler config selection c
  by_cases hselected : selection.accepts c.qualifiedName = true
  · have hrecorded : recorded compiler config selection c =
        .ran c (Invocation.ofTrial config c) (compiler (Invocation.ofTrial config c)).observe
          (c.expectation.judge (compiler (Invocation.ofTrial config c)).departure.status) := by
      simp only [recorded, if_pos hselected]
      rfl
    constructor
    · rw [htrial, hrecorded]
      simp [TrialResult.ran, hselected]
    · intro _
      rw [htrial, hrecorded]
      refine ⟨_, _, _, rfl, rfl, rfl, hvector, rfl, rfl, ?_⟩
      rw [← isClean_status hsignals]
      exact Suite.judge_eq_pass_iff c.suite _
  · have hrecorded : recorded compiler config selection c = .skipped c := by
      simp only [recorded, if_neg hselected]
    constructor
    · rw [htrial, hrecorded]
      simp [TrialResult.skipped, hselected]
    · intro h
      rw [htrial] at h
      exact absurd h hselected

/-! ## Completed runs -/

namespace Sample

def hello : Name := ⟨Utf8.encode "hello".toList, by decide⟩

def typo : Name := ⟨Utf8.encode "typo".toList, by decide⟩

def marker : Name := ⟨Utf8.encode markerFile, by decide⟩

def bin : Name := ⟨FileTree.programDir, by decide⟩

def adept : Name := ⟨Utf8.encode "adept".toList, by decide⟩

/-- A trial in each suite, that of `error` a module, and the compiler. -/
def tree : FileTree where
  nodes :=
    [([Suite.success.entry], .dir), ([hello, Suite.success.entry], .dir),
      ([Suite.error.entry], .dir), ([typo, Suite.error.entry], .dir),
      ([marker, typo, Suite.error.entry], .file .plain), ([bin], .dir),
      ([adept, bin], .file .program)]
  nodup := by decide
  workingDir := []

def setup : Config := ⟨adept.bytes, Path.here, .disabled⟩

def accepted : Trial :=
  ⟨"hello".toList, .success, Utf8.encode "./success/hello".toList, .singleFile⟩

def rejected : Trial := ⟨"typo".toList, .error, Utf8.encode "./error/typo".toList, .module⟩

/-- A compiler that crashes on the module. -/
def stub : Compiler := fun i =>
  ⟨[], [], if i.vector.getLast? = some rejected.path then .kill 11 else .exit 0, .zero⟩

theorem stub_killsBySignals : stub.KillsBySignals := by
  intro i signal h
  simp only [stub] at h
  split at h
  · cases h
    decide
  · cases h

theorem outcome_success :
    (Discovery.ofSuite tree setup.testsDir .success).outcome = .ok [accepted] := by
  have hroot : tree.resolve (Suite.success.dir setup.testsDir) = .ok [Suite.success.entry] := by
    decide +kernel
  rw [Discovery.ofSuite_of_sorted hroot (by decide) (by decide +kernel)]
  decide +kernel

theorem outcome_error :
    (Discovery.ofSuite tree setup.testsDir .error).outcome = .ok [rejected] := by
  have hroot : tree.resolve (Suite.error.dir setup.testsDir) = .ok [Suite.error.entry] := by
    decide +kernel
  rw [Discovery.ofSuite_of_sorted hroot (by decide) (by decide +kernel)]
  decide +kernel

theorem outcome_both :
    (Discovery.all tree setup.testsDir).outcome = .ok [accepted, rejected] := by
  rw [Discovery.outcome_all, outcome_success, outcome_error]
  rfl

theorem launchFault_none : launchFault tree setup = none := by decide +kernel

end Sample

/-- The results of a completed run are those of the trials of both suites, one for each and in
order, and say what the compiler did. What was started is what they say was started. -/
theorem run_records (hsignals : compiler.KillsBySignals) {rs : Results}
    (h : (run t compiler config selection).outcome = .ok rs) :
    ∃ accepted rejected,
      (Discovery.ofSuite t config.testsDir .success).outcome = .ok accepted ∧
      (Discovery.ofSuite t config.testsDir .error).outcome = .ok rejected ∧
      (Discovery.all t config.testsDir).outcome = .ok (accepted ++ rejected) ∧
      (∀ c ∈ accepted, c.suite = .success) ∧ (∀ c ∈ rejected, c.suite = .error) ∧
      rs.list.map TrialResult.trial = accepted ++ rejected ∧
      (∀ r ∈ rs.list, Records compiler config selection r) ∧
      (run t compiler config selection).started = rs.list.filterMap TrialResult.invocation := by
  obtain ⟨trials, hall, rfl, hstarted⟩ := run_of_ok h
  obtain ⟨accepted, rejected, haccepted, hrejected, rfl⟩ := Discovery.all_of_ok hall
  refine ⟨accepted, rejected, haccepted, hrejected, hall, ?_, ?_, ?_, ?_, hstarted⟩
  · exact fun c hc => Discovery.suite_of_mem haccepted hc
  · exact fun c hc => Discovery.suite_of_mem hrejected hc
  · exact map_trial_recorded compiler config selection _
  · intro r hr
    obtain ⟨c, hc, rfl⟩ := List.mem_map.mp hr
    exact records_recorded hsignals (vector_ofTrial config hall hc)

theorem run_records_sample :
    ∃ rs, (run Sample.tree Sample.stub Sample.setup {}).outcome = .ok rs ∧
      rs.list.map TrialResult.trial = [Sample.accepted, Sample.rejected] ∧
      (∀ r ∈ rs.list, Records Sample.stub Sample.setup {} r) ∧
      (run Sample.tree Sample.stub Sample.setup {}).started =
        [Sample.accepted, Sample.rejected].map (Invocation.ofTrial Sample.setup) := by
  have hfree : ¬ Blocked Sample.tree Sample.setup {} [Sample.accepted, Sample.rejected] := by
    rintro ⟨-, fault, hfault⟩
    cases Sample.launchFault_none.symm.trans hfault
  obtain ⟨houtcome, -⟩ := run_of_not_blocked Sample.stub Sample.outcome_both hfree
  obtain ⟨accepted, rejected, -, -, hall, -, -, htrials, hrecords, hstarted⟩ :=
    run_records Sample.stub_killsBySignals houtcome
  rw [Sample.outcome_both] at hall
  refine ⟨_, houtcome, htrials.trans (Except.ok.inj hall).symm, hrecords, ?_⟩
  rw [hstarted, filterMap_invocation_recorded]
  decide +kernel

end Session

end CompilerTrials
