import CompilerTrials.Proofs.Sessions

/-!
# Listings and runs

A listing filters the names of all trials at once; a run asks for each trial when its turn comes.
Both get the trials from the same discovery, so a listing tells in advance what a run attempts.

* `Session.outcome_list`, `Session.idle_list`: a listing is the discovery, and starts nothing.
* `Session.names_attempted`: the names of the attempted results among those of all trials.
* `Session.run_eq_discovery_error_iff`: a run has the error of a listing exactly when it is one of
  the discovery, as the other errors of a run name the compiler.
* `Session.list_agrees_with_run`: a completed run attempted what the listing gives, and a listing
  fails when and as the run does for want of a suite.
-/

namespace CompilerTrials

variable {t : FileTree} {compiler : Compiler} {config : Config} {selection : Selection}
variable {testsDir : ByteString} {e : Error}

theorem Discovery.error_of_all (h : (all t testsDir).outcome = .error e) :
    ∃ suite source, e = .discovery (Suite.dir suite testsDir) source := by
  rw [outcome_all] at h
  cases haccepted : (ofSuite t testsDir .success).outcome with
  | error first =>
    rw [haccepted] at h
    obtain rfl := Except.error.inj h
    exact ⟨.success, error_of_ofSuite haccepted⟩
  | ok accepted =>
    cases hrejected : (ofSuite t testsDir .error).outcome with
    | error second =>
      rw [haccepted, hrejected] at h
      obtain rfl := Except.error.inj h
      exact ⟨.error, error_of_ofSuite hrejected⟩
    | ok rejected =>
      rw [haccepted, hrejected] at h
      cases h

namespace Session

/-! ## Listings -/

theorem outcome_list (t : FileTree) (config : Config) (selection : Selection) :
    (list t config selection).outcome =
      (Discovery.all t config.testsDir).outcome >>= fun trials =>
        .ok ((trials.map Trial.qualifiedName).filter selection.accepts) := by
  rw [list, Transcript.outcome_bind]
  rfl

theorem idle_list (t : FileTree) (config : Config) (selection : Selection) :
    (list t config selection).Idle :=
  (Discovery.idle_all t config.testsDir).bind fun _ => Transcript.idle_done _

theorem list_eq_error_iff :
    (list t config selection).outcome = .error e ↔
      (Discovery.all t config.testsDir).outcome = .error e := by
  rw [outcome_list]
  cases (Discovery.all t config.testsDir).outcome with
  | error first =>
    exact ⟨fun h => congrArg Except.error (Except.error.inj h),
      fun h => congrArg Except.error (Except.error.inj h)⟩
  | ok trials => exact ⟨fun h => (nomatch h), fun h => (nomatch h)⟩

/-! ## Runs -/

theorem isSkipped_recorded (compiler : Compiler) (config : Config) (selection : Selection)
    (c : Trial) : (recorded compiler config selection c).isSkipped =
      !selection.accepts c.qualifiedName := by
  by_cases hselected : selection.accepts c.qualifiedName = true
  · simp [recorded, hselected, TrialResult.ran, TrialResult.isSkipped]
  · simp [recorded, hselected, TrialResult.skipped, TrialResult.isSkipped]

/-- The names of the results that are not left out, in their order and as often as they occur. -/
def attemptedNames (rs : Results) : List Text :=
  (rs.list.filter (fun r => !r.isSkipped)).map (fun r => r.trial.qualifiedName)

theorem names_attempted (compiler : Compiler) (config : Config) (selection : Selection)
    (trials : List Trial) :
    attemptedNames ⟨trials.map (recorded compiler config selection)⟩ =
      (trials.map Trial.qualifiedName).filter selection.accepts := by
  unfold attemptedNames
  induction trials with
  | nil => rfl
  | cons c rest ih =>
    by_cases hselected : selection.accepts c.qualifiedName = true
    · simp [isSkipped_recorded, hselected, recorded_trial, ih]
    · simp [isSkipped_recorded, hselected, ih]

/-- Where all suites can be listed, an error of the run names the compiler. -/
theorem run_eq_discovery_error_iff (compiler : Compiler) {root : ByteString} {source : IoFault} :
    (run t compiler config selection).outcome = .error (.discovery root source) ↔
      (Discovery.all t config.testsDir).outcome = .error (.discovery root source) := by
  cases hall : (Discovery.all t config.testsDir).outcome with
  | error first =>
    rw [(run_of_listing_error hall).1]
    exact ⟨fun h => congrArg Except.error (Except.error.inj h),
      fun h => congrArg Except.error (Except.error.inj h)⟩
  | ok trials =>
    refine ⟨fun h => ?_, fun h => (nomatch h)⟩
    by_cases hblocked : Blocked t config selection trials
    · obtain ⟨hselected, fault, hfault⟩ := hblocked
      rw [(run_of_blocked compiler hall hfault hselected).1] at h
      cases h
    · rw [(run_of_not_blocked compiler hall hblocked).1] at h
      cases h

/-- A listing gives the names of what a completed run attempted. It fails exactly when the run
fails because a suite cannot be listed, with the same error, and it starts nothing. -/
theorem list_agrees_with_run (t : FileTree) (compiler : Compiler) (config : Config)
    (selection : Selection) :
    (∀ rs, (run t compiler config selection).outcome = .ok rs →
      (list t config selection).outcome = .ok (attemptedNames rs)) ∧
    (∀ e, (list t config selection).outcome = .error e ↔
      (run t compiler config selection).outcome = .error e ∧
        ∃ root source, e = .discovery root source) ∧
    (list t config selection).started = [] := by
  refine ⟨fun rs h => ?_, fun e => ⟨fun h => ?_, ?_⟩, (idle_list t config selection).started⟩
  · obtain ⟨trials, hall, rfl, -⟩ := run_of_ok h
    rw [outcome_list, hall, names_attempted]
    rfl
  · have hall := list_eq_error_iff.mp h
    obtain ⟨suite, source, rfl⟩ := Discovery.error_of_all hall
    exact ⟨(run_eq_discovery_error_iff compiler).mpr hall, _, source, rfl⟩
  · rintro ⟨hrun, root, source, rfl⟩
    exact list_eq_error_iff.mpr ((run_eq_discovery_error_iff compiler).mp hrun)

end Session

end CompilerTrials
