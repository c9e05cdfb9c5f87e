import CompilerTrials.Proofs.Listing
import CompilerTrials.Session

/-!
# What a run starts

A run lists both suites before it starts anything, and then goes over the trials in order. Whether
the compiler can be started does not depend on the trial, as no path of a trial holds a NUL byte
(`Session.startFault_ofTrial`). So a run that starts anything starts all selected trials.

* `Transcript.Idle`, `Discovery.idle_all`: a listing starts nothing and warns of nothing.
* `Session.results_of_startable`, `Session.results_of_fault`: what is said, started and recorded of
  a list of trials.
* `Discovery.outcome_all`: the trials of both suites, or the first error.
* `Session.run_all_or_nothing`: when a run ends in an error, in which one, and that nothing is
  started then.
-/

namespace CompilerTrials

variable {t : FileTree} {compiler : Compiler} {config : Config} {selection : Selection}
variable {c : Trial} {trials : List Trial} {suite : Suite} {root testsDir : ByteString}
variable {loc : Location} {e : Error}

/-! ## Listings only look -/

namespace Transcript

variable {α β : Type} {x : Transcript α} {f : α → Transcript β}

/-- A part of a run that starts nothing, and warns of nothing. -/
structure Idle (x : Transcript α) : Prop where
  started : x.started = []
  unalarmed : ∀ e ∈ x.events, e.level ≠ .warn

theorem idle_done (a : α) : (done a).Idle where
  started := rfl
  unalarmed := List.forall_mem_nil _

theorem idle_fail (e : Error) : (fail e : Transcript α).Idle where
  started := rfl
  unalarmed := List.forall_mem_nil _

theorem idle_say {e : Event} (h : e.level ≠ .warn) : (say e).Idle where
  started := rfl
  unalarmed := List.forall_mem_singleton.mpr h

theorem Idle.bind (hx : x.Idle) (hf : ∀ a, (f a).Idle) : (x >>= f).Idle := by
  cases hout : x.outcome with
  | ok a =>
    rw [bind_of_ok hout]
    refine ⟨?_, List.forall_mem_append.mpr ⟨hx.unalarmed, (hf a).unalarmed⟩⟩
    rw [hx.started, (hf a).started, List.append_nil]
  | error e =>
    rw [bind_of_error hout]
    exact ⟨hx.started, hx.unalarmed⟩

end Transcript

namespace Discovery

open Transcript (idle_done idle_fail idle_say)

theorem idle_inspect (t : FileTree) (suite : Suite) (root : ByteString) (loc : Location)
    (entry : Name × Node) : (inspect t suite root loc entry).Idle := by
  have hsaid {e : Event} (found : Option Trial) (h : e.level ≠ .warn) :
      (Transcript.say e >>= fun _ => Transcript.done found).Idle :=
    (idle_say h).bind fun _ => idle_done found
  have hdebug : LogLevel.debug ≠ .warn := by decide
  have htrace : LogLevel.trace ≠ .warn := by decide
  simp only [inspect]
  split
  · exact hsaid _ hdebug
  · exact hsaid _ htrace
  · split
    · split
      · exact idle_fail _
      · split
        · exact hsaid _ hdebug
        · exact hsaid _ htrace
    · exact hsaid _ htrace
    · exact idle_fail _

theorem idle_survey (t : FileTree) (suite : Suite) (root : ByteString) (loc : Location)
    (entries : List (Name × Node)) : (survey t suite root loc entries).Idle := by
  induction entries with
  | nil => exact idle_done []
  | cons entry rest ih =>
    exact (idle_inspect t suite root loc entry).bind fun _ => ih.bind fun _ => idle_done _

theorem idle_ofSuite (t : FileTree) (testsDir : ByteString) (suite : Suite) :
    (ofSuite t testsDir suite).Idle := by
  simp only [ofSuite]
  split
  · exact idle_fail _
  · split
    · exact idle_survey ..
    · exact idle_fail _

theorem idle_all (t : FileTree) (testsDir : ByteString) : (all t testsDir).Idle :=
  (idle_ofSuite t testsDir .success).bind fun _ =>
    (idle_ofSuite t testsDir .error).bind fun _ => idle_done _

/-! ## The trials of both suites -/

theorem outcome_all (t : FileTree) (testsDir : ByteString) :
    (all t testsDir).outcome =
      (ofSuite t testsDir .success).outcome >>= fun accepted =>
        (ofSuite t testsDir .error).outcome >>= fun rejected => .ok (accepted ++ rejected) := by
  simp [all, Transcript.done]

theorem all_of_ok (h : (all t testsDir).outcome = .ok trials) :
    ∃ accepted rejected, (ofSuite t testsDir .success).outcome = .ok accepted ∧
      (ofSuite t testsDir .error).outcome = .ok rejected ∧ trials = accepted ++ rejected := by
  rw [outcome_all] at h
  cases haccepted : (ofSuite t testsDir .success).outcome with
  | error e =>
    rw [haccepted] at h
    cases h
  | ok accepted =>
    cases hrejected : (ofSuite t testsDir .error).outcome with
    | error e =>
      rw [haccepted, hrejected] at h
      cases h
    | ok rejected =>
      rw [haccepted, hrejected] at h
      cases h
      exact ⟨accepted, rejected, rfl, rfl, rfl⟩

/-- A listed trial is that of an entry of its suite. -/
theorem mem_ofSuite (h : (ofSuite t testsDir suite).outcome = .ok trials) (hc : c ∈ trials) :
    ∃ loc e, t.resolve (suite.dir testsDir) = .ok loc ∧
      c = Trial.below t suite (suite.dir testsDir) e := by
  obtain ⟨loc, hlistable⟩ := listable_of_ok h
  rw [ofSuite_of_listable hlistable] at h
  obtain rfl := Except.ok.inj h
  obtain ⟨names, -, -, htrials⟩ := lists_of_listable hlistable
  rw [htrials] at hc
  obtain ⟨e, -, rfl⟩ := List.mem_map.mp hc
  exact ⟨loc, e, hlistable.resolves, rfl⟩

theorem suite_of_mem (h : (ofSuite t testsDir suite).outcome = .ok trials) (hc : c ∈ trials) :
    c.suite = suite := by
  obtain ⟨loc, e, -, rfl⟩ := mem_ofSuite h hc
  rfl

theorem mem_all (h : (all t testsDir).outcome = .ok trials) (hc : c ∈ trials) :
    ∃ suite loc e, t.resolve (Suite.dir suite testsDir) = .ok loc ∧
      c = Trial.below t suite (suite.dir testsDir) e := by
  obtain ⟨accepted, rejected, haccepted, hrejected, rfl⟩ := all_of_ok h
  rcases List.mem_append.mp hc with hmem | hmem
  · exact ⟨.success, mem_ofSuite haccepted hmem⟩
  · exact ⟨.error, mem_ofSuite hrejected hmem⟩

/-- The path of a trial to the compiler holds no NUL byte: its directory was looked up. -/
theorem nul_not_mem_target (h : (all t testsDir).outcome = .ok trials) (hc : c ∈ trials) :
    0 ∉ c.target := by
  have hentry : 0 ∉ Utf8.encode entryPoint := by decide
  obtain ⟨suite, loc, e, hroot, rfl⟩ := mem_all h hc
  have hnul := FileTree.nul_not_mem_of_resolve hroot
  rw [Trial.target_below]
  split <;> simp [hnul, e.nul_not_mem, hentry, Path.slash]

end Discovery

namespace Session

/-! ## Starting the compiler -/

/-- Why the compiler cannot be started, whatever it is to compile. -/
def launchFault (t : FileTree) (config : Config) : Option Fault :=
  t.startFault config.compilerPath config.infrastructure.args

theorem startFault_ofTrial (t : FileTree) (config : Config) (hc : 0 ∉ c.target) :
    t.startFault config.compilerPath (Invocation.ofTrial config c).args =
      launchFault t config := by
  have hargs : (∃ a ∈ (Invocation.ofTrial config c).args, 0 ∈ a) ↔
      ∃ a ∈ config.infrastructure.args, 0 ∈ a := by
    simp [Invocation.ofTrial, or_and_right, exists_or, hc]
  simp only [launchFault, FileTree.startFault, hargs]

/-- The result of a trial in a run that can start the compiler. -/
def recorded (compiler : Compiler) (config : Config) (selection : Selection) (c : Trial) :
    TrialResult :=
  if selection.accepts c.qualifiedName then
    let i := Invocation.ofTrial config c
    let run := (compiler i).observe
    .ran c i run (c.expectation.judge run.status)
  else .skipped c

/-- What such a run says of the trial. -/
def said (compiler : Compiler) (config : Config) (selection : Selection) (c : Trial) :
    List Event :=
  if selection.accepts c.qualifiedName then
    let i := Invocation.ofTrial config c
    let run := (compiler i).observe
    let crash := (run.status.signal.map (fun signal => Event.crashed signal i)).toList
    [.invoking i, .ended run.status run.duration] ++ crash ++
      [.judged c (c.expectation.judge run.status)]
  else [.skipped c]

theorem execute_of_startable (compiler : Compiler) {i : Invocation}
    (h : t.startFault i.program i.args = none) :
    execute t compiler i =
      ⟨[.invoking i, .ended (compiler i).observe.status (compiler i).observe.duration] ++
          ((compiler i).observe.status.signal.map (fun signal => Event.crashed signal i)).toList,
        [i], .ok (compiler i).observe⟩ := by
  simp only [execute, h]
  cases hsignal : (compiler i).observe.status.signal <;> rfl

theorem execute_of_fault (compiler : Compiler) {i : Invocation} {fault : Fault}
    (h : t.startFault i.program i.args = some fault) :
    execute t compiler i = ⟨[.invoking i], [], .error (.start i.program (.plain fault))⟩ := by
  simp only [execute, h]
  rfl

theorem result_of_unselected (t : FileTree) (compiler : Compiler) (config : Config)
    (h : ¬ selection.accepts c.qualifiedName = true) :
    result t compiler config selection c = ⟨[.skipped c], [], .ok (.skipped c)⟩ := by
  simp only [result, if_neg h]
  rfl

theorem result_of_startable (compiler : Compiler)
    (h : selection.accepts c.qualifiedName = true →
      t.startFault config.compilerPath (Invocation.ofTrial config c).args = none) :
    result t compiler config selection c =
      ⟨said compiler config selection c,
        (recorded compiler config selection c).invocation.toList,
        .ok (recorded compiler config selection c)⟩ := by
  by_cases hselected : selection.accepts c.qualifiedName = true
  · have hexecute := execute_of_startable compiler (i := Invocation.ofTrial config c) (h hselected)
    simp only [result, attempt, said, recorded, if_pos hselected]
    rw [Transcript.bind_of_ok (by rw [hexecute]), hexecute]
    rfl
  · rw [result_of_unselected t compiler config hselected]
    simp only [said, recorded, if_neg hselected]
    rfl

theorem result_of_fault (compiler : Compiler) {fault : Fault}
    (hselected : selection.accepts c.qualifiedName = true)
    (h : t.startFault config.compilerPath (Invocation.ofTrial config c).args = some fault) :
    result t compiler config selection c =
      ⟨[.invoking (Invocation.ofTrial config c)], [],
        .error (.start config.compilerPath (.plain fault))⟩ := by
  have hexecute := execute_of_fault compiler (i := Invocation.ofTrial config c) h
  simp only [result, attempt, if_pos hselected]
  rw [Transcript.bind_of_error (by rw [hexecute]), hexecute]
  rfl

/-! ## All trials -/

/-- Where the compiler can be started for all that is selected, every trial gets its result, and
what is started are the recorded invocations. -/
theorem results_of_startable (compiler : Compiler)
    (h : ∀ c ∈ trials, selection.accepts c.qualifiedName = true →
      t.startFault config.compilerPath (Invocation.ofTrial config c).args = none) :
    results t compiler config selection trials =
      ⟨trials.flatMap (said compiler config selection),
        (trials.map (recorded compiler config selection)).filterMap TrialResult.invocation,
        .ok (trials.map (recorded compiler config selection))⟩ := by
  induction trials with
  | nil => rfl
  | cons c rest ih =>
    have hfirst := result_of_startable compiler (h c List.mem_cons_self)
    have hrest := ih fun c hc => h c (List.mem_cons_of_mem _ hc)
    simp only [results]
    rw [Transcript.bind_of_ok (by rw [hfirst]), hrest, hfirst]
    cases hinvocation : (recorded compiler config selection c).invocation <;>
      simp [hinvocation, Bind.bind, Transcript.bind, Transcript.done]

/-- Where it cannot, the first selected trial ends the run, and nothing is started. -/
theorem results_of_fault (compiler : Compiler) {fault : Fault}
    (h : ∀ c ∈ trials,
      t.startFault config.compilerPath (Invocation.ofTrial config c).args = some fault)
    (hselected : ∃ c ∈ trials, selection.accepts c.qualifiedName = true) :
    (results t compiler config selection trials).outcome =
        .error (.start config.compilerPath (.plain fault)) ∧
      (results t compiler config selection trials).started = [] := by
  induction trials with
  | nil =>
    obtain ⟨c, hc, -⟩ := hselected
    cases hc
  | cons first rest ih =>
    by_cases hfirst : selection.accepts first.qualifiedName = true
    · have hresult := result_of_fault compiler hfirst (h first List.mem_cons_self)
      simp only [results]
      rw [Transcript.bind_of_error (by rw [hresult]), hresult]
      exact ⟨rfl, rfl⟩
    · have hresult := result_of_unselected t compiler config hfirst
      have hrest : ∃ c ∈ rest, selection.accepts c.qualifiedName = true := by
        obtain ⟨c, hc, hsel⟩ := hselected
        rcases List.mem_cons.mp hc with rfl | hmem
        · exact absurd hsel hfirst
        · exact ⟨c, hmem, hsel⟩
      obtain ⟨houtcome, hstarted⟩ := ih (fun c hc => h c (List.mem_cons_of_mem _ hc)) hrest
      simp only [results]
      rw [Transcript.bind_of_ok (by rw [hresult]), Transcript.bind_of_error houtcome, hresult]
      exact ⟨rfl, hstarted⟩

/-! ## A whole run -/

/-- Something is selected, and the compiler cannot be started. -/
def Blocked (t : FileTree) (config : Config) (selection : Selection) (trials : List Trial) : Prop :=
  (∃ c ∈ trials, selection.accepts c.qualifiedName = true) ∧
    ∃ fault, launchFault t config = some fault

theorem run_of_listing_error (h : (Discovery.all t config.testsDir).outcome = .error e) :
    (run t compiler config selection).outcome = .error e ∧
      (run t compiler config selection).started = [] := by
  rw [run, Transcript.bind_of_error h]
  exact ⟨rfl, (Discovery.idle_all t config.testsDir).started⟩

theorem run_of_trials (h : (Discovery.all t config.testsDir).outcome = .ok trials) :
    (run t compiler config selection).outcome =
        Results.mk <$> (results t compiler config selection trials).outcome ∧
      (run t compiler config selection).started =
        (results t compiler config selection trials).started := by
  have hnone := (Discovery.idle_all t config.testsDir).started
  rw [run, Transcript.bind_of_ok h, hnone]
  obtain ⟨events, started, outcome⟩ := results t compiler config selection trials
  cases outcome with
  | error e => exact ⟨rfl, by simp [Bind.bind, Transcript.bind, Transcript.say, Functor.map]⟩
  | ok rs =>
    refine ⟨rfl, ?_⟩
    simp [Bind.bind, Transcript.bind, Transcript.say, Functor.map, Transcript.done]

theorem recorded_trial (compiler : Compiler) (config : Config) (selection : Selection)
    (c : Trial) : (recorded compiler config selection c).trial = c := by
  unfold recorded
  split <;> rfl

theorem map_trial_recorded (compiler : Compiler) (config : Config) (selection : Selection)
    (trials : List Trial) :
    (trials.map (recorded compiler config selection)).map TrialResult.trial = trials := by
  simp [Function.comp_def, recorded_trial]

/-- The recorded invocations are those of the selected trials. -/
theorem filterMap_invocation_recorded (compiler : Compiler) (config : Config)
    (selection : Selection) (trials : List Trial) :
    (trials.map (recorded compiler config selection)).filterMap TrialResult.invocation =
      (trials.filter (fun c => selection.accepts c.qualifiedName)).map
        (Invocation.ofTrial config) := by
  induction trials with
  | nil => rfl
  | cons c rest ih =>
    by_cases hselected : selection.accepts c.qualifiedName = true
    · simp [recorded, hselected, TrialResult.ran, ih]
    · simp [recorded, hselected, TrialResult.skipped, ih]

/-- In a run that is not blocked the compiler can be started for all that is selected. -/
theorem startable_of_not_blocked (htrials : (Discovery.all t config.testsDir).outcome = .ok trials)
    (h : ¬ Blocked t config selection trials) :
    ∀ c ∈ trials, selection.accepts c.qualifiedName = true →
      t.startFault config.compilerPath (Invocation.ofTrial config c).args = none := by
  intro c hc hselected
  rw [startFault_ofTrial t config (Discovery.nul_not_mem_target htrials hc)]
  cases hlaunch : launchFault t config with
  | none => rfl
  | some fault => exact absurd ⟨⟨c, hc, hselected⟩, fault, hlaunch⟩ h

/-- A run that is not blocked records all trials. -/
theorem run_of_not_blocked (compiler : Compiler)
    (htrials : (Discovery.all t config.testsDir).outcome = .ok trials)
    (h : ¬ Blocked t config selection trials) :
    (run t compiler config selection).outcome =
        .ok ⟨trials.map (recorded compiler config selection)⟩ ∧
      (run t compiler config selection).started =
        (trials.map (recorded compiler config selection)).filterMap TrialResult.invocation := by
  obtain ⟨houtcome, hstarted⟩ := run_of_trials (t := t) htrials
  rw [houtcome, hstarted, results_of_startable compiler (startable_of_not_blocked htrials h)]
  exact ⟨rfl, rfl⟩

theorem run_of_blocked (compiler : Compiler) {fault : Fault}
    (htrials : (Discovery.all t config.testsDir).outcome = .ok trials)
    (hfault : launchFault t config = some fault)
    (hselected : ∃ c ∈ trials, selection.accepts c.qualifiedName = true) :
    (run t compiler config selection).outcome =
        .error (.start config.compilerPath (.plain fault)) ∧
      (run t compiler config selection).started = [] := by
  have hstart : ∀ c ∈ trials,
      t.startFault config.compilerPath (Invocation.ofTrial config c).args = some fault := by
    intro c hc
    rw [startFault_ofTrial t config (Discovery.nul_not_mem_target htrials hc), hfault]
  obtain ⟨houtcome, hstarted⟩ := run_of_trials (t := t) htrials
  obtain ⟨hresults, hnone⟩ := results_of_fault compiler hstart hselected
  rw [houtcome, hstarted, hresults, hnone]
  exact ⟨rfl, rfl⟩

/-- A run completes wherever both suites can be listed and the compiler can be started. -/
theorem run_of_launch (compiler : Compiler)
    (htrials : (Discovery.all t config.testsDir).outcome = .ok trials)
    (hlaunch : launchFault t config = none) (selection : Selection) :
    (run t compiler config selection).outcome =
      .ok ⟨trials.map (recorded compiler config selection)⟩ := by
  have hfree : ¬ Blocked t config selection trials := by
    rintro ⟨-, fault, hfault⟩
    cases hlaunch.symm.trans hfault
  exact (run_of_not_blocked compiler htrials hfree).1

/-- A completed run holds the result of each trial, and it started what it recorded. -/
theorem run_of_ok {rs : Results} (h : (run t compiler config selection).outcome = .ok rs) :
    ∃ trials, (Discovery.all t config.testsDir).outcome = .ok trials ∧
      rs = ⟨trials.map (recorded compiler config selection)⟩ ∧
      (run t compiler config selection).started = rs.list.filterMap TrialResult.invocation := by
  cases hall : (Discovery.all t config.testsDir).outcome with
  | error e =>
    rw [(run_of_listing_error hall).1] at h
    cases h
  | ok trials =>
    by_cases hblocked : Blocked t config selection trials
    · obtain ⟨hselected, fault, hfault⟩ := hblocked
      rw [(run_of_blocked compiler hall hfault hselected).1] at h
      cases h
    · obtain ⟨houtcome, hstarted⟩ := run_of_not_blocked compiler hall hblocked
      rw [houtcome] at h
      obtain rfl := Except.ok.inj h
      exact ⟨trials, rfl, rfl, hstarted⟩

theorem exists_recorded_of_run {rs : Results} {r : TrialResult}
    (h : (run t compiler config selection).outcome = .ok rs) (hr : r ∈ rs.list) :
    ∃ c, r = recorded compiler config selection c := by
  obtain ⟨trials, -, rfl, -⟩ := run_of_ok h
  obtain ⟨c, -, hc⟩ := List.mem_map.mp hr
  exact ⟨c, hc.symm⟩

/-- A run ends early only for two reasons. A suite cannot be listed: then nothing is started, and
the error is that of the first such suite. Or something is selected and the compiler cannot be
started: then the error names the compiler, and nothing is started. In all other cases all trials
get a result and all selected trials are started. -/
theorem run_all_or_nothing (t : FileTree) (compiler : Compiler) (config : Config)
    (selection : Selection) :
    (∀ e, (Discovery.ofSuite t config.testsDir .success).outcome = .error e →
      (∃ source, e = .discovery (Suite.success.dir config.testsDir) source) ∧
        (run t compiler config selection).outcome = .error e ∧
        (run t compiler config selection).started = []) ∧
    (∀ accepted e, (Discovery.ofSuite t config.testsDir .success).outcome = .ok accepted →
      (Discovery.ofSuite t config.testsDir .error).outcome = .error e →
      (∃ source, e = .discovery (Suite.error.dir config.testsDir) source) ∧
        (run t compiler config selection).outcome = .error e ∧
        (run t compiler config selection).started = []) ∧
    ∀ accepted rejected, (Discovery.ofSuite t config.testsDir .success).outcome = .ok accepted →
      (Discovery.ofSuite t config.testsDir .error).outcome = .ok rejected →
      ((∃ program source,
          (run t compiler config selection).outcome = .error (.start program source)) ↔
        Blocked t config selection (accepted ++ rejected)) ∧
      (∀ e, (run t compiler config selection).outcome = .error e →
        (∃ fault, launchFault t config = some fault ∧
          e = .start config.compilerPath (.plain fault)) ∧
        (run t compiler config selection).started = []) ∧
      (¬ Blocked t config selection (accepted ++ rejected) →
        ∃ rs, (run t compiler config selection).outcome = .ok rs ∧
          rs.list.map TrialResult.trial = accepted ++ rejected ∧
          (run t compiler config selection).started =
            ((accepted ++ rejected).filter (fun c => selection.accepts c.qualifiedName)).map
              (Invocation.ofTrial config)) := by
  refine ⟨fun e h => ?_, fun accepted e haccepted h => ?_,
    fun accepted rejected haccepted hrejected => ?_⟩
  · have hall : (Discovery.all t config.testsDir).outcome = .error e := by
      rw [Discovery.outcome_all, h]
      rfl
    exact ⟨Discovery.error_of_ofSuite h, run_of_listing_error hall⟩
  · have hall : (Discovery.all t config.testsDir).outcome = .error e := by
      rw [Discovery.outcome_all, haccepted, h]
      rfl
    exact ⟨Discovery.error_of_ofSuite h, run_of_listing_error hall⟩
  · have hall : (Discovery.all t config.testsDir).outcome = .ok (accepted ++ rejected) := by
      rw [Discovery.outcome_all, haccepted, hrejected]
      rfl
    by_cases hblocked : Blocked t config selection (accepted ++ rejected)
    · obtain ⟨hselected, fault, hfault⟩ := hblocked
      obtain ⟨houtcome, hstarted⟩ := run_of_blocked compiler hall hfault hselected
      refine ⟨⟨fun _ => ⟨hselected, fault, hfault⟩, fun _ => ⟨_, _, houtcome⟩⟩, fun e he => ?_,
        fun hfree => absurd ⟨hselected, fault, hfault⟩ hfree⟩
      rw [houtcome] at he
      exact ⟨⟨fault, hfault, (Except.error.inj he).symm⟩, hstarted⟩
    · obtain ⟨houtcome, hstarted⟩ := run_of_not_blocked compiler hall hblocked
      refine ⟨⟨?_, fun h => absurd h hblocked⟩, ?_, fun _ => ⟨_, houtcome, ?_, ?_⟩⟩
      · rintro ⟨program, source, he⟩
        rw [houtcome] at he
        cases he
      · intro e he
        rw [houtcome] at he
        cases he
      · exact map_trial_recorded compiler config selection _
      · rw [hstarted, filterMap_invocation_recorded]

end Session

end CompilerTrials
