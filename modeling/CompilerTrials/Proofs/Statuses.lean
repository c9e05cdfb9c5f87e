import CompilerTrials.Proofs.Fidelity
import Mathlib.Data.List.Forall2

/-!
# Runs with two compilers

Two compilers that end with the same status on every command line, whatever they write and however
long they take. What they wrote goes into the results and nowhere else, so the runs go the same way
step by step: they start the same, and judge it the same.

* `Transcript.Alike`: two parts of a run start the same, and come out alike. `Transcript.Alike.bind`
  puts such parts one after the other.
* `Session.alike_execute`, `Session.alike_result`: one invocation, and one trial.
* `Session.alike_results`, `Session.alike_run`: all trials, and a whole run.
* `Session.run_of_endsLike`: the results of the two runs agree in all but what was written and how
  long it took.
-/

namespace CompilerTrials

/-! ## Parts of two runs -/

namespace Transcript

variable {α β γ δ : Type} {R : α → β → Prop} {S : γ → δ → Prop} {e : Error}

/-- The same error, or values that are related. -/
inductive Matches (R : α → β → Prop) : Except Error α → Except Error β → Prop where
  | error (e : Error) : Matches R (.error e) (.error e)
  | ok {a : α} {b : β} (h : R a b) : Matches R (.ok a) (.ok b)

/-- The two parts start the same, and end in the same error or in related values. What they say may
differ. -/
structure Alike (R : α → β → Prop) (x : Transcript α) (y : Transcript β) : Prop where
  started : x.started = y.started
  outcome : Matches R x.outcome y.outcome

namespace Alike

theorem refl (x : Transcript α) : Alike Eq x x := by
  refine ⟨rfl, ?_⟩
  cases x.outcome with
  | error e => exact .error e
  | ok a => exact .ok rfl

theorem done {a : α} {b : β} (h : R a b) : Alike R (Transcript.done a) (Transcript.done b) :=
  ⟨rfl, .ok h⟩

theorem say (e e' : Event) : Alike Eq (Transcript.say e) (Transcript.say e') := ⟨rfl, .ok rfl⟩

theorem bind {x : Transcript α} {y : Transcript β} {f : α → Transcript γ} {g : β → Transcript δ}
    (h : Alike R x y) (hnext : ∀ a b, R a b → Alike S (f a) (g b)) :
    Alike S (x >>= f) (y >>= g) := by
  obtain ⟨hstarted, houtcome⟩ := h
  generalize hx : x.outcome = left at houtcome
  generalize hy : y.outcome = right at houtcome
  cases houtcome with
  | error e =>
    rw [bind_of_error hx, bind_of_error hy]
    exact ⟨hstarted, .error e⟩
  | ok hab =>
    obtain ⟨hlater, hlast⟩ := hnext _ _ hab
    rw [bind_of_ok hx, bind_of_ok hy]
    exact ⟨congrArg₂ (· ++ ·) hstarted hlater, hlast⟩

theorem map {x : Transcript α} {y : Transcript β} {f : α → γ} {g : β → δ} (h : Alike R x y)
    (hvalue : ∀ a b, R a b → S (f a) (g b)) : Alike S (f <$> x) (g <$> y) := by
  rw [← bind_pure_comp, ← bind_pure_comp]
  apply h.bind
  intro a b hab
  exact .done (hvalue a b hab)

theorem error_iff {x : Transcript α} {y : Transcript β} (h : Alike R x y) :
    x.outcome = .error e ↔ y.outcome = .error e := by
  obtain ⟨-, houtcome⟩ := h
  generalize x.outcome = left at houtcome ⊢
  generalize y.outcome = right at houtcome ⊢
  cases houtcome with
  | error first =>
    rw [Except.error.injEq, Except.error.injEq]
  | ok _ => exact ⟨fun h => (nomatch h), fun h => (nomatch h)⟩

theorem exists_ok {x : Transcript α} {y : Transcript β} {a : α} (h : Alike R x y)
    (hx : x.outcome = .ok a) : ∃ b, y.outcome = .ok b ∧ R a b := by
  obtain ⟨-, houtcome⟩ := h
  rw [hx] at houtcome
  generalize hy : y.outcome = right at houtcome
  cases houtcome with
  | ok hab => exact ⟨_, rfl, hab⟩

end Alike

end Transcript

/-! ## Compilers and results -/

/-- The compilers end with the same status on every command line. -/
def Compiler.EndsLike (compiler other : Compiler) : Prop :=
  ∀ i, (compiler i).departure.status = (other i).departure.status

/-- The results differ at most in what the compiler wrote and in how long it took. -/
structure TrialResult.JudgedAlike (r r' : TrialResult) : Prop where
  trial : r.trial = r'.trial
  invocation : r.invocation = r'.invocation
  status : r.run.map CompilerRun.status = r'.run.map CompilerRun.status
  verdict : r.verdict = r'.verdict

/-- The results agree one by one, and so do their counts. -/
structure Results.JudgedAlike (rs rs' : Results) : Prop where
  trials : rs.list.map TrialResult.trial = rs'.list.map TrialResult.trial
  invocations : rs.list.map TrialResult.invocation = rs'.list.map TrialResult.invocation
  isSkipped : rs.list.map TrialResult.isSkipped = rs'.list.map TrialResult.isSkipped
  statuses : rs.list.map (fun r => r.run.map CompilerRun.status) =
    rs'.list.map fun r => r.run.map CompilerRun.status
  verdicts : rs.list.map TrialResult.verdict = rs'.list.map TrialResult.verdict
  attempted : rs.attempted = rs'.attempted
  passed : rs.passed = rs'.passed
  failed : rs.failed = rs'.failed
  skipped : rs.skipped = rs'.skipped
  exitCode : rs.exitCode = rs'.exitCode

section

variable {l l' : List TrialResult}

/-- What looks at no output is the same for all. -/
theorem map_eq_of_forall₂ {α : Type} {f : TrialResult → α}
    (hf : ∀ r r', TrialResult.JudgedAlike r r' → f r = f r')
    (h : List.Forall₂ TrialResult.JudgedAlike l l') : l.map f = l'.map f := by
  have hsame : List.Forall₂ Eq (l.map f) (l'.map f) :=
    List.forall₂_map_left_iff.mpr (List.forall₂_map_right_iff.mpr (h.imp hf))
  rwa [List.forall₂_eq_eq_eq] at hsame

/-- What looks at verdicts alone counts the same. -/
theorem countP_eq_of_verdicts (p : Option Verdict → Bool)
    (h : l.map TrialResult.verdict = l'.map TrialResult.verdict) :
    l.countP (fun r => p r.verdict) = l'.countP (fun r => p r.verdict) := by
  have hcount (l : List TrialResult) :
      l.countP (fun r => p r.verdict) = (l.map TrialResult.verdict).countP p :=
    List.countP_map.symm
  rw [hcount, hcount, h]

theorem Results.judgedAlike_of_forall₂ (h : List.Forall₂ TrialResult.JudgedAlike l l') :
    Results.JudgedAlike ⟨l⟩ ⟨l'⟩ := by
  have hverdicts : l.map TrialResult.verdict = l'.map TrialResult.verdict :=
    map_eq_of_forall₂ (fun _ _ hr => hr.verdict) h
  have hfailed : Results.failed ⟨l⟩ = Results.failed ⟨l'⟩ :=
    countP_eq_of_verdicts (fun v => v = some .fail) hverdicts
  exact {
    trials := map_eq_of_forall₂ (fun _ _ hr => hr.trial) h
    invocations := map_eq_of_forall₂ (fun _ _ hr => hr.invocation) h
    isSkipped := map_eq_of_forall₂ (fun _ _ hr => congrArg Option.isNone hr.verdict) h
    statuses := map_eq_of_forall₂ (fun _ _ hr => hr.status) h
    verdicts := hverdicts
    attempted := countP_eq_of_verdicts (fun v => !v.isNone) hverdicts
    passed := countP_eq_of_verdicts (fun v => v = some .pass) hverdicts
    failed := hfailed
    skipped := countP_eq_of_verdicts Option.isNone hverdicts
    exitCode := by rw [Results.exitCode, Results.allPassed, hfailed]; rfl }

end

namespace Session

open Transcript (Alike)

variable {compiler other : Compiler} {config : Config} {selection : Selection}

/-! ## Steps of two runs -/

theorem alike_execute (h : compiler.EndsLike other) (t : FileTree) (i : Invocation) :
    Alike (fun run run' => run.status = run'.status) (execute t compiler i)
      (execute t other i) := by
  cases hstart : t.startFault i.program i.args with
  | some fault =>
    rw [execute_of_fault compiler hstart, execute_of_fault other hstart]
    exact ⟨rfl, .error _⟩
  | none =>
    rw [execute_of_startable compiler hstart, execute_of_startable other hstart]
    exact ⟨rfl, .ok (h i)⟩

/-- The verdict looks at the status alone. -/
theorem alike_attempt (h : compiler.EndsLike other) (t : FileTree) (config : Config) (c : Trial) :
    Alike TrialResult.JudgedAlike (attempt t compiler config c) (attempt t other config c) := by
  apply (alike_execute h t (Invocation.ofTrial config c)).bind
  intro run run' hstatus
  apply (Alike.say _ _).bind
  intro _ _ _
  apply Alike.done
  exact ⟨rfl, rfl, congrArg some hstatus, by rw [hstatus]; rfl⟩

theorem alike_result (h : compiler.EndsLike other) (t : FileTree) (config : Config)
    (selection : Selection) (c : Trial) :
    Alike TrialResult.JudgedAlike (result t compiler config selection c)
      (result t other config selection c) := by
  by_cases hselected : selection.accepts c.qualifiedName = true
  · rw [result, result, if_pos hselected, if_pos hselected]
    exact alike_attempt h t config c
  · rw [result_of_unselected t compiler config hselected,
      result_of_unselected t other config hselected]
    exact ⟨rfl, .ok ⟨rfl, rfl, rfl, rfl⟩⟩

/-! ## Whole runs -/

theorem alike_results (h : compiler.EndsLike other) (t : FileTree) (config : Config)
    (selection : Selection) (trials : List Trial) :
    Alike (List.Forall₂ TrialResult.JudgedAlike) (results t compiler config selection trials)
      (results t other config selection trials) := by
  induction trials with
  | nil => exact .done .nil
  | cons c rest ih =>
    apply (alike_result h t config selection c).bind
    intro r r' hr
    apply ih.bind
    intro later later' hlater
    exact .done (.cons hr hlater)

theorem alike_run (h : compiler.EndsLike other) (t : FileTree) (config : Config)
    (selection : Selection) :
    Alike Results.JudgedAlike (run t compiler config selection)
      (run t other config selection) := by
  apply (Alike.refl (Discovery.all t config.testsDir)).bind
  rintro trials _ rfl
  apply (Alike.say _ _).bind
  intro _ _ _
  have hresults := (alike_results h t config selection trials).map (f := Results.mk)
    (g := Results.mk) fun _ _ => Results.judgedAlike_of_forall₂
  apply hresults.bind
  intro rs rs' hrs
  apply (Alike.say _ _).bind
  intro _ _ _
  exact .done hrs

/-- Runs with two compilers that end alike on every command line start the same, and end in the
same error or in results that agree: with the same trials, invocations and verdicts in the same
order, the same counts and the same exit code. There are results wherever both suites can be listed
and the compiler can be started. -/
theorem run_of_endsLike (h : compiler.EndsLike other) (t : FileTree) (config : Config)
    (selection : Selection) :
    (run t compiler config selection).started = (run t other config selection).started ∧
    (∀ e, (run t compiler config selection).outcome = .error e ↔
      (run t other config selection).outcome = .error e) ∧
    (∀ rs, (run t compiler config selection).outcome = .ok rs →
      ∃ rs', (run t other config selection).outcome = .ok rs' ∧ rs.JudgedAlike rs') ∧
    ∀ trials, (Discovery.all t config.testsDir).outcome = .ok trials →
      launchFault t config = none →
      ∃ rs, (run t compiler config selection).outcome = .ok rs := by
  have halike := alike_run h t config selection
  refine ⟨halike.started, fun e => halike.error_iff, fun rs hrs => halike.exists_ok hrs, ?_⟩
  intro trials htrials hlaunch
  exact ⟨_, run_of_launch compiler htrials hlaunch selection⟩

namespace Sample

/-- The compiler that crashes on the module, with something to say each time. -/
def chatty : Compiler := fun i =>
  { stub i with
    stdout := [0x1B, 0xFF]
    stderr := Utf8.encode "error".toList
    duration := ⟨2, 500000000, by decide, by decide⟩ }

end Sample

/-- What the compiler writes changes the results, and none of what is judged in them. -/
theorem run_of_endsLike_sample :
    Sample.stub.EndsLike Sample.chatty ∧
      ∃ rs rs', (run Sample.tree Sample.stub Sample.setup {}).outcome = .ok rs ∧
        (run Sample.tree Sample.chatty Sample.setup {}).outcome = .ok rs' ∧
        rs.JudgedAlike rs' ∧ rs.list.map TrialResult.verdict = [some .pass, some .pass] ∧
        rs ≠ rs' := by
  have hends : Sample.stub.EndsLike Sample.chatty := fun _ => rfl
  have hquiet := run_of_launch Sample.stub Sample.outcome_both Sample.launchFault_none {}
  have hchatty := run_of_launch Sample.chatty Sample.outcome_both Sample.launchFault_none {}
  obtain ⟨-, -, hresults, -⟩ := run_of_endsLike hends Sample.tree Sample.setup {}
  obtain ⟨rs', hrs', halike⟩ := hresults _ hquiet
  obtain rfl := Except.ok.inj (hchatty.symm.trans hrs')
  refine ⟨hends, _, _, hquiet, hchatty, halike, ?_, ?_⟩
  · decide +kernel
  · decide +kernel

end Session

end CompilerTrials
