import CompilerTrials.Proofs.Fidelity
import CompilerTrials.Proofs.Legality
import Mathlib.Data.List.Infix

/-!
# Crashes of the compiler

A compiler that a signal terminated did not end well: its trial fails below `success`, and passes
below `error`. The details of a trial that failed name the signal. Those of one that passed are the
same however the compiler ended.

* `Details.crash`: how details name the signal.
* `Details.crash_infix_ofResult`, `JUnit.crash_infix_outcome`: the details of a trial that failed
  name it, and so does a document; without colour the name of the trial can take it out again.
* `Results.restate`: the same results, but for how the compilers of accepted trials ended.
* `Report.draft_restate`: no report tells them apart.
* `Session.crash_reported`: both for the results of a completed run.
* `Session.not_crash_reported`: a compiler that always crashes, and details that do not say so.
-/

namespace CompilerTrials

variable {w : WaitStatus} {n : Nat} {r : TrialResult} {ran : CompilerRun} {rs : Results}
variable {color verbose : Bool} {timestamp : Text}

namespace WaitStatus

theorem ending_of_signal (h : w.signal = some n) : ∃ dumped, w.ending = .killed n dumped := by
  unfold signal at h
  split at h
  · next m dumped hending =>
    obtain rfl := Option.some.inj h
    exact ⟨dumped, hending⟩
  · cases h

/-- A status without any bit is that of an exit. -/
theorem not_isClean_of_signal (h : w.signal = some n) : ¬ w.isClean = true := by
  intro hclean
  have hlow : w.low = 0 := by rw [low, (isClean_iff w).mp hclean]
  rw [signal, ending, if_pos hlow] at h
  cases h

end WaitStatus

namespace Details

/-- How details say that a signal terminated the compiler. -/
def crash (color : Bool) (n : Nat) : Text :=
  "terminated by signal ".toList ++ Style.brightRed.paint color (Text.ofNat n)

theorem status_of_signal (h : w.signal = some n) (color : Bool) :
    status color w = "    ".toList ++ crash color n ++ ['\n'] := by
  obtain ⟨dumped, hending⟩ := WaitStatus.ending_of_signal h
  have hindent (t u : Text) : "    terminated by signal ".toList ++ t ++ u =
      "    ".toList ++ ("terminated by signal ".toList ++ t) ++ u := rfl
  unfold status
  rw [hending]
  exact hindent _ _

theorem crash_infix_reason (hrun : r.run = some ran) (h : ran.status.signal = some n)
    (color : Bool) : crash color n <:+: (reason color r).flatten := by
  have hmem : status color ran.status ∈ reason color r := by
    rw [reason, hrun]
    exact List.mem_append_right _ (List.mem_singleton_self _)
  have hstatus := List.infix_of_mem_flatten hmem
  rw [status_of_signal h] at hstatus
  exact List.IsInfix.trans ⟨_, _, rfl⟩ hstatus

/-- The details of a trial that failed name the signal. -/
theorem crash_infix_ofResult (hfail : r.verdict = some .fail) (hrun : r.run = some ran)
    (h : ran.status.signal = some n) (color verbose : Bool) :
    crash color n <:+: (ofResult color verbose r).flatten := by
  refine (crash_infix_reason hrun h color).trans ?_
  rw [ofResult, hfail]
  show _ <:+: (header color r.trial :: ofFailed color r).flatten
  rw [ofFailed_eq, List.flatten_cons, List.flatten_append, ← List.append_assoc]
  exact ⟨_, _, rfl⟩

end Details

/-! ## Documents -/

namespace JUnit

open Escape (State printed)

/-- All of why a trial failed is printed. -/
theorem printed_reason (r : TrialResult) :
    printed (.ground none) (Details.reason false r).flatten = (Details.reason false r).flatten := by
  have hadmits : Details.Admits false fun c => Escape.print c = [c] :=
    ⟨fun c hc => Text.IsPrintable.print_eq (t := [c]) (List.forall_mem_singleton.mpr hc) c
      (List.mem_singleton_self c), by decide, fun h => by cases h⟩
  have hexpectation : r.trial.expectation.render.IsPrintable := by
    cases r.trial.expectation <;> decide
  apply Escape.strip_of_printed
  apply Text.Within.flatten
  intro t ht
  rcases List.mem_append.mp ht with ht | ht
  · rcases List.mem_cons.mp ht with rfl | ht
    · exact hadmits.feed
    · obtain rfl := List.mem_singleton.mp ht
      exact hadmits.line .cyan (by decide) hexpectation
  · obtain ⟨run, -, rfl⟩ := List.mem_map.mp ht
    exact hadmits.status run.status

/-- Why a trial failed stands in its output, with colour at least. Without colour a terminal can be
in a sequence after the name of the trial. -/
theorem reason_infix_output (hfail : r.verdict = some .fail)
    (h : color = true ∨ Escape.Settled r.trial.qualifiedName) (verbose : Bool) :
    (Details.reason false r).flatten <:+: output color verbose r := by
  have hpieces : Details.pieces verbose r = Details.headerPieces r.trial ++
      ((Details.reason false r).map .plain ++
        ((Details.commands r).map .plain ++ Details.endPieces r)) := by
    rw [Details.pieces, hfail]
  cases color with
  | true =>
    rw [output_true, hpieces, Piece.shown_append, (Details.plays_header r.trial).leaves,
      Piece.shown_append, Piece.shown_map_plain, printed_reason, ← List.append_assoc]
    exact ⟨_, _, rfl⟩
  | false =>
    have hname : Escape.Settled r.trial.qualifiedName := h.resolve_left Bool.false_ne_true
    have hheader : (State.ground none).read (Details.header false r.trial) = .ground none := by
      have hopen : (State.ground none).read ("* ".toList ++ "Test case".toList ++ ": [".toList) =
          .ground none := Escape.settled_of_plain (by decide)
      rw [Details.header_eq, Style.paint_false, Style.paint_false, Escape.read_append, hopen,
        Escape.read_append, hname]
      exact Escape.settled_of_plain (by decide)
    rw [output_false, hpieces, List.flatMap_append, List.flatMap_append, Escape.printed_append,
      Details.text_headerPieces, hheader, Escape.printed_append, Piece.flatMap_text_map_plain,
      printed_reason, ← List.append_assoc]
    exact ⟨_, _, rfl⟩

theorem outcome_of_fail (hfail : r.verdict = some .fail) (color verbose : Bool) :
    (ofResult color verbose r).outcome = .failed (output color verbose r) := by
  rw [ofResult, hfail]
  exact congrArg Outcome.failed (Escape.strip_strip _)

/-- The output of a trial that failed names the signal. -/
theorem crash_infix_outcome (hfail : r.verdict = some .fail) (hrun : r.run = some ran)
    (hsignal : ran.status.signal = some n)
    (h : color = true ∨ Escape.Settled r.trial.qualifiedName) (verbose : Bool) :
    Details.crash false n <:+: (ofResult color verbose r).outcome.output := by
  rw [outcome_of_fail hfail]
  exact (Details.crash_infix_reason hrun hsignal false).trans
    (reason_infix_output hfail h verbose)

end JUnit

/-! ## Reports of accepted trials -/

/-- The result, with another status where the trial passed. -/
def TrialResult.restate (f : WaitStatus → WaitStatus) (r : TrialResult) : TrialResult :=
  if r.isPassed then { r with run := r.run.map fun run => { run with status := f run.status } }
  else r

/-- The results, with other statuses where the trials passed. -/
def Results.restate (f : WaitStatus → WaitStatus) (rs : Results) : Results :=
  ⟨rs.list.map (TrialResult.restate f)⟩

namespace TrialResult

variable (f : WaitStatus → WaitStatus) (r : TrialResult)

theorem trial_restate : (r.restate f).trial = r.trial := by
  unfold restate
  split <;> rfl

theorem verdict_restate : (r.restate f).verdict = r.verdict := by
  unfold restate
  split <;> rfl

theorem duration_restate : (r.restate f).duration = r.duration := by
  unfold restate
  split
  · unfold duration
    cases r.run <;> rfl
  · rfl

/-- The details of a trial that passed do not look at its run. -/
theorem details_restate (color verbose : Bool) :
    Details.ofResult color verbose (r.restate f) = Details.ofResult color verbose r := by
  unfold restate
  split
  · next hpass =>
    have hverdict : r.verdict = some .pass := of_decide_eq_true hpass
    simp only [Details.ofResult, hverdict, Details.ofPassed]
  · rfl

theorem testCase_restate (color verbose : Bool) :
    JUnit.ofResult color verbose (r.restate f) = JUnit.ofResult color verbose r := by
  unfold JUnit.ofResult JUnit.output
  rw [details_restate, verdict_restate, trial_restate, duration_restate]

end TrialResult

namespace Results

variable (f : WaitStatus → WaitStatus) (rs : Results)

theorem ofSuite_restate (s : Suite) :
    (rs.restate f).ofSuite s = (rs.ofSuite s).map (TrialResult.restate f) := by
  unfold ofSuite restate
  rw [List.filter_map]
  exact congrArg _ (List.filter_congr fun r _ => by rw [Function.comp_apply, r.trial_restate])

/-- What looks at verdicts alone counts the same. -/
theorem countP_restate {p : TrialResult → Bool}
    (h : ∀ r r' : TrialResult, r.verdict = r'.verdict → p r = p r') :
    (rs.restate f).list.countP p = rs.list.countP p := by
  unfold restate
  rw [List.countP_map]
  exact List.countP_congr fun r _ => by
    rw [Function.comp_apply, h _ _ (r.verdict_restate f)]

theorem durations_restate :
    (rs.restate f).list.map TrialResult.duration = rs.list.map TrialResult.duration := by
  unfold restate
  rw [List.map_map]
  exact List.map_congr_left fun r _ => r.duration_restate f

end Results

namespace Summary

theorem draft_restate (color : Bool) (f : WaitStatus → WaitStatus) (rs : Results) :
    draft color (rs.restate f) = draft color rs := by
  have htotal : (rs.restate f).total? = rs.total? :=
    congrArg Duration.total? (rs.durations_restate f)
  have hcounts : counts color (rs.restate f) = counts color rs := by
    have hattempted : (rs.restate f).attempted = rs.attempted :=
      rs.countP_restate f fun _ _ h => by rw [TrialResult.isSkipped, h, TrialResult.isSkipped]
    have hpassed : (rs.restate f).passed = rs.passed :=
      rs.countP_restate f fun _ _ h => by rw [TrialResult.isPassed, h, TrialResult.isPassed]
    have hfailed : (rs.restate f).failed = rs.failed :=
      rs.countP_restate f fun _ _ h => by rw [TrialResult.isFailed, h, TrialResult.isFailed]
    have hskipped : (rs.restate f).skipped = rs.skipped :=
      rs.countP_restate f fun _ _ h => by rw [TrialResult.isSkipped, h, TrialResult.isSkipped]
    rw [counts, hattempted, hpassed, hfailed, hskipped, counts]
  rw [draft, htotal, hcounts, draft]

end Summary

/-- The details of each result stand in a report for people. -/
theorem Pretty.details_infix_draft (hr : r ∈ rs.list) (color verbose : Bool) :
    (Details.ofResult color verbose r).flatten <:+: (draft color verbose rs).text := by
  have hmem := Results.mem_ofSuite hr
  have hbelow : Details.ofResult color verbose r <:+: ofSuite color verbose rs r.trial.suite :=
    (List.infix_of_mem_flatten (List.mem_map_of_mem hmem)).trans (List.suffix_append _ _).isInfix
  have hdetails : ofSuite color verbose rs r.trial.suite <:+: details color verbose rs :=
    List.infix_of_mem_flatten (List.mem_map_of_mem (Suite.mem_all r.trial.suite))
  have hchunks : details color verbose rs <:+: (draft color verbose rs).chunks :=
    (List.prefix_append _ _).isInfix
  exact ((hbelow.trans hdetails).trans hchunks).flatten

theorem Pretty.details_restate (color verbose : Bool) (f : WaitStatus → WaitStatus)
    (rs : Results) : details color verbose (rs.restate f) = details color verbose rs := by
  unfold details ofSuite
  simp only [rs.ofSuite_restate f, List.flatMap_map, TrialResult.details_restate]

theorem JUnit.casesOf_restate (color verbose : Bool) (f : WaitStatus → WaitStatus) (rs : Results)
    (s : Suite) : casesOf color verbose (rs.restate f) s = casesOf color verbose rs s := by
  unfold casesOf
  rw [rs.ofSuite_restate f, List.map_map]
  exact List.map_congr_left fun r _ => r.testCase_restate f color verbose

theorem JUnit.ofResults_restate (color verbose : Bool) (f : WaitStatus → WaitStatus)
    (rs : Results) : ofResults color verbose (rs.restate f) = ofResults color verbose rs := by
  have hholds : (rs.restate f).list.all (fun r => holds r.duration) =
      rs.list.all (fun r => holds r.duration) := by
    unfold Results.restate
    rw [List.all_map]
    exact List.all_congr rfl fun r => by rw [Function.comp_apply, r.duration_restate f]
  unfold ofResults
  simp only [casesOf_restate, hholds]

theorem JUnit.begun_restate (color verbose : Bool) (f : WaitStatus → WaitStatus) (rs : Results)
    (ss : List Suite) : begun color verbose (rs.restate f) ss = begun color verbose rs ss := by
  induction ss with
  | nil => rfl
  | cons s rest ih => rw [begun, casesOf_restate, ih, begun]

/-- No report says how the compiler ended in a trial that passed. -/
theorem Report.draft_restate (format : ReportFormat) (color verbose : Bool) (timestamp : Text)
    (f : WaitStatus → WaitStatus) (rs : Results) :
    draft format color verbose timestamp (rs.restate f) =
      draft format color verbose timestamp rs := by
  cases format with
  | pretty =>
    show Pretty.draft color verbose (rs.restate f) = Pretty.draft color verbose rs
    rw [Pretty.draft, Summary.draft_restate, Pretty.details_restate, Pretty.draft]
  | junit =>
    show JUnit.draft color verbose timestamp (rs.restate f) = JUnit.draft color verbose timestamp rs
    rw [JUnit.draft, JUnit.ofResults_restate, JUnit.begun_restate, JUnit.draft]
  | terse => exact Summary.draft_restate color f rs

/-! ## Completed runs -/

namespace Session

variable {t : FileTree} {compiler : Compiler} {config : Config} {selection : Selection}

/-- The verdict on a run is that of its suite. -/
theorem verdict_of_run (h : (run t compiler config selection).outcome = .ok rs)
    (hr : r ∈ rs.list) (hrun : r.run = some ran) :
    r.verdict = some (r.trial.suite.expectation.judge ran.status) := by
  obtain ⟨c, rfl⟩ := exists_recorded_of_run h hr
  by_cases hselected : selection.accepts c.qualifiedName = true
  · simp only [recorded, if_pos hselected] at hrun ⊢
    obtain rfl := Option.some.inj hrun
    rfl
  · simp only [recorded, if_neg hselected] at hrun
    cases hrun

/-- A crash is a failure below `success`, and a rejection below `error`. -/
theorem verdict_of_signal (h : (run t compiler config selection).outcome = .ok rs)
    (hr : r ∈ rs.list) (hrun : r.run = some ran) (hsignal : ran.status.signal = some n) :
    r.verdict = some .pass ↔ r.trial.suite ≠ .success := by
  have hunclean := WaitStatus.not_isClean_of_signal hsignal
  rw [verdict_of_run h hr hrun, Option.some.injEq, Suite.judge_eq_pass_iff]
  exact iff_false_right hunclean

/-- A trial whose compiler a signal terminated fails below `success`, and its details name the
signal, as does a report for people; so does a document, with colour or if the name of the trial
leaves no sequence unfinished. Below `error` it passes, and all reports are those of any other way
in which the compilers of accepted trials could have ended. -/
theorem crash_reported (h : (run t compiler config selection).outcome = .ok rs)
    (hr : r ∈ rs.list) (hrun : r.run = some ran) (hsignal : ran.status.signal = some n)
    (color verbose : Bool) (timestamp : Text) :
    (r.trial.suite = .success → r.isFailed = true ∧
      Details.crash color n <:+: (Details.ofResult color verbose r).flatten ∧
      Details.crash color n <:+: (Report.draft .pretty color verbose timestamp rs).text ∧
      (color = true ∨ Escape.Settled r.trial.qualifiedName →
        Details.crash false n <:+: (JUnit.ofResult color verbose r).outcome.output)) ∧
    (r.trial.suite = .error → r.isPassed = true ∧
      ∀ f format, Report.draft format color verbose timestamp (rs.restate f) =
        Report.draft format color verbose timestamp rs) := by
  have hverdict := verdict_of_signal h hr hrun hsignal
  constructor
  · intro hsuite
    have hfail : r.verdict = some .fail := by
      have hjudged := verdict_of_run h hr hrun
      cases hjudge : r.trial.suite.expectation.judge ran.status with
      | pass => exact absurd hsuite (hverdict.mp (hjudged.trans (congrArg some hjudge)))
      | fail => exact hjudged.trans (congrArg some hjudge)
    have hdetails := Details.crash_infix_ofResult hfail hrun hsignal color verbose
    refine ⟨decide_eq_true hfail, hdetails, ?_, fun hname =>
      JUnit.crash_infix_outcome hfail hrun hsignal hname verbose⟩
    exact hdetails.trans (Pretty.details_infix_draft hr color verbose)
  · intro hsuite
    have hpass : r.verdict = some .pass := hverdict.mpr (by rw [hsuite]; decide)
    exact ⟨decide_eq_true hpass, fun f format =>
      Report.draft_restate format color verbose timestamp f rs⟩

/-! ### A compiler that always crashes -/

namespace Sample

def crashing : Compiler := fun _ => ⟨[], [], .kill 11, .zero⟩

def crashes : Results := ⟨[accepted, rejected].map (recorded crashing setup {})⟩

theorem outcome_crashing : (run tree crashing setup {}).outcome = .ok crashes :=
  run_of_launch crashing outcome_both launchFault_none {}

end Sample

/-- The crash on the trial below `success` is in its output. -/
theorem crash_reported_sample :
    (run Sample.tree Sample.crashing Sample.setup {}).outcome = .ok Sample.crashes ∧
      ∃ r ∈ Sample.crashes.list, r.trial = Sample.accepted ∧
        "terminated by signal 11".toList <:+: (Details.ofResult false false r).flatten ∧
        "terminated by signal 11".toList <:+: (JUnit.ofResult false false r).outcome.output := by
  have hmem : recorded Sample.crashing Sample.setup {} Sample.accepted ∈ Sample.crashes.list :=
    List.mem_cons_self
  obtain ⟨-, hdetails, -, houtput⟩ := (crash_reported Sample.outcome_crashing hmem rfl rfl false
    false []).1 rfl
  exact ⟨Sample.outcome_crashing, _, hmem, rfl, hdetails, houtput (.inr (by decide))⟩

/-- The crash on the trial below `error` is nowhere in its details, nor in its output. -/
theorem not_crash_reported :
    (run Sample.tree Sample.crashing Sample.setup {}).outcome = .ok Sample.crashes ∧
      ∃ r ∈ Sample.crashes.list, ∃ run, r.run = some run ∧ run.status.signal = some 11 ∧
        (Details.ofResult false false r).flatten = "* Test case: [error::typo]... ok.\n".toList ∧
        ¬ "terminated by signal 11".toList <:+: (Details.ofResult false true r).flatten ∧
        ¬ "terminated by signal 11".toList <:+: (JUnit.ofResult false true r).outcome.output := by
  have hmem : recorded Sample.crashing Sample.setup {} Sample.rejected ∈ Sample.crashes.list :=
    List.mem_cons_of_mem _ List.mem_cons_self
  refine ⟨Sample.outcome_crashing, _, hmem, _, rfl, rfl, ?_, ?_, ?_⟩
  · decide +kernel
  · exact Text.occursIn_iff.not.mp (by decide +kernel)
  · exact Text.occursIn_iff.not.mp (by decide +kernel)

end Session

end CompilerTrials
