import CompilerTrials.Proofs.Pieces
import CompilerTrials.Proofs.Decoding
import CompilerTrials.Report
import Mathlib.Algebra.Order.BigOperators.Group.List
import Mathlib.Algebra.Order.Group.Nat

/-!
# Colour in documents

* `Details.pieces`: the pieces of details.
* `Details.plays_ofResult`, `Details.text_pieces`: the details with colour and without.
* `Details.Settled`: neither the name nor the command line nor an output leaves a sequence
  unfinished.
* `JUnit.output_of_settled`, `JUnit.length_output_lt`: such details are the same with colour and
  without once they are stripped; of others less is left without colour.
* `Report.draft_junit_color`: when documents are the same with colour and without.
* `Report.not_draft_junit_color`: what a compiler wrote can take the outcome out of a document, if
  it is not in colour.
-/

namespace CompilerTrials

open Escape (State printed)

namespace Details

variable {s : State} {r : TrialResult} {c : Trial} {t : Text} {ps : List Piece}

/-! ## Pieces of details -/

/-- What stands behind the name of a trial. -/
def closing : Sign := ⟨"]... ".toList, by decide, by decide⟩

def headerPieces (c : Trial) : List Piece :=
  [.plain ("* ".toList ++ "Test case".toList ++ ": [".toList), .plain c.qualifiedName,
    .sign closing]

theorem header_eq (color : Bool) (c : Trial) : header color c =
    "* ".toList ++ Style.brightYellow.paint color "Test case".toList ++ ": [".toList ++
      (Style.italic.paint color c.qualifiedName ++ closing.text) := List.append_assoc _ _ _

theorem text_headerPieces (c : Trial) : (headerPieces c).flatMap Piece.text = header false c := by
  rw [header_eq, headerPieces, List.flatMap_cons, List.flatMap_cons, List.flatMap_singleton]
  rfl

theorem plays_header (c : Trial) :
    Piece.Plays (.ground none) (header true c) (headerPieces c) (.ground none) := by
  have hopen : (State.ground none).read ": [".toList = .ground none := by decide
  have hword := Piece.Plays.word (a := "* ".toList) (t := "Test case".toList) (by decide)
    (by decide) .brightYellow ": [".toList
  rw [hopen] at hword
  have hall := hword.append (.closed .italic c.qualifiedName closing)
  rw [header_eq]
  exact hall

/-- The heading of what the compiler wrote. -/
def heading (label : Text) (h : label.IsPrintable) : Sign where
  text := "------ Compiler: ".toList ++ label ++ " ---------------------------------".toList
  printable := .append (.append (by decide) h) (by decide)
  length_gt := by
    have hlong : Escape.headStart < "------ Compiler: ".toList.length := by decide
    rw [List.length_append, List.length_append]
    omega

def capturedPieces (q : Sign) (contents : Text) : List Piece :=
  if contents.isEmpty then []
  else
    [.plain "          ".toList, .sign q, .plain ['\n'],
      .plain (contents.indent captureWidth ++ ['\n'])]

theorem capturedPieces_cons (q : Sign) (c : Char) (contents : Text) :
    capturedPieces q (c :: contents) = [.plain "          ".toList, .sign q, .plain ['\n'],
      .plain (Text.indent captureWidth (c :: contents) ++ ['\n'])] := rfl

theorem text_capturedPieces (label contents : Text) (h : label.IsPrintable) :
    (capturedPieces (heading label h) contents).flatMap Piece.text =
      (captured false label contents).flatten := by
  cases contents with
  | nil => rfl
  | cons c contents =>
    have hline : captureLine false label =
        "          ".toList ++ (heading label h).text ++ ['\n'] := rfl
    rw [capturedPieces_cons]
    simp only [captured, captureBlock, hline, List.isEmpty_cons, Bool.false_eq_true, if_false,
      List.flatMap_cons, List.flatMap_nil, List.flatten_cons, List.flatten_nil, Piece.text,
      List.append_assoc]

theorem plays_captured (hs : s.Aligned) (label contents : Text) (h : label.IsPrintable) :
    ∃ s', s'.Aligned ∧ Piece.Plays s (captured true label contents).flatten
      (capturedPieces (heading label h) contents) s' := by
  cases contents with
  | nil => exact ⟨s, hs, .nil s⟩
  | cons c contents =>
    have hblanks := Piece.Plays.plain s "          ".toList
    have hsign := Piece.Plays.sign .cyan (heading label h)
      (Escape.aligned_read hs "          ".toList)
    have hfeed := Piece.Plays.plain (.ground none) ['\n']
    have hcontents := Piece.Plays.plain ((State.ground none).read ['\n'])
      (Text.indent captureWidth (c :: contents) ++ ['\n'])
    have hall := ((hblanks.append hsign).append hfeed).append (hcontents.append (.nil _))
    exact ⟨_, Escape.aligned_read (Escape.aligned_ground_read _) _, hall⟩

def runPieces (run : CompilerRun) : List Piece :=
  capturedPieces (heading "stdout".toList (by decide)) run.stdout ++
    capturedPieces (heading "stderr".toList (by decide)) run.stderr

theorem text_runPieces (run : CompilerRun) :
    (runPieces run).flatMap Piece.text = (captured false "stdout".toList run.stdout ++
      captured false "stderr".toList run.stderr).flatten := by
  rw [runPieces, List.flatMap_append, text_capturedPieces, text_capturedPieces,
    List.flatten_append]

theorem plays_run (hs : s.Aligned) (run : CompilerRun) :
    ∃ s', s'.Aligned ∧ Piece.Plays s (captured true "stdout".toList run.stdout ++
      captured true "stderr".toList run.stderr).flatten (runPieces run) s' := by
  obtain ⟨s', hs', hstdout⟩ := plays_captured hs "stdout".toList run.stdout (by decide)
  obtain ⟨s'', hs'', hstderr⟩ := plays_captured hs' "stderr".toList run.stderr (by decide)
  refine ⟨s'', hs'', ?_⟩
  rw [List.flatten_append]
  exact hstdout.append hstderr

/-- How a trial that failed ends. -/
def failed : Sign := ⟨"FAILED.".toList, by decide, by decide⟩

/-- What stands between the header of a trial that failed and the command line. -/
def reason (color : Bool) (r : TrialResult) : List Text :=
  [['\n'],
    "    expected ".toList ++ Style.cyan.paint color r.trial.expectation.render ++ ['\n']] ++
  r.run.toList.map (fun run => status color run.status)

def commands (r : TrialResult) : List Text := r.invocation.toList.map command

/-- What stands behind the command line of a trial that failed. -/
def ending (color : Bool) (r : TrialResult) : List Text :=
  r.run.toList.flatMap (fun run =>
    captured color "stdout".toList run.stdout ++ captured color "stderr".toList run.stderr) ++
  ["    ".toList ++ Style.brightRed.paint color failed.text ++ ['\n']]

theorem ofFailed_eq (color : Bool) (r : TrialResult) :
    ofFailed color r = reason color r ++ (commands r ++ ending color r) := by
  rw [← List.append_assoc, ending, ← List.append_assoc]
  rfl

def endPieces (r : TrialResult) : List Piece :=
  r.run.toList.flatMap runPieces ++
    [Piece.plain "    ".toList, Piece.sign failed, Piece.plain ['\n']]

/-- The details of a result, as pieces. -/
def pieces (verbose : Bool) (r : TrialResult) : List Piece :=
  match r.verdict with
  | none => []
  | some .pass => headerPieces r.trial ++ (ofPassed false verbose r).map .plain
  | some .fail =>
    headerPieces r.trial ++
      ((reason false r).map .plain ++ ((commands r).map .plain ++ endPieces r))

theorem text_endPieces (r : TrialResult) :
    (endPieces r).flatMap Piece.text = (ending false r).flatten := by
  rw [endPieces, ending, List.flatMap_append, List.flatten_append]
  cases r.run with
  | none => rfl
  | some run =>
    rw [Option.toList_some, List.flatMap_singleton, List.flatMap_singleton, text_runPieces]
    rfl

/-- Without colour, details are the text of their pieces. -/
theorem text_pieces (verbose : Bool) (r : TrialResult) :
    (pieces verbose r).flatMap Piece.text = (ofResult false verbose r).flatten := by
  unfold pieces ofResult
  rcases r.verdict with _ | _ | _
  · rfl
  · simp only [List.flatMap_append, List.flatten_cons, text_headerPieces,
      Piece.flatMap_text_map_plain]
  · simp only [ofFailed_eq, List.flatMap_append, List.flatten_cons, List.flatten_append,
      text_headerPieces, text_endPieces, Piece.flatMap_text_map_plain]

/-! ### With colour -/

theorem read_newline : (State.ground none).read ['\n'] = .ground none := by decide

theorem plays_status (w : WaitStatus) :
    Piece.Plays (.ground none) (status true w) [.plain (status false w)] (.ground none) := by
  rw [← read_newline]
  unfold status
  split
  · exact .word (by decide) (.ofNat _) .brightRed ['\n']
  · exact .word (by decide) (.ofNat _) .brightRed ['\n']
  · exact .word (by decide) w.isPrintable_render .brightRed ['\n']

theorem plays_reason (r : TrialResult) :
    Piece.Plays (.ground none) (reason true r).flatten ((reason false r).map .plain)
      (.ground none) := by
  have hrender : r.trial.expectation.render.IsPrintable := by
    cases r.trial.expectation <;> decide
  have hfeed := Piece.Plays.plain (.ground none) ['\n']
  have hexpected := Piece.Plays.word (a := "    expected ".toList) (by decide) hrender .cyan ['\n']
  rw [read_newline] at hfeed hexpected
  have hstatus : Piece.Plays (.ground none)
      (r.run.toList.map (fun run => status true run.status)).flatten
      ((r.run.toList.map fun run => status false run.status).map .plain) (.ground none) := by
    cases r.run with
    | none => exact .nil _
    | some run =>
      rw [Option.toList_some, List.map_singleton, List.flatten_singleton]
      exact plays_status run.status
  exact hfeed.append (hexpected.append hstatus)

theorem plays_ending (hs : s.Aligned) (r : TrialResult) :
    Piece.Plays s (ending true r).flatten (endPieces r) (.ground none) := by
  have hruns : ∃ s', s'.Aligned ∧ Piece.Plays s (r.run.toList.flatMap (fun run =>
      captured true "stdout".toList run.stdout ++
        captured true "stderr".toList run.stderr)).flatten
      (r.run.toList.flatMap runPieces) s' := by
    cases r.run with
    | none => exact ⟨s, hs, .nil s⟩
    | some run =>
      rw [Option.toList_some, List.flatMap_singleton, List.flatMap_singleton]
      exact plays_run hs run
  obtain ⟨s', hs', hplays⟩ := hruns
  have hblanks := Piece.Plays.plain s' "    ".toList
  have hsign := Piece.Plays.sign .brightRed failed (Escape.aligned_read hs' "    ".toList)
  have hfeed := Piece.Plays.plain (.ground none) ['\n']
  rw [read_newline] at hfeed
  rw [ending, List.flatten_append, List.flatten_singleton]
  exact hplays.append ((hblanks.append hsign).append hfeed)

theorem plays_passed (verbose : Bool) (r : TrialResult) : ∃ s',
    Piece.Plays (.ground none) (ofPassed true verbose r).flatten
      ((ofPassed false verbose r).map .plain) s' := by
  have hok := Piece.Plays.word (a := []) (t := "ok.".toList) (by decide) (by decide) .brightGreen
    ['\n']
  exact ⟨_, hok.append (.plains _ _)⟩

/-- With colour, details show what their pieces show. -/
theorem plays_ofResult (verbose : Bool) (r : TrialResult) : ∃ s',
    Piece.Plays (.ground none) (ofResult true verbose r).flatten (pieces verbose r) s' := by
  have hheader := plays_header r.trial
  unfold pieces ofResult
  rcases r.verdict with _ | _ | _
  · exact ⟨_, .nil _⟩
  · obtain ⟨s', hpassed⟩ := plays_passed verbose r
    exact ⟨s', hheader.append hpassed⟩
  · have hcommands := Piece.Plays.plains (.ground none) (commands r)
    have hend := plays_ending (Escape.aligned_ground_read (commands r).flatten) r
    have hall := hheader.append ((plays_reason r).append (hcommands.append hend))
    refine ⟨.ground none, ?_⟩
    simp only [ofFailed_eq, List.flatten_cons, List.flatten_append]
    exact hall

/-! ## Details without unfinished sequences -/

/-- Neither the name nor, where they are shown, the command line and the outputs leave a sequence
unfinished. -/
def Settled (r : TrialResult) : Prop :=
  match r.verdict with
  | none => True
  | some .pass => Escape.Settled r.trial.qualifiedName
  | some .fail => Escape.Settled r.trial.qualifiedName ∧
      (∀ i ∈ r.invocation, Escape.Settled i.render) ∧
      ∀ run ∈ r.run, Escape.Settled (run.stdout.indent captureWidth) ∧
        Escape.Settled (run.stderr.indent captureWidth)

theorem calm_header_iff (c : Trial) (ps : List Piece) :
    Piece.Calm (.ground none) (headerPieces c ++ ps) ↔
      Escape.Settled c.qualifiedName ∧ Piece.Calm (.ground none) ps := by
  have hopen : (State.ground none).read ("* ".toList ++ "Test case".toList ++ ": [".toList) =
      .ground none := by decide
  rw [headerPieces, List.cons_append, Piece.calm_plain, hopen]
  exact Iff.rfl

/-- Printable text in front of a text settles nothing, nor does a line feed behind it. -/
theorem settled_between {a : Text} (ha : a.IsPrintable) (t : Text) :
    (State.ground none).read (a ++ t ++ ['\n']) = .ground none ↔ Escape.Settled t := by
  rw [Escape.read_append, Escape.read_append, ha.read_eq]
  exact Escape.read_blank_iff (Escape.aligned_ground_read t) (.inr rfl)

theorem demands_captured {p : Prop} (h : Piece.Demands p ps) (q : Sign) (contents : Text) :
    Piece.Demands (Escape.Settled (contents.indent captureWidth) ∧ p)
      (capturedPieces q contents ++ ps) := by
  have hsettled := settled_between (a := []) (by decide) (contents.indent captureWidth)
  cases contents with
  | nil =>
    have hnone : Escape.Settled (Text.indent captureWidth []) := rfl
    intro s hs
    rw [and_iff_right hnone]
    exact h s hs
  | cons c contents =>
    rw [capturedPieces_cons, List.cons_append, List.cons_append]
    refine .sign (by decide) q ?_
    rw [List.cons_append, List.singleton_append, Piece.calm_plain, Piece.calm_plain, read_newline,
      ← hsettled]
    exact h _ (Escape.aligned_ground_read _)

theorem demands_end (r : TrialResult) : Piece.Demands
    (∀ run ∈ r.run, Escape.Settled (run.stdout.indent captureWidth) ∧
      Escape.Settled (run.stderr.indent captureWidth)) (endPieces r) := by
  have hfailed : Piece.Demands True [.plain "    ".toList, .sign failed, .plain ['\n']] :=
    .sign (by decide) failed Iff.rfl
  intro s hs
  unfold endPieces
  cases r.run with
  | none => simpa using hfailed s hs
  | some run =>
    have hstderr := demands_captured hfailed (heading "stderr".toList (by decide)) run.stderr
    have hboth := demands_captured hstderr (heading "stdout".toList (by decide)) run.stdout s hs
    rw [← List.append_assoc] at hboth
    simpa [runPieces] using hboth

theorem calm_commands_iff {p : Prop} (h : Piece.Demands p ps) (r : TrialResult) :
    Piece.Calm (.ground none) ((commands r).map .plain ++ ps) ↔
      (∀ i ∈ r.invocation, Escape.Settled i.render) ∧ p := by
  unfold commands
  cases r.invocation with
  | none => simpa using h (.ground none) trivial
  | some i =>
    have hmem : (∀ j ∈ some i, Escape.Settled j.render) ↔ Escape.Settled i.render := by simp
    have hcommand : (State.ground none).read (command i) = .ground none ↔
        Escape.Settled i.render := settled_between (by decide) i.render
    rw [hmem, ← hcommand]
    exact h _ (Escape.aligned_ground_read (command i))

/-- A sign stands behind each of the name, the command line and the outputs. -/
theorem calm_pieces_iff (verbose : Bool) (r : TrialResult) :
    Piece.Calm (.ground none) (pieces verbose r) ↔ Settled r := by
  unfold pieces Settled
  rcases r.verdict with _ | _ | _
  · exact Iff.rfl
  · rw [calm_header_iff]
    exact and_iff_left (Piece.calm_map_plain _ _)
  · have hreason := Piece.calm_map_plain (.ground none) (reason false r)
    rw [calm_header_iff, Piece.calm_append, and_iff_right hreason, (plays_reason r).leaves,
      calm_commands_iff (demands_end r)]

end Details

/-! ## Documents -/

theorem Results.mem_ofSuite {rs : Results} {r : TrialResult} (hr : r ∈ rs.list) :
    r ∈ rs.ofSuite r.trial.suite :=
  List.mem_filter.mpr ⟨hr, decide_eq_true rfl⟩

namespace JUnit

variable {r : TrialResult} {rs : Results} {timestamp : Text} {verbose : Bool}

theorem output_true (verbose : Bool) (r : TrialResult) :
    output true verbose r = Piece.shown (.ground none) (Details.pieces verbose r) := by
  obtain ⟨s', hplays⟩ := Details.plays_ofResult verbose r
  exact hplays.shown

theorem output_false (verbose : Bool) (r : TrialResult) : output false verbose r =
    printed (.ground none) ((Details.pieces verbose r).flatMap Piece.text) := by
  rw [Details.text_pieces]
  rfl

theorem output_of_settled (h : Details.Settled r) (verbose : Bool) :
    output true verbose r = output false verbose r := by
  rw [output_true, output_false, Piece.printed_of_calm ((Details.calm_pieces_iff verbose r).mpr h)]

theorem length_output_lt (h : ¬ Details.Settled r) (verbose : Bool) :
    (output false verbose r).length < (output true verbose r).length := by
  rw [output_true, output_false]
  exact Piece.length_printed_lt (s := .ground none) trivial
    fun hcalm => h ((Details.calm_pieces_iff verbose r).mp hcalm)

/-! ### Test cases -/

theorem ofResult_of_settled (h : Details.Settled r) (verbose : Bool) :
    ofResult true verbose r = ofResult false verbose r := by
  rw [ofResult, ofResult, output_of_settled h]

theorem length_between_lt {t u : Text} (h : t.length < u.length) (before after : Text) :
    (before ++ t ++ after).length < (before ++ u ++ after).length := by
  simp only [List.length_append]
  omega

/-- The output of an attempted trial stands somewhere in the text of its outcome. -/
theorem Outcome.exists_render_eq {outcome : Text → Outcome}
    (h : outcome = .passed ∨ outcome = .failed) :
    ∃ before after : Text, ∀ t, (outcome t).render = before ++ t ++ after := by
  rcases h with rfl | rfl
  · refine ⟨"<system-out>".toList ++ "<![CDATA[".toList, "]]>".toList ++ "</system-out>".toList,
      fun t => ?_⟩
    unfold Outcome.render characterData
    simp only [List.append_assoc]
  · refine ⟨"<failure".toList ++ attr "type" "exit status mismatch".toList ++
      attr "message" "failed".toList ++ ['>'] ++ "<![CDATA[".toList,
      "]]>".toList ++ "</failure>".toList, fun t => ?_⟩
    unfold Outcome.render characterData
    simp only [List.append_assoc]

theorem length_render_outcome_lt {outcome : Text → Outcome}
    (h : outcome = .passed ∨ outcome = .failed) {t u : Text} (hlt : t.length < u.length)
    (name : Text) (time : Duration) :
    (TestCase.mk name time (outcome t)).render.length <
      (TestCase.mk name time (outcome u)).render.length := by
  obtain ⟨before, after, hrender⟩ := Outcome.exists_render_eq h
  have houtcome := length_between_lt hlt before after
  rw [← hrender, ← hrender] at houtcome
  exact length_between_lt houtcome
    ("<testcase".toList ++ attr "name" name ++ attr "time" (seconds time) ++ ['>'])
    "</testcase>".toList

theorem length_render_lt (h : ¬ Details.Settled r) (verbose : Bool) :
    (ofResult false verbose r).render.length < (ofResult true verbose r).render.length := by
  have hlt := length_output_lt h verbose
  have hverdict : r.verdict ≠ none := fun hnone => h (by rw [Details.Settled, hnone]; trivial)
  unfold ofResult
  split
  · next hnone => exact absurd hnone hverdict
  · exact length_render_outcome_lt (.inl rfl) hlt _ _
  · -- the output of a failure is stripped twice
    rw [output, output, Escape.strip_strip, Escape.strip_strip]
    exact length_render_outcome_lt (.inr rfl) hlt _ _

theorem length_render_le (verbose : Bool) (r : TrialResult) :
    (ofResult false verbose r).render.length ≤ (ofResult true verbose r).render.length := by
  by_cases h : Details.Settled r
  · exact Nat.le_of_eq (congrArg (fun c => c.render.length) (ofResult_of_settled h verbose).symm)
  · exact Nat.le_of_lt (length_render_lt h verbose)

/-! ### Suites -/

/-- The test cases of a suite, as text. -/
def written (color verbose : Bool) (rs : Results) (s : Suite) : Text :=
  (casesOf color verbose rs s).flatMap TestCase.render

theorem length_written (color verbose : Bool) (rs : Results) (s : Suite) :
    (written color verbose rs s).length =
      ((rs.ofSuite s).map fun r => (ofResult color verbose r).render.length).sum := by
  rw [written, casesOf, List.flatMap_map, List.length_flatMap]

theorem length_written_le (verbose : Bool) (rs : Results) (s : Suite) :
    (written false verbose rs s).length ≤ (written true verbose rs s).length := by
  rw [length_written, length_written]
  exact List.sum_le_sum fun r _ => length_render_le verbose r

theorem length_written_lt (hr : r ∈ rs.list) (h : ¬ Details.Settled r) (verbose : Bool) :
    (written false verbose rs r.trial.suite).length <
      (written true verbose rs r.trial.suite).length := by
  rw [length_written, length_written]
  exact List.sum_lt_sum _ _ (fun r _ => length_render_le verbose r)
    ⟨r, Results.mem_ofSuite hr, length_render_lt h verbose⟩

theorem attributes_casesOf (timestamp : Text) (index : Nat) (s : Suite) (time : Duration)
    (color verbose : Bool) (rs : Results) :
    (TestSuite.mk s.name time (casesOf color verbose rs s)).attributes timestamp index =
      (TestSuite.mk s.name time (casesOf false verbose rs s)).attributes timestamp index := by
  have hlength : (casesOf color verbose rs s).length = (casesOf false verbose rs s).length := by
    rw [casesOf, casesOf, List.length_map, List.length_map]
  unfold TestSuite.attributes
  rw [hlength, countP_casesOf, countP_casesOf]

/-- The test cases of a suite stand somewhere in its text, which does not depend on colour
otherwise. -/
theorem exists_render_suite (timestamp : Text) (index : Nat) (s : Suite) (time : Duration)
    (verbose : Bool) (rs : Results) : ∃ before after : Text, ∀ color,
      (TestSuite.mk s.name time (casesOf color verbose rs s)).render timestamp index =
        before ++ written color verbose rs s ++ after := by
  cases hcases : rs.ofSuite s with
  | nil =>
    refine ⟨(TestSuite.mk s.name time []).render timestamp index, [], fun color => ?_⟩
    rw [written, casesOf, hcases, List.append_nil]
    exact (List.append_nil _).symm
  | cons r rest =>
    refine ⟨"<testsuite".toList ++ (TestSuite.mk s.name time
      (casesOf false verbose rs s)).attributes timestamp index ++ ['>'],
      "</testsuite>".toList, fun color => ?_⟩
    have hne : (casesOf color verbose rs s).isEmpty = false := by
      rw [casesOf, hcases]
      rfl
    unfold TestSuite.render
    rw [attributes_casesOf, hne, if_neg Bool.false_ne_true, ← written]
    simp only [List.append_assoc]

theorem length_render_suite_le (timestamp : Text) (index : Nat) (s : Suite) (time : Duration)
    (verbose : Bool) (rs : Results) :
    ((TestSuite.mk s.name time (casesOf false verbose rs s)).render timestamp index).length ≤
      ((TestSuite.mk s.name time (casesOf true verbose rs s)).render timestamp index).length := by
  obtain ⟨before, after, hrender⟩ := exists_render_suite timestamp index s time verbose rs
  have hle := length_written_le verbose rs s
  rw [hrender, hrender]
  simp only [List.length_append]
  omega

theorem length_render_suite_lt (hr : r ∈ rs.list) (h : ¬ Details.Settled r) (timestamp : Text)
    (index : Nat) (time : Duration) (verbose : Bool) :
    ((TestSuite.mk r.trial.suite.name time (casesOf false verbose rs r.trial.suite)).render
        timestamp index).length <
      ((TestSuite.mk r.trial.suite.name time (casesOf true verbose rs r.trial.suite)).render
        timestamp index).length := by
  obtain ⟨before, after, hrender⟩ :=
    exists_render_suite timestamp index r.trial.suite time verbose rs
  rw [hrender, hrender]
  exact length_between_lt (length_written_lt hr h verbose) before after

/-! ### Whole documents -/

theorem suitesOf_of_settled {ss : List Suite}
    (h : ∀ r ∈ rs.list, r.trial.suite ∈ ss → Details.Settled r) (verbose : Bool)
    (time : Suite → Duration) :
    suitesOf true verbose rs time ss = suitesOf false verbose rs time ss := by
  refine List.map_congr_left fun s hs => ?_
  have hcases : casesOf true verbose rs s = casesOf false verbose rs s := by
    refine List.map_congr_left fun r hr => ofResult_of_settled ?_ verbose
    obtain ⟨hmem, hsuite⟩ := List.mem_filter.mp hr
    exact h r hmem (of_decide_eq_true hsuite ▸ hs)
  rw [hcases]

theorem length_renderSuites_le (timestamp : Text) (verbose : Bool) (rs : Results)
    (time : Suite → Duration) (ss : List Suite) (index : Nat) :
    (renderSuites timestamp index (suitesOf false verbose rs time ss)).length ≤
      (renderSuites timestamp index (suitesOf true verbose rs time ss)).length := by
  induction ss generalizing index with
  | nil => exact Nat.le_refl _
  | cons s rest ih =>
    have hsuite := length_render_suite_le timestamp index s (time s) verbose rs
    have hrest := ih (index + 1)
    simp only [suitesOf, List.map_cons, renderSuites, List.length_append] at hrest ⊢
    omega

/-- Of details that are not settled, something is missing without colour, and no other details are
longer then. -/
theorem length_renderSuites_lt (hr : r ∈ rs.list) (h : ¬ Details.Settled r) (timestamp : Text)
    (verbose : Bool) (time : Suite → Duration) {ss : List Suite} (hs : r.trial.suite ∈ ss)
    (index : Nat) :
    (renderSuites timestamp index (suitesOf false verbose rs time ss)).length <
      (renderSuites timestamp index (suitesOf true verbose rs time ss)).length := by
  induction ss generalizing index with
  | nil => cases hs
  | cons s rest ih =>
    have hrest := length_renderSuites_le timestamp verbose rs time rest (index + 1)
    have hsuite := length_render_suite_le timestamp index s (time s) verbose rs
    rcases List.mem_cons.mp hs with rfl | hs
    · have hlt := length_render_suite_lt hr h timestamp index (time r.trial.suite) verbose
      simp only [suitesOf, List.map_cons, renderSuites, List.length_append] at hrest ⊢
      omega
    · have hlt := ih hs (index + 1)
      simp only [suitesOf, List.map_cons, renderSuites, List.length_append] at hlt ⊢
      omega

end JUnit

namespace Report

/-- With colour and without, the same stops a document; and its text is the same exactly where
nothing is left unfinished in the suites that are written. These are all suites unless something
stops it. -/
theorem draft_junit_color (verbose : Bool) (timestamp : Text) (rs : Results) :
    (draft .junit true verbose timestamp rs).stop = (draft .junit false verbose timestamp rs).stop ∧
      ((draft .junit true verbose timestamp rs).text =
          (draft .junit false verbose timestamp rs).text ↔
        ∀ r ∈ rs.list, r.trial.suite ∈ JUnit.reached rs → Details.Settled r) ∧
      ((draft .junit true verbose timestamp rs).stop = none ↔ JUnit.reached rs = Suite.all) := by
  have hdraft (color : Bool) :
      draft .junit color verbose timestamp rs = JUnit.draft color verbose timestamp rs := rfl
  rw [hdraft, hdraft]
  refine ⟨JUnit.stop_draft_color verbose timestamp rs, ?_,
    JUnit.stop_draft_eq_none_iff true verbose timestamp rs⟩
  obtain ⟨time, start, stop, -, -, htext⟩ := JUnit.text_draft_eq timestamp rs
  rw [htext, htext]
  constructor
  · intro heq r hr hreached
    by_contra hunsettled
    have hlt := JUnit.length_between_lt
      (JUnit.length_renderSuites_lt hr hunsettled timestamp verbose time hreached 0) start stop
    exact Nat.ne_of_lt hlt (congrArg List.length heq.symm)
  · intro hsettled
    rw [JUnit.suitesOf_of_settled hsettled]

namespace Sample

/-- A trial for which the compiler wrote the beginning of an operating system command. -/
def unfinished : Results := ⟨[JUnit.Sample.ran .error "a" "\x1b]".toList .fail]⟩

end Sample

/-- What a compiler wrote can take the outcome out of a document, if it is not in colour. -/
theorem not_draft_junit_color :
    (draft .junit true false JUnit.Sample.stamp Sample.unfinished).text ≠
        (draft .junit false false JUnit.Sample.stamp Sample.unfinished).text ∧
      "FAILED.".toList <:+: (draft .junit true false JUnit.Sample.stamp Sample.unfinished).text ∧
      ¬ "FAILED.".toList <:+:
        (draft .junit false false JUnit.Sample.stamp Sample.unfinished).text := by
  have hcolor : "FAILED.".toList <:+:
      (draft .junit true false JUnit.Sample.stamp Sample.unfinished).text :=
    Text.occursIn_iff.mp (by decide +kernel)
  have hplain : ¬ "FAILED.".toList <:+:
      (draft .junit false false JUnit.Sample.stamp Sample.unfinished).text :=
    Text.occursIn_iff.not.mp (by decide +kernel)
  exact ⟨fun heq => hplain (heq ▸ hcolor), hcolor, hplain⟩

end Report

end CompilerTrials
