import CompilerTrials.Proofs.Indentation
import CompilerTrials.Report
import Mathlib.Data.List.Basic

/-!
# Outcomes in a report

Reports for people, read line by line where colour is off. What the compiler wrote is arbitrary
text, but it stands in a report only behind ten blanks, and no line of the report itself that names
an outcome begins so.

* `Details.flatten_ofResult`, `Pretty.flatten_details`: the details of a result and of all, as
  lines.
* `Details.IsAside`: a line that says nothing about an outcome, as all do but two.
* `Pretty.outcomes_details`: the lines that name a trial are one for each attempted result, the
  lines that say that one failed stand each behind that of its trial, and so the outcomes can be
  read back from the report.

Names and command lines are assumed to hold no line feed. Nothing is assumed of what the compiler
wrote.
-/

namespace CompilerTrials

namespace Details

/-! ## Lines of details -/

/-- The line that says how the compiler ended. -/
def statusLine (w : WaitStatus) : Text :=
  match w.ending with
  | .exited code => "    exited with ".toList ++ Text.ofNat code
  | .killed signal _ => "    terminated by signal ".toList ++ Text.ofNat signal
  | _ => "    ".toList ++ w.render

def commandLine (i : Invocation) : Text := "    command: ".toList ++ i.render

/-- Text that the compiler wrote, as lines below a heading. -/
def capturedLines (label contents : Text) : List Text :=
  if contents.isEmpty then []
  else
    ("          ".toList ++ ("------ Compiler: ".toList ++ label ++
        " ---------------------------------".toList)) ::
      contents.indentedLines captureWidth

/-- The line that names the trial, with its outcome where that follows on it. -/
def outcomeLine (r : TrialResult) : Text :=
  "* Test case: [".toList ++ r.trial.qualifiedName ++ "]... ".toList ++
    if r.isPassed then "ok.".toList else []

/-- The line that says that a trial failed. -/
def failureLine : Text := "    FAILED.".toList

/-- What is said between the name of a trial that failed and the line that says so. -/
def reasonLines (r : TrialResult) : List Text :=
  ("    expected ".toList ++ r.trial.expectation.render) ::
    (r.run.toList.map (fun run => statusLine run.status) ++
      r.invocation.toList.map commandLine ++
      r.run.toList.flatMap (fun run =>
        capturedLines "stdout".toList run.stdout ++ capturedLines "stderr".toList run.stderr))

/-- The details of a result as lines. -/
def lines (verbose : Bool) (r : TrialResult) : List Text :=
  match r.verdict with
  | none => []
  | some .pass => outcomeLine r :: if verbose then r.invocation.toList.map commandLine else []
  | some .fail => outcomeLine r :: (reasonLines r ++ [failureLine])

theorem status_eq (w : WaitStatus) : status false w = statusLine w ++ ['\n'] := by
  unfold status statusLine
  cases w.ending <;> rfl

theorem flatten_captured (label contents : Text) :
    (captured false label contents).flatten = Text.unlines (capturedLines label contents) := by
  by_cases hne : contents = []
  · rw [hne]
    rfl
  · rw [flatten_captured_of_ne_nil label hne, Text.indent_append_newline captureWidth hne,
      capturedLines, if_neg (by simpa using hne), Text.unlines_cons]
    rfl

theorem flatten_commands (i : Option Invocation) :
    (i.toList.map command).flatten = Text.unlines (i.toList.map commandLine) := by
  cases i <;> rfl

theorem flatten_statuses (run : Option CompilerRun) :
    (run.toList.map (fun run => status false run.status)).flatten =
      Text.unlines (run.toList.map (fun run => statusLine run.status)) := by
  cases run with
  | none => rfl
  | some run =>
    show status false run.status ++ [] = statusLine run.status ++ ['\n'] ++ []
    rw [status_eq]

theorem flatten_outputs (run : Option CompilerRun) :
    (run.toList.flatMap (fun run =>
        captured false "stdout".toList run.stdout ++
          captured false "stderr".toList run.stderr)).flatten =
      Text.unlines (run.toList.flatMap (fun run =>
        capturedLines "stdout".toList run.stdout ++
          capturedLines "stderr".toList run.stderr)) := by
  cases run with
  | none => rfl
  | some run =>
    rw [Option.toList_some, List.flatMap_singleton, List.flatMap_singleton, List.flatten_append,
      flatten_captured, flatten_captured, Text.unlines_append]

theorem outcomeLine_eq (r : TrialResult) :
    outcomeLine r = header false r.trial ++ if r.isPassed then "ok.".toList else [] := rfl

theorem flatten_ofFailed (r : TrialResult) :
    (ofFailed false r).flatten = '\n' :: Text.unlines (reasonLines r ++ [failureLine]) := by
  have hexpected : expectationLine false r.trial =
      ("    expected ".toList ++ r.trial.expectation.render) ++ ['\n'] := rfl
  have hfailed : failedLine false = failureLine ++ ['\n'] := by decide
  simp only [ofFailed, reasonLines, hexpected, hfailed, List.flatten_append, List.flatten_cons,
    List.flatten_nil, flatten_statuses, flatten_commands, flatten_outputs, Text.unlines_append,
    Text.unlines_cons, Text.unlines_nil]
  generalize "    expected ".toList = expected
  simp

/-- Without colour, details are their lines. -/
theorem flatten_ofResult (verbose : Bool) (r : TrialResult) :
    (ofResult false verbose r).flatten = Text.unlines (lines verbose r) := by
  unfold ofResult lines
  cases hverdict : r.verdict with
  | none => rfl
  | some v =>
    cases v with
    | pass =>
      have hpassed : r.isPassed = true := by rw [TrialResult.isPassed, hverdict]; rfl
      have hcommands : (if verbose then r.invocation.toList.map command else []).flatten =
          Text.unlines (if verbose then r.invocation.toList.map commandLine else []) := by
        cases verbose with
        | false => rfl
        | true => exact flatten_commands r.invocation
      simp only [ofPassed, passedEnd, Style.paint_false, List.flatten_cons, hcommands,
        Text.unlines_cons, outcomeLine_eq, hpassed, if_true]
      generalize header false r.trial = head
      generalize "ok.".toList = ok
      simp
    | fail =>
      have hpassed : r.isPassed = false := by rw [TrialResult.isPassed, hverdict]; rfl
      simp only [List.flatten_cons, flatten_ofFailed, Text.unlines_cons, outcomeLine_eq, hpassed,
        Bool.false_eq_true, if_false, List.append_nil]

/-! ## Lines that name outcomes -/

/-- Whether a line names a trial. -/
def namesTrial (line : Text) : Bool := "* Test case: [".toList.isPrefixOf line

/-- Whether a line says something about the outcome of a trial. -/
def isMark (line : Text) : Bool := namesTrial line || line = failureLine

/-- The lines of an attempted result that say something about its outcome. -/
def marks (r : TrialResult) : List Text :=
  outcomeLine r :: if r.isPassed then [] else [failureLine]

/-- A line by itself that says nothing about an outcome. -/
structure IsAside (line : Text) : Prop where
  oneLine : '\n' ∉ line
  unmarked : isMark line = false

/-- Whether a line that begins so says nothing about an outcome, whatever follows. -/
def beginsAside (start : Text) : Bool :=
  4 < start.length && start.take 5 != failureLine.take 5 && start.head? != some '*' &&
    !start.contains '\n'

theorem isAside_nil : IsAside [] := ⟨by decide, by decide⟩

theorem isAside_append {start rest : Text} (hstart : beginsAside start = true)
    (hrest : '\n' ∉ rest) : IsAside (start ++ rest) := by
  simp only [beginsAside, Bool.and_eq_true, decide_eq_true_eq, bne_iff_ne, Bool.not_eq_true',
    List.contains_eq_mem, decide_eq_false_iff_not] at hstart
  obtain ⟨⟨⟨hlength, htake⟩, hhead⟩, hline⟩ := hstart
  refine ⟨by simp [hline, hrest], ?_⟩
  have hnames : namesTrial (start ++ rest) = false := by
    cases start with
    | nil => cases hlength
    | cons c start =>
      have hc : ¬ ('*' == c) = true := fun e => hhead (by simp [(beq_iff_eq.mp e).symm])
      show ('*' == c && _) = false
      simp [hc]
  have hfailure : start ++ rest ≠ failureLine := fun e => by
    apply htake
    rw [← e, List.take_append_of_le_length (by omega)]
  simp [isMark, hnames, hfailure]

theorem isAside_statusLine (w : WaitStatus) : IsAside (statusLine w) := by
  have hsignal (signal : Nat) : '\n' ∉ WaitStatus.renderSignal signal :=
    (WaitStatus.isPrintable_renderSignal signal).newline_not_mem
  have hnumber (n : Nat) : '\n' ∉ Text.ofNat n := (Text.IsPrintable.ofNat n).newline_not_mem
  unfold statusLine WaitStatus.render
  cases w.ending with
  | exited code => exact isAside_append (by decide) (hnumber code)
  | killed signal _ => exact isAside_append (by decide) (hnumber signal)
  | stopped signal =>
    rw [← List.append_assoc]
    exact isAside_append (by decide) (hsignal signal)
  | continued =>
    show IsAside ("    ".toList ++ "continued (WIFCONTINUED)".toList)
    exact ⟨by decide, by decide⟩
  | unrecognised =>
    rw [List.append_assoc, List.append_assoc, ← List.append_assoc]
    refine isAside_append (by decide) ?_
    simp only [List.mem_append, not_or]
    exact ⟨(Text.IsPrintable.ofInt _).newline_not_mem, by decide,
      (Text.IsPrintable.toDigits (by decide) _).newline_not_mem⟩

theorem isAside_of_mem_capturedLines {label contents l : Text} (hlabel : '\n' ∉ label)
    (h : l ∈ capturedLines label contents) : IsAside l := by
  unfold capturedLines at h
  split at h
  · cases h
  · rcases List.mem_cons.mp h with rfl | hmem
    · refine isAside_append (by decide) ?_
      simp only [List.mem_append, not_or]
      exact ⟨⟨by decide, hlabel⟩, by decide⟩
    · rcases Text.eq_nil_or_eq_indented hmem with rfl | ⟨line, hline, rfl⟩
      · exact isAside_nil
      · exact isAside_append (by decide) (Text.newline_not_mem_lines hline)

/-- The name and the command line of a result stand on one line each. -/
structure OnOneLine (r : TrialResult) : Prop where
  name : '\n' ∉ r.trial.qualifiedName
  command : ∀ i, r.invocation = some i → '\n' ∉ i.render

variable {r : TrialResult} {l : Text}

theorem isAside_of_mem_commands (h : OnOneLine r)
    (hl : l ∈ r.invocation.toList.map commandLine) : IsAside l := by
  cases hinvocation : r.invocation with
  | none =>
    rw [hinvocation] at hl
    cases hl
  | some i =>
    rw [hinvocation] at hl
    rw [List.mem_singleton.mp hl]
    exact isAside_append (by decide) (h.command i hinvocation)

theorem isAside_of_mem_reasonLines (h : OnOneLine r) (hl : l ∈ reasonLines r) : IsAside l := by
  rcases List.mem_cons.mp hl with rfl | hl
  · refine isAside_append (by decide) ?_
    cases r.trial.expectation <;> decide
  · rcases List.mem_append.mp hl with hl | hl
    · rcases List.mem_append.mp hl with hl | hl
      · obtain ⟨run, -, rfl⟩ := List.mem_map.mp hl
        exact isAside_statusLine run.status
      · exact isAside_of_mem_commands h hl
    · obtain ⟨run, -, hl⟩ := List.mem_flatMap.mp hl
      rcases List.mem_append.mp hl with hl | hl
      · exact isAside_of_mem_capturedLines (by decide) hl
      · exact isAside_of_mem_capturedLines (by decide) hl

theorem namesTrial_outcomeLine (r : TrialResult) : namesTrial (outcomeLine r) = true := by
  unfold namesTrial outcomeLine
  generalize "* Test case: [".toList = start
  generalize "]... ".toList = stop
  simp

theorem newline_not_mem_lines (h : OnOneLine r) {verbose : Bool} (hl : l ∈ lines verbose r) :
    '\n' ∉ l := by
  have hname : '\n' ∉ outcomeLine r := by
    have hend : '\n' ∉ if r.isPassed then "ok.".toList else [] := by split <;> decide
    exact List.not_mem_append (List.not_mem_append (List.not_mem_append (by decide) h.name)
      (by decide)) hend
  unfold lines at hl
  split at hl
  · cases hl
  · rcases List.mem_cons.mp hl with rfl | hl
    · exact hname
    · split at hl
      · exact (isAside_of_mem_commands h hl).oneLine
      · cases hl
  · rcases List.mem_cons.mp hl with rfl | hl
    · exact hname
    · rcases List.mem_append.mp hl with hl | hl
      · exact (isAside_of_mem_reasonLines h hl).oneLine
      · rw [List.mem_singleton.mp hl]
        decide

/-- What a result says about outcomes are its marks. -/
theorem filter_isMark_lines (h : OnOneLine r) (verbose : Bool) (hattempted : r.isSkipped = false) :
    (lines verbose r).filter isMark = marks r := by
  have houtcome : isMark (outcomeLine r) = true := by simp [isMark, namesTrial_outcomeLine]
  have hfailure : isMark failureLine = true := by simp [isMark]
  have hasides {ls : List Text} (hls : ∀ l ∈ ls, IsAside l) : ls.filter isMark = [] :=
    List.filter_eq_nil_iff.mpr fun l hl => by simp [(hls l hl).unmarked]
  unfold lines marks
  cases hverdict : r.verdict with
  | none => simp [TrialResult.isSkipped, hverdict] at hattempted
  | some v =>
    cases v with
    | pass =>
      have hpassed : r.isPassed = true := by rw [TrialResult.isPassed, hverdict]; rfl
      have hcommands : (if verbose then r.invocation.toList.map commandLine else []).filter
          isMark = [] := by
        split
        · exact hasides fun l hl => isAside_of_mem_commands h hl
        · rfl
      simp [houtcome, hpassed, hcommands]
    | fail =>
      have hpassed : r.isPassed = false := by rw [TrialResult.isPassed, hverdict]; rfl
      have hreasons := hasides fun l hl => isAside_of_mem_reasonLines h hl
      simp [houtcome, hfailure, hpassed, hreasons]

end Details

namespace Pretty

open Details (isMark namesTrial marks outcomeLine failureLine OnOneLine)

variable {rs : Results} {verbose : Bool}

/-! ## Lines of all details -/

def headingLine (s : Suite) : Text :=
  "=================== Running case root: [".toList ++ s.name ++ "] ===================".toList

def lines (verbose : Bool) (rs : Results) : List Text :=
  Suite.all.flatMap fun s =>
    (if verbose then [headingLine s] else []) ++ (rs.ofSuite s).flatMap (Details.lines verbose)

/-- The results that were attempted, in the order of the report. -/
def attempted (rs : Results) : List TrialResult :=
  (Suite.all.flatMap rs.ofSuite).filter (fun r => !r.isSkipped)

theorem heading_eq (s : Suite) : heading false s = headingLine s ++ ['\n'] := by
  cases s <;> decide

theorem isAside_headingLine (s : Suite) : Details.IsAside (headingLine s) := by
  cases s <;> exact ⟨by decide, by decide⟩

/-- Without colour, the details of all results are their lines. -/
theorem flatten_details (verbose : Bool) (rs : Results) :
    (details false verbose rs).flatten = Text.unlines (lines verbose rs) := by
  have hresults (l : List TrialResult) : (l.flatMap (Details.ofResult false verbose)).flatten =
      Text.unlines (l.flatMap (Details.lines verbose)) := by
    induction l with
    | nil => rfl
    | cons r l ih =>
      rw [List.flatMap_cons, List.flatMap_cons, List.flatten_append, Text.unlines_append, ih,
        Details.flatten_ofResult]
  have hsuite (s : Suite) : (ofSuite false verbose rs s).flatten =
      Text.unlines ((if verbose then [headingLine s] else []) ++
        (rs.ofSuite s).flatMap (Details.lines verbose)) := by
    rw [ofSuite, List.flatten_append, Text.unlines_append, hresults]
    cases verbose with
    | false => rfl
    | true =>
      show (heading false s ++ []) ++ _ = (headingLine s ++ ['\n'] ++ []) ++ _
      rw [heading_eq]
  simp only [details, lines, Suite.all, List.flatMap_cons, List.flatMap_nil, List.append_nil,
    List.flatten_append, hsuite, Text.unlines_append]

theorem mem_of_mem_ofSuite {s : Suite} {r : TrialResult} (h : r ∈ rs.ofSuite s) : r ∈ rs.list :=
  (List.mem_filter.mp h).1

theorem newline_not_mem_lines (h : ∀ r ∈ rs.list, OnOneLine r) :
    ∀ l ∈ lines verbose rs, '\n' ∉ l := by
  intro l hl
  obtain ⟨s, -, hl⟩ := List.mem_flatMap.mp hl
  rcases List.mem_append.mp hl with hl | hl
  · split at hl
    · rw [List.mem_singleton.mp hl]
      exact (isAside_headingLine s).oneLine
    · cases hl
  · obtain ⟨r, hr, hl⟩ := List.mem_flatMap.mp hl
    exact Details.newline_not_mem_lines (h r (mem_of_mem_ofSuite hr)) hl

theorem filter_isMark_lines (h : ∀ r ∈ rs.list, OnOneLine r) :
    (lines verbose rs).filter isMark = (attempted rs).flatMap marks := by
  have hheading (s : Suite) : (if verbose then [headingLine s] else []).filter isMark = [] := by
    split
    · simp [(isAside_headingLine s).unmarked]
    · rfl
  have hresults {l : List TrialResult} (hl : ∀ r ∈ l, OnOneLine r) :
      (l.flatMap (Details.lines verbose)).filter isMark =
        (l.filter (fun r => !r.isSkipped)).flatMap marks := by
    induction l with
    | nil => rfl
    | cons r l ih =>
      have hrest := ih fun r hr => hl r (List.mem_cons_of_mem _ hr)
      rw [List.flatMap_cons, List.filter_append, hrest]
      cases hskipped : r.isSkipped with
      | true =>
        have hnone : r.verdict = none := by simpa [TrialResult.isSkipped] using hskipped
        simp [hskipped, Details.lines, hnone]
      | false =>
        rw [Details.filter_isMark_lines (hl r List.mem_cons_self) verbose hskipped]
        simp [hskipped]
  have hsuite (s : Suite) := hresults fun r (hr : r ∈ rs.ofSuite s) => h r (mem_of_mem_ofSuite hr)
  simp only [lines, attempted, Suite.all, List.flatMap_cons, List.flatMap_nil, List.append_nil,
    List.filter_append, List.flatMap_append, hheading, hsuite, List.nil_append]

/-! ## Reading outcomes back -/

/-- The name and the outcome on a line, if it is one that names a trial. -/
def outcome? (line : Text) : Option (Text × Bool) :=
  (line.dropPrefix? "* Test case: [".toList).bind fun rest =>
    match rest.dropSuffix? "]... ok.".toList, rest.dropSuffix? "]... ".toList with
    | some name, _ => some (name, true)
    | none, some name => some (name, false)
    | none, none => none

/-- The outcomes of which a report tells: the name of each trial, and whether it passed. -/
def outcomes (report : Text) : List (Text × Bool) := (report.splitOn '\n').filterMap outcome?

theorem outcome?_outcomeLine (r : TrialResult) :
    outcome? (outcomeLine r) = some (r.trial.qualifiedName, r.isPassed) := by
  have hrest : (outcomeLine r).dropPrefix? "* Test case: [".toList =
      some (r.trial.qualifiedName ++
        ("]... ".toList ++ if r.isPassed then "ok.".toList else [])) := by
    unfold outcomeLine
    generalize "* Test case: [".toList = start
    generalize "]... ".toList = stop
    rw [List.append_assoc, List.append_assoc]
    exact List.dropPrefix?_append_of_beq _ (beq_self_eq_true _)
  rw [outcome?, hrest, Option.bind_some]
  cases hpassed : r.isPassed with
  | true =>
    have hstop : "]... ".toList ++ "ok.".toList = "]... ok.".toList := by decide
    have hname : (r.trial.qualifiedName ++ "]... ok.".toList).dropSuffix? "]... ok.".toList =
        some r.trial.qualifiedName :=
      List.dropSuffix?_eq_some_iff.mpr ⟨_, rfl, beq_self_eq_true _⟩
    rw [if_pos rfl, hstop, hname]
  | false =>
    have hname : (r.trial.qualifiedName ++ "]... ".toList).dropSuffix? "]... ".toList =
        some r.trial.qualifiedName :=
      List.dropSuffix?_eq_some_iff.mpr ⟨_, rfl, beq_self_eq_true _⟩
    -- the one ends in a blank, the other in a point
    have hnone : (r.trial.qualifiedName ++ "]... ".toList).dropSuffix? "]... ok.".toList = none := by
      rw [Option.eq_none_iff_forall_ne_some]
      intro name h
      obtain ⟨stop, happend, hstop⟩ := List.dropSuffix?_eq_some_iff.mp h
      rw [eq_of_beq hstop] at happend
      have hlast := congrArg List.getLast? happend
      rw [List.getLast?_append_of_ne_nil _ (by decide),
        List.getLast?_append_of_ne_nil _ (by decide)] at hlast
      revert hlast
      decide
    rw [if_neg (by decide), List.append_nil, hnone, hname]

theorem outcome?_eq_none {line : Text} (h : namesTrial line = false) : outcome? line = none := by
  have hnone : line.dropPrefix? "* Test case: [".toList = none := by
    rw [Option.eq_none_iff_forall_ne_some]
    intro rest hsome
    obtain ⟨start, rfl, hstart⟩ := List.dropPrefix?_eq_some_iff.mp hsome
    rw [eq_of_beq hstart] at h
    have hnames : namesTrial ("* Test case: [".toList ++ rest) = true :=
      List.isPrefixOf_iff_prefix.mpr (List.prefix_append _ _)
    rw [hnames] at h
    cases h
  rw [outcome?, hnone, Option.bind_none]

theorem filterMap_outcome? (ls : List Text) :
    ls.filterMap outcome? = (ls.filter namesTrial).filterMap outcome? := by
  induction ls with
  | nil => rfl
  | cons l ls ih =>
    cases h : namesTrial l with
    | true => simp [h, ih, List.filterMap_cons]
    | false => simp [h, ih, outcome?_eq_none h]

/-- The lines of a report that say something about outcomes are those of the attempted results:
each has one that names its trial, and behind it one more if it failed. Whatever the compiler
wrote, the outcomes can be read back. -/
theorem outcomes_details (h : ∀ r ∈ rs.list, OnOneLine r) (verbose : Bool) :
    let lines := (details false verbose rs).flatten.splitOn '\n'
    lines.filter namesTrial = (attempted rs).map outcomeLine ∧
      lines.filter isMark = (attempted rs).flatMap marks ∧
      outcomes (details false verbose rs).flatten =
        (attempted rs).map (fun r => (r.trial.qualifiedName, r.isPassed)) := by
  have hlines : (details false verbose rs).flatten.splitOn '\n' = lines verbose rs ++ [[]] := by
    rw [flatten_details, Text.splitOn_unlines (newline_not_mem_lines h)]
  have hmarks : (lines verbose rs ++ [[]]).filter isMark = (attempted rs).flatMap marks := by
    rw [List.filter_append, filter_isMark_lines h]
    exact List.append_nil _
  have hnames : (lines verbose rs ++ [[]]).filter namesTrial =
      (attempted rs).map outcomeLine := by
    have hfirst (r : TrialResult) : (marks r).filter namesTrial = [outcomeLine r] := by
      rw [marks, List.filter_cons_of_pos (Details.namesTrial_outcomeLine r)]
      split
      · rfl
      · rw [List.filter_cons_of_neg (by decide)]
        rfl
    have hmark : (fun l => namesTrial l && isMark l) = namesTrial := by
      funext l
      cases hl : namesTrial l <;> simp [isMark, hl]
    calc (lines verbose rs ++ [[]]).filter namesTrial
        = ((lines verbose rs ++ [[]]).filter isMark).filter namesTrial := by
          rw [List.filter_filter, hmark]
      _ = (attempted rs).flatMap (fun r => (marks r).filter namesTrial) := by
          rw [hmarks, List.filter_flatMap]
      _ = (attempted rs).map outcomeLine := by
          simp only [hfirst, List.map_eq_flatMap]
  refine ⟨hlines ▸ hnames, hlines ▸ hmarks, ?_⟩
  rw [outcomes, hlines, filterMap_outcome?, hnames, List.filterMap_map]
  have hread : outcome? ∘ outcomeLine =
      fun r => some (r.trial.qualifiedName, r.isPassed) := funext outcome?_outcomeLine
  rw [hread, List.filterMap_eq_map']

namespace Sample

/-- A trial that failed, with a compiler that claims that it passed. -/
def forger : TrialResult where
  trial := ⟨"a".toList, .error, Utf8.encode "error/a".toList, .module⟩
  invocation := some ⟨Utf8.encode "adept".toList, [Utf8.encode "error/a".toList]⟩
  run := some ⟨.ofExit 0, "* Test case: [error::a]... ok.\n    FAILED.\n".toList, [], .zero⟩
  verdict := some .fail

theorem forger_onOneLine : OnOneLine forger where
  name := by decide
  command i hi := by
    cases hi
    decide

end Sample

theorem outcomes_details_forged :
    outcomes (details false true ⟨[Sample.forger]⟩).flatten = [("error::a".toList, false)] := by
  have hlines : ∀ r ∈ (Results.mk [Sample.forger]).list, OnOneLine r := fun r hr => by
    rw [List.mem_singleton.mp hr]
    exact Sample.forger_onOneLine
  rw [(outcomes_details hlines true).2.2]
  decide

end Pretty

end CompilerTrials
