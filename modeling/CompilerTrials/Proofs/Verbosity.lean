import CompilerTrials.Report

/-!
# Verbose reports

A verbose report for people is a brief one with lines inserted. Both are written here from the same
parts: a part is what every report has at some place, and what only a verbose one has behind it.

* `Part`: the two texts of a part, and what is written of it.
* `Details.part`, `Pretty.parts`: the parts of details, and of the details of all results.
* `Details.written_part`, `Pretty.written_parts`: what is written of them are the details.
* `Pretty.headingWords`: the line above the results of a suite, letter by letter.
* `Pretty.draft_inserts`: which lines a verbose report has besides those of a brief one, and where.
-/

namespace CompilerTrials

/-- The text is made of whole lines: nothing stands behind its last line feed. -/
def Text.IsWhole (t : Text) : Prop := t = [] ∨ ∃ u, t = u ++ ['\n']

theorem Text.isWhole_line (t : Text) : IsWhole (t ++ ['\n']) := .inr ⟨t, rfl⟩

/-- What every report has at some place, and what only a verbose one has behind it. -/
structure Part where
  text : Text
  addition : Text
deriving DecidableEq, Repr

def Part.written (verbose : Bool) (p : Part) : Text := p.text ++ if verbose then p.addition else []

namespace TrialResult

variable {r : TrialResult}

theorem not_isPassed_of_isFailed (h : r.isFailed = true) : ¬ r.isPassed = true := by
  have hverdict : r.verdict = some .fail := of_decide_eq_true h
  rw [isPassed, hverdict]
  decide

theorem not_isPassed_of_isSkipped (h : r.isSkipped = true) : ¬ r.isPassed = true := by
  have hverdict : r.verdict = none := Option.isNone_iff_eq_none.mp h
  rw [isPassed, hverdict]
  decide

end TrialResult

namespace Details

open Text (IsWhole)

variable {r : TrialResult}

/-! ## Parts of details -/

/-- What a brief report says of a trial that passed. -/
def okLine (color : Bool) (c : Trial) : Text :=
  header color c ++ Style.brightGreen.paint color "ok.".toList ++ ['\n']

/-- The details of a result; only of a trial that passed there is more to say. -/
def part (color : Bool) (r : TrialResult) : Part where
  text := (ofResult color false r).flatten
  addition := if r.isPassed then r.invocation.toList.flatMap command else []

theorem ofResult_of_skipped (h : r.isSkipped = true) (color verbose : Bool) :
    ofResult color verbose r = [] := by
  have hverdict : r.verdict = none := Option.isNone_iff_eq_none.mp h
  rw [ofResult, hverdict]

/-- Of a trial that did not pass, every report has the same details. -/
theorem ofResult_of_not_passed (h : ¬ r.isPassed = true) (color verbose : Bool) :
    ofResult color verbose r = ofResult color false r := by
  unfold ofResult
  split
  · rfl
  · next hverdict => exact absurd (decide_eq_true hverdict) h
  · rfl

theorem flatten_ofResult_of_passed (h : r.isPassed = true) (color verbose : Bool) :
    (ofResult color verbose r).flatten =
      okLine color r.trial ++ if verbose then r.invocation.toList.flatMap command else [] := by
  have hverdict : r.verdict = some .pass := of_decide_eq_true h
  have hcommands : (if verbose then r.invocation.toList.map command else []).flatten =
      if verbose then r.invocation.toList.flatMap command else [] := by
    cases verbose with
    | false => rfl
    | true => rfl
  rw [ofResult, hverdict]
  show (header color r.trial :: ofPassed color verbose r).flatten = _
  rw [ofPassed, List.flatten_cons, List.flatten_cons, hcommands, passedEnd, okLine,
    List.append_assoc, List.append_assoc, List.append_assoc]

theorem part_of_passed (h : r.isPassed = true) (color : Bool) :
    part color r = ⟨okLine color r.trial, r.invocation.toList.flatMap command⟩ := by
  rw [part, flatten_ofResult_of_passed h, if_pos h, if_neg Bool.false_ne_true, List.append_nil]

theorem part_of_not_passed (h : ¬ r.isPassed = true) (color : Bool) :
    part color r = ⟨(ofResult color false r).flatten, []⟩ := by
  rw [part, if_neg h]

/-- What is written of the part of a result are its details. -/
theorem written_part (color verbose : Bool) (r : TrialResult) :
    (part color r).written verbose = (ofResult color verbose r).flatten := by
  by_cases hpassed : r.isPassed = true
  · rw [part_of_passed hpassed, flatten_ofResult_of_passed hpassed, Part.written]
  · rw [part_of_not_passed hpassed, ofResult_of_not_passed hpassed color verbose, Part.written,
      ite_self, List.append_nil]

/-! ### Whole lines -/

theorem isWhole_commands (i : Option Invocation) : IsWhole (i.toList.flatMap command) := by
  cases i with
  | none => exact .inl rfl
  | some i =>
    rw [Option.toList_some, List.flatMap_singleton]
    exact Text.isWhole_line _

theorem isWhole_failed (color : Bool) (r : TrialResult) :
    IsWhole (header color r.trial :: ofFailed color r).flatten := by
  rw [ofFailed, List.flatten_cons, List.flatten_append, List.flatten_singleton, failedLine,
    ← List.append_assoc, ← List.append_assoc]
  exact Text.isWhole_line _

theorem isWhole_part (color : Bool) (r : TrialResult) :
    (part color r).text.IsWhole ∧ (part color r).addition.IsWhole := by
  by_cases hpassed : r.isPassed = true
  · rw [part_of_passed hpassed]
    exact ⟨Text.isWhole_line _, isWhole_commands r.invocation⟩
  · rw [part_of_not_passed hpassed]
    refine ⟨?_, .inl rfl⟩
    show IsWhole (ofResult color false r).flatten
    unfold ofResult
    split
    · exact .inl rfl
    · next hverdict => exact absurd (decide_eq_true hverdict) hpassed
    · exact isWhole_failed color r

end Details

namespace Pretty

/-! ## Parts of a report -/

/-- Each suite begins with its heading, where the report is verbose. -/
def parts (color : Bool) (rs : Results) : List Part :=
  Suite.all.flatMap fun s => ⟨[], heading color s⟩ :: (rs.ofSuite s).map (Details.part color)

theorem written_results (color verbose : Bool) (l : List TrialResult) :
    (l.map (Details.part color)).flatMap (Part.written verbose) =
      (l.flatMap (Details.ofResult color verbose)).flatten := by
  induction l with
  | nil => rfl
  | cons r l ih =>
    rw [List.map_cons, List.flatMap_cons, List.flatMap_cons, List.flatten_append, ih,
      Details.written_part]

theorem written_parts (color verbose : Bool) (rs : Results) :
    (parts color rs).flatMap (Part.written verbose) = (details color verbose rs).flatten := by
  have hheading (s : Suite) : Part.written verbose ⟨[], heading color s⟩ =
      (if verbose then [heading color s] else []).flatten := by
    cases verbose with
    | false => rfl
    | true => exact (List.append_nil _).symm
  have hsuite (s : Suite) : (ofSuite color verbose rs s).flatten =
      Part.written verbose ⟨[], heading color s⟩ ++
        ((rs.ofSuite s).map (Details.part color)).flatMap (Part.written verbose) := by
    rw [ofSuite, List.flatten_append, hheading, written_results]
  simp only [parts, details, Suite.all, List.flatMap_cons, List.flatMap_nil, List.append_nil,
    List.flatMap_append, List.flatten_append, hsuite]

/-- The line above the results of a suite, letter by letter. -/
def headingWords (color : Bool) (s : Suite) : Text :=
  let root := match s with
    | .success => "success".toList
    | .error => "error".toList
  if color then
    "=================== \x1b[34mRunning case root\x1b[0m: [\x1b[3m".toList ++ root ++
      "\x1b[0m] ===================".toList
  else "=================== Running case root: [".toList ++ root ++ "] ===================".toList

/-- A heading is one line, which names the suite. -/
theorem heading_words (color : Bool) (s : Suite) :
    '\n' ∉ headingWords color s ∧ heading color s = headingWords color s ++ ['\n'] := by
  cases color <;> cases s <;> decide

theorem isWhole_parts {color : Bool} {rs : Results} {p : Part} (h : p ∈ parts color rs) :
    p.text.IsWhole ∧ p.addition.IsWhole := by
  obtain ⟨s, -, hp⟩ := List.mem_flatMap.mp h
  rcases List.mem_cons.mp hp with rfl | hp
  · exact ⟨.inl rfl, .inr ⟨headingWords color s, (heading_words color s).2⟩⟩
  · obtain ⟨r, -, rfl⟩ := List.mem_map.mp hp
    exact Details.isWhole_part color r

/-- A verbose report is the brief one with lines inserted: the heading of each suite, which is one
line that names the suite, before its results, also if it has none, and the command line of each
trial that passed and has one, behind the line that says so. Of a trial that failed both have the
same details, of one that was left out neither has any; and the summary is the same. -/
theorem draft_inserts (color : Bool) (rs : Results) :
    (∀ verbose, (draft color verbose rs).text =
        (parts color rs).flatMap (Part.written verbose) ++ (Summary.draft color rs).text ∧
      (draft color verbose rs).stop = (Summary.draft color rs).stop) ∧
    parts color rs = [Suite.success, Suite.error].flatMap (fun s => ⟨[], heading color s⟩ ::
      (rs.list.filter fun r => r.trial.suite = s).map (Details.part color)) ∧
    (∀ s, '\n' ∉ headingWords color s ∧ heading color s = headingWords color s ++ ['\n']) ∧
    (∀ r : TrialResult, r.isPassed = true → Details.part color r =
      ⟨"* ".toList ++ Style.brightYellow.paint color "Test case".toList ++ ": [".toList ++
          Style.italic.paint color r.trial.qualifiedName ++ "]... ".toList ++
          Style.brightGreen.paint color "ok.".toList ++ ['\n'],
        r.invocation.toList.flatMap fun i => "    command: ".toList ++
          [' '].intercalate ((i.program :: i.args).map Path.display) ++ ['\n']⟩) ∧
    (∀ r : TrialResult, r.isFailed = true →
      (∀ verbose, Details.ofResult color verbose r = Details.ofResult color false r) ∧
        Details.part color r = ⟨(Details.ofResult color false r).flatten, []⟩) ∧
    (∀ r : TrialResult, r.isSkipped = true →
      (∀ verbose, Details.ofResult color verbose r = []) ∧ Details.part color r = ⟨[], []⟩) ∧
    ∀ p ∈ parts color rs, p.text.IsWhole ∧ p.addition.IsWhole := by
  refine ⟨?_, rfl, heading_words color, ?_, ?_, ?_, fun p hp => isWhole_parts hp⟩
  · intro verbose
    rw [written_parts]
    exact ⟨List.flatten_append, rfl⟩
  · intro r hpassed
    exact Details.part_of_passed hpassed color
  · intro r hfailed
    have hpassed := TrialResult.not_isPassed_of_isFailed hfailed
    exact ⟨Details.ofResult_of_not_passed hpassed color, Details.part_of_not_passed hpassed color⟩
  · intro r hskipped
    have hpassed := TrialResult.not_isPassed_of_isSkipped hskipped
    have hnone := Details.ofResult_of_skipped hskipped color
    refine ⟨hnone, ?_⟩
    rw [Details.part_of_not_passed hpassed, hnone]
    rfl

end Pretty

end CompilerTrials
