import CompilerTrials.Proofs.Documents
import CompilerTrials.Proofs.Characters
import CompilerTrials.Proofs.Durations
import Mathlib.Algebra.GroupWithZero.Nat

/-!
# Results read back from a document

What a consumer of a document looks for in it, and that it finds the results there. Only an output
with `]]>` in it is in the way: it stands in a section of character data as it is, and ends it.

* `decode`: the suites of a document, with their test cases.
* `decode_render`: what a document says is found in its text.
* `Presentable`: the times of the results can be added, and a document can hold their characters.
* `decode_draft`: the suites that are found are those of the results, test case by test case, and
  their counts are those of the results. The output of a trial that failed stands in its `failure`.
* `not_decode_draft`: the name of a trial can leave a text in which nothing is found.
-/

namespace CompilerTrials.JUnit

/-! ## What a reader of a document finds -/

/-- A test case of a document that was read. -/
structure FoundCase where
  name : Text
  skipped : Bool
  failure : Option Text
  systemOut : Option Text
deriving DecidableEq

/-- A suite of a document that was read, with the counts that it gives itself. -/
structure FoundSuite where
  name : Text
  tests : Nat
  failures : Nat
  cases : List FoundCase
deriving DecidableEq

/-- The content of a node, if it is an element with this name. -/
def contentOf? (name : Text) : Xml.Node → Option (List Xml.Node)
  | .element n _ content => if n = name then some content else none
  | .char _ => none

/-- The characters of some content that stand in no further element. -/
def textOf (content : List Xml.Node) : Text :=
  content.filterMap fun
    | .char c => some c
    | .element _ _ _ => none

/-- The text of the first element with this name. -/
def child? (name : String) (content : List Xml.Node) : Option Text :=
  (content.findSome? (contentOf? name.toList)).map textOf

def findCase : Xml.Node → Option FoundCase
  | .element name attributes content =>
    if name = "testcase".toList then
      (attributes.lookup "name".toList).map fun n =>
        { name := n
          skipped := (child? "skipped" content).isSome
          failure := child? "failure" content
          systemOut := child? "system-out" content }
    else none
  | .char _ => none

def findSuite : Xml.Node → Option FoundSuite
  | .element name attributes content =>
    if name = "testsuite".toList then do
      let name ← attributes.lookup "name".toList
      let tests ← (attributes.lookup "tests".toList).bind (Xml.numeral? 10)
      let failures ← (attributes.lookup "failures".toList).bind (Xml.numeral? 10)
      let cases ← content.mapM findCase
      return { name, tests, failures, cases }
    else none
  | .char _ => none

def findSuites : Xml.Node → Option (List FoundSuite)
  | .element name _ content =>
    if name = "testsuites".toList then content.mapM findSuite else none
  | .char _ => none

/-- What an XML reader finds in the text: one element of suites, of which each holds test cases and
nothing else. -/
def decode (t : Text) : Option (List FoundSuite) := (Xml.read t).bind findSuites

def TestCase.found (c : TestCase) : FoundCase where
  name := c.name
  skipped := c.outcome = .skipped
  failure := match c.outcome with
    | .failed output => some output
    | .skipped | .passed _ => none
  systemOut := match c.outcome with
    | .passed output => some output
    | .skipped | .failed _ => none

def TestSuite.found (s : TestSuite) : FoundSuite where
  name := s.name
  tests := s.cases.length
  failures := s.cases.countP TestCase.isFailed
  cases := s.cases.map TestCase.found

theorem textOf_map_char (t : Text) : textOf (t.map .char) = t := by
  induction t with
  | nil => rfl
  | cons c t ih => exact congrArg (c :: ·) ih

theorem mapM_eq_some_map {α β : Type} {as : List α} {f : α → Option β} {g : α → β}
    (h : ∀ a, f a = some (g a)) : as.mapM f = some (as.map g) := by
  induction as with
  | nil => rfl
  | cons a as ih =>
    rw [List.mapM_cons, h, ih]
    rfl

theorem findCase_caseNode (c : TestCase) : findCase (caseNode c) = some c.found := by
  obtain ⟨name, time, outcome⟩ := c
  cases outcome with
  | skipped => rfl
  | passed output =>
    exact congrArg (fun t => some (FoundCase.mk name false none (some t))) (textOf_map_char output)
  | failed output =>
    exact congrArg (fun t => some (FoundCase.mk name false (some t) none)) (textOf_map_char output)

theorem findSuite_suiteNode (timestamp : Text) (index : Nat) (s : TestSuite) :
    findSuite (suiteNode timestamp index s) = some s.found := by
  have hfind : findSuite (suiteNode timestamp index s) =
      (Xml.numeral? 10 (Text.ofNat s.cases.length)).bind fun tests =>
        (Xml.numeral? 10 (Text.ofNat (s.cases.countP TestCase.isFailed))).bind fun failures =>
          ((s.cases.map caseNode).mapM findCase).bind fun cases =>
            some ⟨s.name, tests, failures, cases⟩ := rfl
  have hcases : (s.cases.map caseNode).mapM findCase = some (s.cases.map TestCase.found) := by
    rw [List.mapM_map]
    exact mapM_eq_some_map findCase_caseNode
  rw [hfind, Xml.numeral?_ofNat, Xml.numeral?_ofNat, hcases]
  rfl

theorem mapM_suiteNodes (timestamp : Text) (index : Nat) (d : Document) :
    (suiteNodes timestamp index d).mapM findSuite = some (d.map TestSuite.found) := by
  induction d generalizing index with
  | nil => rfl
  | cons s d ih =>
    rw [suiteNodes, List.mapM_cons, findSuite_suiteNode, ih]
    rfl

/-- What a document says is found in its text. -/
theorem decode_render {timestamp : Text} (hstamp : Xml.IsValue timestamp) {d : Document}
    (h : ∀ s ∈ d, s.IsWritable) :
    decode (render timestamp d ++ ['\n']) = some (d.map TestSuite.found) := by
  rw [decode, read_render hstamp h]
  exact mapM_suiteNodes timestamp 0 d

/-! ## Results -/

variable {rs : Results} {r : TrialResult} {timestamp : Text} {color verbose : Bool}

/-- What is found of a result. -/
def foundCase (color verbose : Bool) (r : TrialResult) : FoundCase where
  name := r.trial.name
  skipped := r.isSkipped
  failure := if r.isFailed then some (output color verbose r) else none
  systemOut := if r.isPassed then some (output color verbose r) else none

/-- What is found of the results of a suite. -/
def foundSuite (color verbose : Bool) (rs : Results) (s : Suite) : FoundSuite where
  name := s.name
  tests := (rs.ofSuite s).length
  failures := (rs.ofSuite s).countP TrialResult.isFailed
  cases := (rs.ofSuite s).map (foundCase color verbose)

theorem found_ofResult (color verbose : Bool) (r : TrialResult) :
    (ofResult color verbose r).found = foundCase color verbose r := by
  unfold ofResult foundCase TrialResult.isSkipped TrialResult.isFailed TrialResult.isPassed
  cases r.verdict with
  | none => rfl
  | some v =>
    cases v with
    | pass => rfl
    | fail =>
      -- the output of a failure is stripped twice
      rw [output, Escape.strip_strip]
      rfl

theorem isFailed_ofResult (color verbose : Bool) (r : TrialResult) :
    (ofResult color verbose r).isFailed = r.isFailed := by
  unfold ofResult TrialResult.isFailed
  cases r.verdict with
  | none => rfl
  | some v => cases v <;> rfl

/-- The results that a document can hold. -/
structure Presentable (rs : Results) : Prop where
  durations : nanosOf (rs.list.map TrialResult.duration) < secondsLimit * 1000000000
  names : ∀ r ∈ rs.list, Xml.IsValue r.trial.name
  commands : ∀ r ∈ rs.list, ∀ i ∈ r.invocation, ∀ p ∈ i.vector, IsStorable (Path.display p)
  outputs : ∀ r ∈ rs.list, ∀ run ∈ r.run, IsStorable run.stdout ∧ IsStorable run.stderr

/-- There is a document wherever the times can be added. -/
theorem ofResults_of_durations
    (h : nanosOf (rs.list.map TrialResult.duration) < secondsLimit * 1000000000)
    (color verbose : Bool) :
    ∃ time : Suite → Duration, ofResults color verbose rs =
      .ok (Suite.all.map fun s => ⟨s.name, time s, casesOf color verbose rs s⟩) := by
  have hshort : ∀ r ∈ rs.list, r.duration.secs < secondsLimit := by
    intro r hr
    have hle : r.duration.toNanos ≤ nanosOf (rs.list.map TrialResult.duration) :=
      toNanos_le_nanosOf (List.mem_map_of_mem hr)
    exact of_decide_eq_true ((holds_iff r.duration).mpr (Nat.lt_of_le_of_lt hle h))
  obtain ⟨time, -, hdocument⟩ :=
    ofResults_of_held hshort fun s => Nat.lt_of_le_of_lt (nanosIn_le rs s) h
  exact ⟨time, hdocument color verbose⟩

theorem ofResults_of_presentable (h : Presentable rs) (color verbose : Bool) :
    ∃ time : Suite → Duration, ofResults color verbose rs =
      .ok (Suite.all.map fun s => ⟨s.name, time s, casesOf color verbose rs s⟩) :=
  ofResults_of_durations h.durations color verbose

theorem isWritable_ofResult (h : Presentable rs) (hr : r ∈ rs.list)
    (hwhole : ¬ "]]>".toList <:+: output color verbose r) :
    (ofResult color verbose r).IsWritable := by
  have hstorable : Details.Storable r :=
    ⟨.of_isValue (h.names r hr), h.commands r hr, h.outputs r hr⟩
  have houtput : IsOutput (output color verbose r) :=
    ⟨Escape.clean_strip (Details.isStorable_ofResult hstorable color verbose), hwhole⟩
  unfold ofResult
  split
  · exact ⟨h.names r hr, trivial⟩
  · exact ⟨h.names r hr, houtput⟩
  · refine ⟨h.names r hr, ?_⟩
    rw [output, Escape.strip_strip]
    exact houtput

theorem countP_ofSuite (p : TrialResult → Bool) (rs : Results) :
    (Suite.all.map fun s => (rs.ofSuite s).countP p).sum = rs.list.countP p := by
  have herror : rs.ofSuite .error =
      rs.list.filter (fun r => !decide (r.trial.suite = .success)) :=
    List.filter_congr fun r _ => by cases r.trial.suite <;> rfl
  rw [List.countP_eq_countP_filter_add rs.list p (fun r => decide (r.trial.suite = .success)),
    ← herror]
  rfl

theorem countP_casesOf (color verbose : Bool) (rs : Results) (s : Suite) :
    (casesOf color verbose rs s).countP TestCase.isFailed =
      (rs.ofSuite s).countP TrialResult.isFailed := by
  rw [casesOf, List.countP_map]
  exact List.countP_congr fun r _ => by rw [Function.comp_apply, isFailed_ofResult]

theorem found_casesOf (color verbose : Bool) (rs : Results) (s : Suite) (time : Duration) :
    TestSuite.found ⟨s.name, time, casesOf color verbose rs s⟩ =
      foundSuite color verbose rs s := by
  have hcases : (casesOf color verbose rs s).map TestCase.found =
      (rs.ofSuite s).map (foundCase color verbose) := by
    rw [casesOf, List.map_map]
    exact List.map_congr_left fun r _ => found_ofResult color verbose r
  rw [TestSuite.found, countP_casesOf, hcases, casesOf, List.length_map]
  rfl

/-- The results are found in their document, unless the output of one ends the section that it
stands in. -/
theorem decode_draft (h : Presentable rs) (hstamp : Xml.IsValue timestamp)
    (hwhole : ∀ r ∈ rs.list, ¬ "]]>".toList <:+: output color verbose r) :
    (draft color verbose timestamp rs).stop = none ∧
      decode (draft color verbose timestamp rs).text =
        some (Suite.all.map (foundSuite color verbose rs)) ∧
      ((Suite.all.map (foundSuite color verbose rs)).map FoundSuite.tests).sum = rs.list.length ∧
      ((Suite.all.map (foundSuite color verbose rs)).map FoundSuite.failures).sum = rs.failed := by
  obtain ⟨time, hdocument⟩ := ofResults_of_presentable h color verbose
  have hwritable : ∀ s ∈ Suite.all.map fun s =>
      TestSuite.mk s.name (time s) (casesOf color verbose rs s), s.IsWritable := by
    intro suite hsuite
    obtain ⟨s, -, rfl⟩ := List.mem_map.mp hsuite
    have hname : Xml.IsValue s.name := by cases s <;> decide
    refine ⟨hname, fun c hc => ?_⟩
    obtain ⟨r, hr, rfl⟩ := List.mem_map.mp hc
    have hmem := (List.mem_filter.mp hr).1
    exact isWritable_ofResult h hmem (hwhole r hmem)
  have htests := countP_ofSuite (fun _ => true) rs
  simp only [List.countP_true] at htests
  have hdraft : draft color verbose timestamp rs = ⟨[render timestamp (Suite.all.map fun s =>
      ⟨s.name, time s, casesOf color verbose rs s⟩), ['\n']], none⟩ := by
    rw [draft, hdocument]
  have htext : (draft color verbose timestamp rs).text = render timestamp (Suite.all.map fun s =>
      ⟨s.name, time s, casesOf color verbose rs s⟩) ++ ['\n'] := by
    rw [hdraft]
    simp [Draft.text]
  refine ⟨by rw [hdraft], ?_, htests, countP_ofSuite TrialResult.isFailed rs⟩
  rw [htext, decode_render hstamp hwritable, List.map_map]
  exact congrArg some (List.map_congr_left fun s _ => found_casesOf color verbose rs s (time s))

/-! ### Outputs with markup -/

namespace Sample

/-- A trial and its run, which took no time. -/
def ran (suite : Suite) (name : String) (stdout : Text) (verdict : Verdict) : TrialResult :=
  .ran ⟨name.toList, suite, [0x74], .module⟩ ⟨[0x63], [[0x74]]⟩ ⟨⟨0⟩, stdout, [], .zero⟩ verdict

/-- A trial with markup in its name, one that was left out, and one that failed. What the compiler
wrote for it is in colour, and nearly ends the section that it stands in. -/
def results : Results :=
  ⟨[ran .success "a<'&" [] .pass, .skipped ⟨"b".toList, .success, [], .singleFile⟩,
    ran .error "c" "\x1b[31m]] ></failure>\r\n".toList .fail]⟩

/-- What is found of the failure. -/
def failure : Text :=
  Text.unlines ["* Test case: [error::c]... ".toList, "    expected non-zero exit".toList,
    "    exited with 0".toList, "    command: c t".toList,
    "          ------ Compiler: stdout ---------------------------------".toList,
    "          ]] ></failure>".toList, [], "    FAILED.".toList]

def stamp : Text := "2026-01-01T00:00:00Z".toList

/-- A trial whose name ends the section in which it is reported. -/
def ending : Results := ⟨[ran .success "a]]>b" [] .pass]⟩

end Sample

theorem decode_draft_sample :
    Presentable Sample.results ∧ (draft false false Sample.stamp Sample.results).stop = none ∧
      decode (draft false false Sample.stamp Sample.results).text = some
        [⟨"success".toList, 2, 0, [⟨"a<'&".toList, false, none,
            some "* Test case: [success::a<'&]... ok.\n".toList⟩, ⟨"b".toList, true, none, none⟩]⟩,
          ⟨"error".toList, 1, 1, [⟨"c".toList, false, some Sample.failure, none⟩]⟩] := by
  have hpresentable : Presentable Sample.results :=
    ⟨by decide +kernel, by decide +kernel, by decide +kernel, by decide +kernel⟩
  have hstamp : Xml.IsValue Sample.stamp := by decide +kernel
  have hwhole : ∀ r ∈ Sample.results.list, ¬ "]]>".toList <:+: output false false r := by
    decide +kernel
  obtain ⟨hstop, hfound, -⟩ := decode_draft hpresentable hstamp hwhole
  refine ⟨hpresentable, hstop, hfound.trans ?_⟩
  decide +kernel

/-- The name of a trial can leave a text in which nothing is found. -/
theorem not_decode_draft :
    Presentable Sample.ending ∧ (draft false false Sample.stamp Sample.ending).stop = none ∧
      decode (draft false false Sample.stamp Sample.ending).text = none := by
  refine ⟨⟨?_, ?_, ?_, ?_⟩, ?_, ?_⟩
  all_goals decide +kernel

end CompilerTrials.JUnit
