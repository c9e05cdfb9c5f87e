import CompilerTrials.Report.Details
import CompilerTrials.Report.Draft
import CompilerTrials.Decimal.Shortest
import CompilerTrials.Text.Escape

/-!
# JUnit documents

* `JUnit.Document`: the suites of a document, each with its test cases.
* `JUnit.ofResults`: the document of the results, or why there is none.
* `JUnit.render`: the text of a document, on one line.
* `JUnit.draft`: what is written for the results.
-/

namespace CompilerTrials.JUnit

/-- What became of a test case, with its output. -/
inductive Outcome where
  | skipped
  | passed (output : Text)
  | failed (output : Text)
deriving DecidableEq, Repr

/-- A test case of a document. -/
structure TestCase where
  name : Text
  time : Duration
  outcome : Outcome
deriving DecidableEq, Repr

def TestCase.isFailed (c : TestCase) : Bool :=
  match c.outcome with
  | .failed _ => true
  | _ => false

/-- A suite of a document. -/
structure TestSuite where
  name : Text
  time : Duration
  cases : List TestCase
deriving DecidableEq, Repr

abbrev Document := List TestSuite

/-! ## From results -/

/-- Times of a document are below this number of seconds, 2^63. -/
def secondsLimit : Nat := 9223372036854775808

/-- Whether a document can hold the time. -/
def holds (d : Duration) : Bool := d.secs < secondsLimit

/-- The sum of two times, if a document can hold it. -/
def add? (a b : Duration) : Option Duration := (a.add? b).filter holds

/-- The sum of the times, if a document can hold it. -/
def total? (ds : List Duration) : Option Duration := ds.foldlM add? .zero

/-- The details as a terminal prints them. -/
def output (color verbose : Bool) (r : TrialResult) : Text :=
  Escape.strip (Details.ofResult color verbose r).flatten

/-- The test case of a result. The output of a failure is stripped once more, as it stands inside
another element. -/
def ofResult (color verbose : Bool) (r : TrialResult) : TestCase :=
  match r.verdict with
  | none => ⟨r.trial.name, .zero, .skipped⟩
  | some .pass => ⟨r.trial.name, r.duration, .passed (output color verbose r)⟩
  | some .fail => ⟨r.trial.name, r.duration, .failed (Escape.strip (output color verbose r))⟩

def suite? (s : Suite) (cases : List TestCase) : Option TestSuite :=
  (total? (cases.map TestCase.time)).map fun time => ⟨s.name, time, cases⟩

def casesOf (color verbose : Bool) (rs : Results) (s : Suite) : List TestCase :=
  (rs.ofSuite s).map (ofResult color verbose)

/-- The document of the results. Each time alone has to be held first, then the sum of each
suite. -/
def ofResults (color verbose : Bool) (rs : Results) : Except Failure Document :=
  if rs.list.all (fun r => holds r.duration) then
    match Suite.all.mapM (fun s => suite? s (casesOf color verbose rs s)) with
    | some document => .ok document
    | none => .error (.overflow .suite)
  else
    .error (.error (.report "Source value is out of range for the target type".toList))

/-! ## Text -/

def escapeChar (c : Char) : Text :=
  if c = '<' then "&lt;".toList
  else if c = '>' then "&gt;".toList
  else if c = '&' then "&amp;".toList
  else if c = '\'' then "&apos;".toList
  else if c = '"' then "&quot;".toList
  else [c]

def escape (t : Text) : Text := t.flatMap escapeChar

/-- One attribute, with a blank in front. -/
def attr (key : String) (value : Text) : Text :=
  ' ' :: key.toList ++ ['=', '"'] ++ escape value ++ ['"']

/-- Character data, taken as it is. -/
def characterData (t : Text) : Text := "<![CDATA[".toList ++ t ++ "]]>".toList

/-- A time in seconds. The parts are added as binary numbers. -/
def seconds (d : Duration) : Text :=
  Shortest.render
    ((Binary64.ofNat d.secs).add ((Binary64.ofNat d.nanos).div (Binary64.ofNat 1000000000)))

def Outcome.render : Outcome → Text
  | skipped => "<skipped/>".toList
  | passed output => "<system-out>".toList ++ characterData output ++ "</system-out>".toList
  | failed output =>
    "<failure".toList ++ attr "type" "exit status mismatch".toList ++
      attr "message" "failed".toList ++ ['>'] ++ characterData output ++ "</failure>".toList

def TestCase.render (c : TestCase) : Text :=
  "<testcase".toList ++ attr "name" c.name ++ attr "time" (seconds c.time) ++ ['>'] ++
    c.outcome.render ++ "</testcase>".toList

/-- The attributes of the `index`-th suite, which was written at `timestamp`. -/
def TestSuite.attributes (timestamp : Text) (index : Nat) (s : TestSuite) : Text :=
  attr "id" (Text.ofNat index) ++ attr "name" s.name ++
    attr "package" ("testsuite/".toList ++ s.name) ++
    attr "tests" (Text.ofNat s.cases.length) ++ attr "errors" ['0'] ++
    attr "failures" (Text.ofNat (s.cases.countP TestCase.isFailed)) ++
    attr "hostname" "localhost".toList ++ attr "timestamp" timestamp ++
    attr "time" (seconds s.time)

def TestSuite.render (timestamp : Text) (index : Nat) (s : TestSuite) : Text :=
  "<testsuite".toList ++ s.attributes timestamp index ++
    if s.cases.isEmpty then "/>".toList
    else ['>'] ++ s.cases.flatMap TestCase.render ++ "</testsuite>".toList

def renderSuites (timestamp : Text) (index : Nat) : Document → Text
  | [] => []
  | s :: rest => s.render timestamp index ++ renderSuites timestamp (index + 1) rest

/-- What stands before the suites. -/
def opening : Text := "<?xml version=\"1.0\" encoding=\"utf-8\"?><testsuites>".toList

def render (timestamp : Text) (d : Document) : Text :=
  opening ++ renderSuites timestamp 0 d ++ "</testsuites>".toList

/-- The suites before the first whose times cannot be added. -/
def begun (color verbose : Bool) (rs : Results) : List Suite → Document
  | [] => []
  | s :: rest =>
    match suite? s (casesOf color verbose rs s) with
    | some suite => suite :: begun color verbose rs rest
    | none => []

/-- The document of the results, and a line feed. The times of a suite are added when its turn comes;
where they cannot be, all before it is written already. -/
def draft (color verbose : Bool) (timestamp : Text) (rs : Results) : Draft :=
  match ofResults color verbose rs with
  | .ok document => ⟨[render timestamp document, ['\n']], none⟩
  | .error (.overflow o) =>
    ⟨[opening ++ renderSuites timestamp 0 (begun color verbose rs Suite.all)], some (.overflow o)⟩
  | .error (.error e) => ⟨[], some (.error e)⟩

end CompilerTrials.JUnit
