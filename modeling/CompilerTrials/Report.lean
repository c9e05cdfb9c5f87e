import CompilerTrials.Report.Pretty
import CompilerTrials.Report.JUnit

/-!
# Reports

* `Report.draft`: the report in a format.
* `Report.stream`: documents go to standard output, all else to standard error.
-/

namespace CompilerTrials

/-- The streams of a process. -/
inductive Stream where
  | stdout
  | stderr
deriving DecidableEq, Repr

namespace Report

def stream : ReportFormat → Stream
  | .junit => .stdout
  | .pretty | .terse => .stderr

def draft (format : ReportFormat) (color verbose : Bool) (timestamp : Text) (rs : Results) :
    Draft :=
  match format with
  | .pretty => Pretty.draft color verbose rs
  | .junit => JUnit.draft color verbose timestamp rs
  | .terse => Summary.draft color rs

end Report

end CompilerTrials
