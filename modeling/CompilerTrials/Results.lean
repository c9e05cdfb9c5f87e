import CompilerTrials.Invocation

/-!
# Results

* `TrialResult`: what became of one trial.
* `Results`: what became of all, in the order in which they were recorded.
* `Results.attempted`, `Results.passed`, `Results.failed`, `Results.skipped`: the counts.
* `Results.exitCode`: zero when nothing failed.
* `Results.total?`: the time of all runs, where it can be held.
-/

namespace CompilerTrials

/-- What became of one trial. A trial that was left out has nothing but itself. -/
structure TrialResult where
  trial : Trial
  invocation : Option Invocation := none
  run : Option CompilerRun := none
  verdict : Option Verdict := none
deriving DecidableEq, Repr

namespace TrialResult

def skipped (c : Trial) : TrialResult := ⟨c, none, none, none⟩

def ran (c : Trial) (i : Invocation) (run : CompilerRun) (verdict : Verdict) : TrialResult :=
  ⟨c, some i, some run, some verdict⟩

def isSkipped (r : TrialResult) : Bool := r.verdict.isNone

def isPassed (r : TrialResult) : Bool := r.verdict = some .pass

def isFailed (r : TrialResult) : Bool := r.verdict = some .fail

/-- The time of the run; no time at all where there is none. -/
def duration (r : TrialResult) : Duration := (r.run.map CompilerRun.duration).getD .zero

end TrialResult

/-- What became of the trials, in the order in which they were recorded. -/
structure Results where
  list : List TrialResult := []
deriving DecidableEq, Repr

namespace Results

def record (rs : Results) (r : TrialResult) : Results := ⟨rs.list ++ [r]⟩

def attempted (rs : Results) : Nat := rs.list.countP (fun r => !r.isSkipped)

def passed (rs : Results) : Nat := rs.list.countP TrialResult.isPassed

def failed (rs : Results) : Nat := rs.list.countP TrialResult.isFailed

def skipped (rs : Results) : Nat := rs.list.countP TrialResult.isSkipped

/-- The time of all runs, where it can be held. -/
def total? (rs : Results) : Option Duration := Duration.total? (rs.list.map TrialResult.duration)

def allPassed (rs : Results) : Bool := rs.failed = 0

def exitCode (rs : Results) : Nat := if rs.allPassed then 0 else 1

def ofSuite (rs : Results) (s : Suite) : List TrialResult :=
  rs.list.filter (fun r => r.trial.suite = s)

end Results

end CompilerTrials
