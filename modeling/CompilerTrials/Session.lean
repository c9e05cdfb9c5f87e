import CompilerTrials.Discovery
import CompilerTrials.Results

/-!
# Sessions

* `Session.list`: the names that a selection takes out of the trials.
* `Session.run`: runs the selected trials one after the other, and records all.

A run ends early only when a suite cannot be listed or the compiler cannot be started; a trial that
fails is a result like any other.
-/

namespace CompilerTrials.Session

/-- The names of the selected trials, in the order in which they run. -/
def list (t : FileTree) (config : Config) (selection : Selection) : Transcript (List Text) := do
  let trials ← Discovery.all t config.testsDir
  return (trials.map Trial.qualifiedName).filter selection.accepts

def execute (t : FileTree) (compiler : Compiler) (i : Invocation) : Transcript CompilerRun := do
  .say (.invoking i)
  match t.startFault i.program i.args with
  | some fault => .fail (.start i.program (.plain fault))
  | none =>
    .start i
    let run := (compiler i).observe
    .say (.ended run.status run.duration)
    match run.status.signal with
    | some signal => .say (.crashed signal i)
    | none => pure ()
    return run

def attempt (t : FileTree) (compiler : Compiler) (config : Config) (c : Trial) :
    Transcript TrialResult := do
  let i := Invocation.ofTrial config c
  let run ← execute t compiler i
  let verdict := c.expectation.judge run.status
  .say (.judged c verdict)
  return .ran c i run verdict

/-- The result of one trial, which runs if it is selected. -/
def result (t : FileTree) (compiler : Compiler) (config : Config) (selection : Selection)
    (c : Trial) : Transcript TrialResult :=
  if selection.accepts c.qualifiedName then attempt t compiler config c
  else do
    .say (.skipped c)
    return .skipped c

/-- The results of the trials, up to the first error. -/
def results (t : FileTree) (compiler : Compiler) (config : Config) (selection : Selection) :
    List Trial → Transcript (List TrialResult)
  | [] => return []
  | c :: rest => do
    let r ← result t compiler config selection c
    let later ← results t compiler config selection rest
    return r :: later

def run (t : FileTree) (compiler : Compiler) (config : Config) (selection : Selection) :
    Transcript Results := do
  let trials ← Discovery.all t config.testsDir
  .say (.began trials.length config.testsDir)
  let rs ← Results.mk <$> results t compiler config selection trials
  .say (.finished rs.attempted rs.passed rs.failed)
  return rs

end CompilerTrials.Session
