import CompilerTrials.FileTree.Resolve
import CompilerTrials.WaitStatus

/-!
# Trials

A trial is one directory below one of two suites: what is below `success` has to compile, what is
below `error` has to be rejected.

* `Suite.expectation`, `Expectation.judge`: the verdict that a wait status earns.
* `Trial.ofPath`: the trial in a directory. The marker decides how it is handed to the compiler,
  whatever else the directory holds.
* `Trial.qualifiedName`: the name by which trials are selected and reported.
-/

namespace CompilerTrials

/-- What a suite expects of the compiler. -/
inductive Expectation where
  | zeroExit
  | nonZeroExit
deriving DecidableEq, Repr

def Expectation.render : Expectation → Text
  | zeroExit => "zero exit".toList
  | nonZeroExit => "non-zero exit".toList

/-- Whether a trial ended as expected. -/
inductive Verdict where
  | pass
  | fail
deriving DecidableEq, Repr

def Verdict.render : Verdict → Text
  | pass => "Pass".toList
  | fail => "Fail".toList

/-- The verdict on a status. All statuses that are not clean count as a rejection, those of killed
processes too. -/
def Expectation.judge (e : Expectation) (status : WaitStatus) : Verdict :=
  match e, status.isClean with
  | zeroExit, true | nonZeroExit, false => .pass
  | zeroExit, false | nonZeroExit, true => .fail

/-- The two groups of trials. -/
inductive Suite where
  | success
  | error
deriving DecidableEq, Repr

namespace Suite

def all : List Suite := [success, error]

/-- The name of a suite, and of its directory. -/
def name : Suite → Text
  | success => "success".toList
  | error => "error".toList

def expectation : Suite → Expectation
  | success => .zeroExit
  | error => .nonZeroExit

/-- The directory of the suite below the tests directory. -/
def dir (s : Suite) (testsDir : ByteString) : ByteString :=
  Path.join testsDir (Utf8.encode s.name)

end Suite

/-- How a trial is handed to the compiler. -/
inductive TrialKind where
  /-- The directory itself is compiled. -/
  | module
  /-- The entry point in the directory is compiled. -/
  | singleFile
deriving DecidableEq, Repr

def TrialKind.render : TrialKind → Text
  | module => "Module".toList
  | singleFile => "SingleFile".toList

def markerFile : Text := "_.adept".toList

def entryPoint : Text := "main.adept".toList

def TrialKind.detect (t : FileTree) (dir : ByteString) : TrialKind :=
  if t.resolves (Path.join dir (Utf8.encode markerFile)) then module else singleFile

/-- One directory below a suite. -/
structure Trial where
  name : Text
  suite : Suite
  path : ByteString
  kind : TrialKind
deriving DecidableEq, Repr

namespace Trial

/-- The trial in a directory. A path without a last name gives it the empty name. -/
def ofPath (t : FileTree) (suite : Suite) (path : ByteString) : Trial where
  name := ((Path.fileName path).map Utf8.decodeLossy).getD []
  suite := suite
  path := path
  kind := TrialKind.detect t path

def qualifiedName (c : Trial) : Text := c.suite.name ++ "::".toList ++ c.name

def expectation (c : Trial) : Expectation := c.suite.expectation

/-- The path that the compiler is to compile. -/
def target (c : Trial) : ByteString :=
  match c.kind with
  | .module => c.path
  | .singleFile => Path.join c.path (Utf8.encode entryPoint)

end Trial

end CompilerTrials
