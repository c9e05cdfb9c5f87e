import CompilerTrials.Options
import CompilerTrials.Trial
import CompilerTrials.Duration

/-!
# Invocations

* `Invocation.ofTrial`: how a trial is handed to the compiler: the arguments of the
  infrastructure, then the target.
* `CompilerRun`: what one invocation came to.
* `Compiler`: a compiler, which answers by its argument vector alone; `Compiler.byTarget` is one
  that knows some targets.
-/

namespace CompilerTrials

/-- A program and its arguments. -/
structure Invocation where
  program : ByteString
  args : List ByteString
deriving DecidableEq, Repr

namespace Invocation

def ofTrial (config : Config) (c : Trial) : Invocation where
  program := config.compilerPath
  args := config.infrastructure.args ++ [c.target]

/-- The program and its arguments, as the program sees them. -/
def vector (i : Invocation) : List ByteString := i.program :: i.args

/-- The command line as it is shown. Nothing in it is quoted. -/
def render (i : Invocation) : Text := [' '].intercalate (i.vector.map Path.display)

end Invocation

/-- What one invocation came to. -/
structure CompilerRun where
  status : WaitStatus
  stdout : Text
  stderr : Text
  duration : Duration
deriving DecidableEq, Repr

/-- How a compiler ends by itself. -/
inductive Departure where
  | exit (code : Int)
  | kill (signal : Nat)
deriving DecidableEq, Repr

def Departure.status : Departure → WaitStatus
  | exit code => .ofExit code
  | kill signal => .ofSignal signal

/-- What a compiler does when it runs. -/
structure Answer where
  stdout : ByteString
  stderr : ByteString
  departure : Departure
  duration : Duration
deriving DecidableEq, Repr

/-- What is observed of an answer. -/
def Answer.observe (a : Answer) : CompilerRun where
  status := a.departure.status
  stdout := Utf8.decodeLossy a.stdout
  stderr := Utf8.decodeLossy a.stderr
  duration := a.duration

/-- A compiler answers by its argument vector, and leaves the file tree alone. -/
abbrev Compiler := Invocation → Answer

/-- The compiler that looks at nothing but the last argument: the first answer for it, or the
answer for all else. -/
def Compiler.byTarget (answers : List (ByteString × Answer)) (otherwise : Answer) : Compiler :=
  fun i => (i.vector.getLast?.bind (fun target => answers.lookup target)).getD otherwise

end CompilerTrials
