import CompilerTrials.CommandLine.Help
import CompilerTrials.CommandLine.Reader
import CompilerTrials.Log
import CompilerTrials.Report
import CompilerTrials.Session

/-!
# The program

* `Program.serve`: what the program does for some options: what it says, what it reports, which
  invocations of the compiler it starts, and the code with which it leaves. How talkative the log
  is plays no part in it.
* `Program.run`: what the program writes for a command line.
-/

namespace CompilerTrials

/-- Where the program runs: the files it finds, the compiler that is installed there, and the time
that it writes into documents. -/
structure Host where
  tree : FileTree
  compiler : Compiler
  timestamp : Text

/-- What the program did for some options. -/
structure Conduct where
  exitCode : Nat
  /-- What went to standard output. -/
  stdout : Text := []
  /-- What was said before the report. -/
  events : List Event := []
  /-- What went to standard error, log lines apart. -/
  report : Text := []
  /-- What was said after the report. -/
  closing : List Event := []
  /-- The invocations that were started. -/
  started : List Invocation := []
deriving DecidableEq, Repr

/-- What the program wrote, and how it left. -/
structure Exit where
  code : Nat
  stdout : Text := []
  stderr : Text := []
  started : List Invocation := []
deriving DecidableEq, Repr

namespace Program

/-- The code for a run in which the program itself failed. -/
def failureCode : Nat := 2

def abortCode : Nat := 101

/-! ## What is done -/

def listing (names : List Text) : Text := names.flatMap (fun n => n ++ ": test\n".toList)

def listTrials (host : Host) (o : Options) : Conduct :=
  let session := Session.list host.tree o.config o.selection
  match session.outcome with
  | .ok names => { exitCode := 0, stdout := listing names, events := session.events }
  | .error e => { exitCode := failureCode, events := session.events ++ [.fatal .listing e] }

def report (host : Host) (color : Bool) (o : Options) (rs : Results) : Conduct :=
  let (written, outcome) :=
    (Report.draft o.format color o.verbose host.timestamp rs).write .working
  let stdout := if Report.stream o.format = .stdout then written else []
  let report := if Report.stream o.format = .stderr then written else []
  match outcome with
  | .ok () => { exitCode := rs.exitCode, stdout, report }
  | .error (.error e) =>
    { exitCode := failureCode, stdout, report, closing := [.fatal .reporting e] }
  | .error (.overflow f) =>
    { exitCode := abortCode, stdout, report := report ++ f.message ++ ['\n'] }

def runTrials (host : Host) (color : Bool) (o : Options) : Conduct :=
  let session := Session.run host.tree host.compiler o.config o.selection
  match session.outcome with
  | .ok rs =>
    { report host color o rs with events := session.events, started := session.started }
  | .error e =>
    { exitCode := failureCode
      events := session.events ++ [.fatal .running e]
      started := session.started }

/-- What the program does for some options; `color` tells whether its report is coloured. -/
def serve (host : Host) (color : Bool) (o : Options) : Conduct :=
  if o.listOnly then listTrials host o else runTrials host color o

/-! ## What is written -/

def logLevel (o : Options) : LogLevel :=
  if o.logTrace then .trace else if o.logDebug then .debug else .warn

/-- Whether reports are coloured: only on demand, as no stream is a terminal. -/
def colorsReport (env : Environment) : Bool :=
  match env.forceColor.bind Utf8.decode? with
  | some value => value ≠ ['0']
  | none => false

/-- Whether log lines are coloured: unless it is forbidden. -/
def colorsLog (env : Environment) : Bool :=
  match env.noColor.bind Utf8.decode? with
  | some value => value.isEmpty
  | none => true

/-- Whether help and usage errors are styled: on demand, unless it is forbidden. Unlike the rules
above, any value that is not empty will do. -/
def colorsGuidance (env : Environment) : Bool :=
  let isSet (value : Option ByteString) : Bool := value.any (fun v => !v.isEmpty)
  !isSet env.noColor && isSet env.forceColor

/-- A styled text as its stream takes it. -/
def guidance (env : Environment) (styled : Text) : Text :=
  if colorsGuidance env then styled else Plain.writeStyled styled

/-- What is written for a conduct, with the log lines up to a level. -/
def write (color : Bool) (limit : LogLevel) (c : Conduct) : Exit where
  code := c.exitCode
  stdout := c.stdout
  stderr := Log.render color limit c.events ++ c.report ++ Log.render color limit c.closing
  started := c.started

def run (host : Host) (env : Environment) (args : List ByteString) : Exit :=
  match CommandLine.read env args with
  | .error e => { code := failureCode, stderr := guidance env (e.styled ++ ['\n']) }
  | .ok (.help inDetail) => { code := 0, stdout := guidance env (Help.ofKind env inDetail) }
  | .ok .version => { code := 0, stdout := Help.version }
  | .ok (.run o) => write (colorsLog env) (logLevel o) (serve host (colorsReport env) o)

end Program

end CompilerTrials
