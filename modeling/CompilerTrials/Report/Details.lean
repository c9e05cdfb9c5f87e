import CompilerTrials.Results
import CompilerTrials.Text.Style

/-!
# Details

The details of a result, as the program that writes them and as the chunks in which it does.

* `Details.ofResult`: a trial that passed has one line, and its command line where `verbose` asks
  for it; one that failed has its status, its command line and what the compiler wrote.
* `Details.captured`: what the compiler wrote, below a heading.
* `Writing`: programs that write, and that the first fault ends; `Writing.put` is one write.
* `Details.write`: the details written one after the other.
* `Details.deliver`: the chunks as far as a writer takes them.
-/

namespace CompilerTrials

namespace Details

/-! ## Texts -/

def command (i : Invocation) : Text := "    command: ".toList ++ i.render ++ ['\n']

/-- How the compiler ended: its code, else the signal that terminated it, else the whole status. -/
def status (color : Bool) (w : WaitStatus) : Text :=
  match w.ending with
  | .exited code =>
    "    exited with ".toList ++ Style.brightRed.paint color (Text.ofNat code) ++ ['\n']
  | .killed signal _ =>
    "    terminated by signal ".toList ++ Style.brightRed.paint color (Text.ofNat signal) ++ ['\n']
  | _ => "    ".toList ++ Style.brightRed.paint color w.render ++ ['\n']

def captureWidth : Nat := 10

/-- The line above what the compiler wrote. -/
def captureLine (color : Bool) (label : Text) : Text :=
  "          ".toList ++
    Style.cyan.paint color
      ("------ Compiler: ".toList ++ label ++ " ---------------------------------".toList) ++
    ['\n']

/-- What the compiler wrote, below that line. -/
def captureBlock (contents : Text) : Text := contents.indent captureWidth ++ ['\n']

/-- The line that names the trial, up to the outcome. -/
def header (color : Bool) (c : Trial) : Text :=
  "* ".toList ++ Style.brightYellow.paint color "Test case".toList ++ ": [".toList ++
    Style.italic.paint color c.qualifiedName ++ "]... ".toList

/-- What ends the line of a trial that passed. -/
def passedEnd (color : Bool) : Text := Style.brightGreen.paint color "ok.".toList ++ ['\n']

def expectationLine (color : Bool) (c : Trial) : Text :=
  "    expected ".toList ++ Style.cyan.paint color c.expectation.render ++ ['\n']

def failedLine (color : Bool) : Text :=
  "    ".toList ++ Style.brightRed.paint color "FAILED.".toList ++ ['\n']

/-! ## Chunks -/

/-- Text that the compiler wrote, below a heading; nothing where it wrote nothing. -/
def captured (color : Bool) (label contents : Text) : List Text :=
  if contents.isEmpty then [] else [captureLine color label, captureBlock contents]

/-- The details of a trial that passed, after the header. -/
def ofPassed (color verbose : Bool) (r : TrialResult) : List Text :=
  passedEnd color :: if verbose then r.invocation.toList.map command else []

/-- The details of a trial that failed, after the header. -/
def ofFailed (color : Bool) (r : TrialResult) : List Text :=
  [['\n'], expectationLine color r.trial] ++
  r.run.toList.map (fun run => status color run.status) ++
  r.invocation.toList.map command ++
  r.run.toList.flatMap (fun run =>
    captured color "stdout".toList run.stdout ++ captured color "stderr".toList run.stderr) ++
  [failedLine color]

/-- The details of a result; none where there is no verdict. -/
def ofResult (color verbose : Bool) (r : TrialResult) : List Text :=
  match r.verdict with
  | none => []
  | some .pass => header color r.trial :: ofPassed color verbose r
  | some .fail => header color r.trial :: ofFailed color r

/-- What a writer that takes `room` bytes and then no more gets of the chunks, and the fault that
the first chunk beyond meets. -/
def deliver (room : Nat) : List ByteString → ByteString × Except IoFault Unit
  | [] => ([], .ok ())
  | chunk :: rest =>
    if chunk.length ≤ room then
      (chunk ++ (deliver (room - chunk.length) rest).1, (deliver (room - chunk.length) rest).2)
    else (chunk.take room, .error (.plain .nothingWritten))

end Details

/-! ## Programs that write -/

/-- What a writer has taken, and the bytes for which it still has room. -/
structure Writer where
  room : Nat
  taken : ByteString := []
deriving DecidableEq, Repr

/-- A program that writes. A fault ends it, and what was taken before stays taken. -/
abbrev Writing := ExceptT IoFault (StateM Writer)

namespace Writing

/-- One write. Where there is not room for all of the text, its beginning is taken. -/
def put (t : Text) : Writing Unit := do
  let w ← get
  let bytes := Utf8.encode t
  set (Writer.mk (w.room - bytes.length) (w.taken ++ bytes.take w.room))
  if w.room < bytes.length then throw (.plain .nothingWritten)

/-- What a writer with room for so many bytes takes, and how the program ends. -/
def into (room : Nat) (x : Writing Unit) : ByteString × Except IoFault Unit :=
  let (outcome, w) := x.run.run { room }
  (w.taken, outcome)

end Writing

namespace Details

open Writing (put)

def writeCaptured (color : Bool) (label contents : Text) : Writing Unit := do
  if contents.isEmpty then return
  put (captureLine color label)
  put (captureBlock contents)

/-- Writes the details of a result. Each write is made only after the one before came out well. -/
def write (color verbose : Bool) (r : TrialResult) : Writing Unit := do
  if r.isSkipped then return
  put (header color r.trial)
  if r.isPassed then
    put (passedEnd color)
    if verbose then
      if let some i := r.invocation then put (command i)
    return
  put ['\n']
  put (expectationLine color r.trial)
  if let some run := r.run then put (status color run.status)
  if let some i := r.invocation then put (command i)
  if let some run := r.run then
    writeCaptured color "stdout".toList run.stdout
    writeCaptured color "stderr".toList run.stderr
  put (failedLine color)

end Details

end CompilerTrials
