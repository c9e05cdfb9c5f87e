import CompilerTrials.Text

/-!
# Wait statuses

What the system says about a process that was waited for, as 32 bits.

* `WaitStatus.ending`: how the process ended.
* `WaitStatus.isClean`: the process ended well; all bits are zero.
* `WaitStatus.render`: the status as a phrase.
-/

namespace CompilerTrials

/-- How a process ended, or that it did not. -/
inductive Ending where
  /-- It left with a code. -/
  | exited (code : Nat)
  /-- A signal terminated it. -/
  | killed (signal : Nat) (coreDumped : Bool)
  /-- A signal stopped it. -/
  | stopped (signal : Nat)
  /-- It went on after a stop. -/
  | continued
  /-- The bits say none of these. -/
  | unrecognised
deriving DecidableEq, Repr

/-- The status of a process. -/
structure WaitStatus where
  bits : BitVec 32
deriving DecidableEq, Repr

namespace WaitStatus

/-- The seven low bits: zero for an exit, all ones for a stop, else the signal. -/
def low (w : WaitStatus) : Nat := w.bits.toNat % 0x80

/-- The second byte: the code of an exit, or the signal of a stop. -/
def second (w : WaitStatus) : Nat := w.bits.toNat / 0x100 % 0x100

def ending (w : WaitStatus) : Ending :=
  if w.low = 0 then .exited w.second
  else if w.low < 0x7F then .killed w.low (w.bits.toNat / 0x80 % 2 = 1)
  else if w.bits.toNat % 0x100 = 0x7F then .stopped w.second
  else if w.bits.toNat = 0xFFFF then .continued
  else .unrecognised

/-- Whether the process ended well. A code of zero is not enough: no other bit may be set. -/
def isClean (w : WaitStatus) : Bool := w.bits = 0

def code (w : WaitStatus) : Option Nat :=
  match w.ending with
  | .exited code => some code
  | _ => none

def signal (w : WaitStatus) : Option Nat :=
  match w.ending with
  | .killed signal _ => some signal
  | _ => none

/-- The status of a process that leaves with `code`, of which one byte is kept. -/
def ofExit (code : Int) : WaitStatus := ⟨BitVec.ofNat 32 ((code % 0x100).toNat * 0x100)⟩

/-- The status of a process that `signal` terminates without a core dump. -/
def ofSignal (signal : Nat) : WaitStatus := ⟨BitVec.ofNat 32 signal⟩

def signalNames : List String :=
  ["HUP", "INT", "QUIT", "ILL", "TRAP", "ABRT", "BUS", "FPE", "KILL", "USR1", "SEGV", "USR2",
    "PIPE", "ALRM", "TERM", "STKFLT", "CHLD", "CONT", "STOP", "TSTP", "TTIN", "TTOU", "URG",
    "XCPU", "XFSZ", "VTALRM", "PROF", "WINCH", "IO", "PWR", "SYS"]

/-- The number of a signal, with its name if it has one. -/
def renderSignal (signal : Nat) : Text :=
  Text.ofNat signal ++
    match signal with
    | 0 => []
    | n + 1 =>
      match signalNames[n]? with
      | some name => " (SIG".toList ++ name.toList ++ [')']
      | none => []

def render (w : WaitStatus) : Text :=
  match w.ending with
  | .exited code => "exit status: ".toList ++ Text.ofNat code
  | .killed signal coreDumped =>
    "signal: ".toList ++ renderSignal signal ++
      if coreDumped then " (core dumped)".toList else []
  | .stopped signal => "stopped (not terminated) by signal: ".toList ++ renderSignal signal
  | .continued => "continued (WIFCONTINUED)".toList
  | .unrecognised =>
    "unrecognised wait status: ".toList ++ Text.ofInt w.bits.toInt ++ " 0x".toList ++
      Nat.toDigits 16 w.bits.toNat

end WaitStatus

end CompilerTrials
