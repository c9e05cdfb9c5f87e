import CompilerTrials.Text.Escape

/-!
# Plain text

A styled text holds escape sequences among what it says. Where styles are not shown, the sequences
are taken out and the control characters with them; tabs, line feeds, form feeds and carriage
returns stay, and break out of a control sequence.

* `Plain.ofStyled`: the text alone. White space ends the sequence that it stands in.
* `Plain.writeStyled`: the text as a stream without styles takes it. A sequence that white space
  breaks goes on at the next character that is not kept.

The two differ only on sequences that hold white space.
-/

namespace CompilerTrials.Plain

open Escape (State)

/-- The white space that is kept although it is made of control characters. -/
def isBreak (c : Char) : Bool := c == '\t' || c == '\n' || c == '\x0c' || c == '\r'

def isAscii (c : Char) : Bool := c.toNat < 0x80

/-- Whether a character is kept where no sequence has begun. -/
def isPrinted (c : Char) : Bool := isBreak c || (0x20 ≤ c.toNat && c != '\x7f')

def keeps (s : State) (c : Char) : Bool :=
  match s with
  | .ground _ => isPrinted c
  | sequence => sequence.executes && isBreak c

def after (s : State) (b : UInt8) : State :=
  match s with
  | .ground _ => Escape.interrupt b (.ground none)
  | sequence => sequence.advance b

/-- Whether the string of this state ends at the one-byte code for its terminator. -/
def endsAtTerminator : State → Bool
  | .sos | .dcsPass | .dcsIgnore => true
  | _ => false

/-- The state after a character of several bytes that is not kept. The one-byte terminator may be
among the bytes; none of them means anything where no sequence has begun. -/
def afterWide (s : State) (c : Char) : State :=
  if endsAtTerminator s && (String.utf8EncodeChar c).contains 0x9C then .ground none else s

def skip (s : State) (c : Char) : State := if isAscii c then after s c.toUInt8 else afterWide s c

/-- What is kept of a text that goes on in this state. -/
def ofStyledFrom : State → Text → Text
  | _, [] => []
  | s, c :: rest =>
    if keeps s c then c :: ofStyledFrom (.ground none) rest else ofStyledFrom (skip s c) rest

def ofStyled (t : Text) : Text := ofStyledFrom (.ground none) t

/-- What a stream lets through of a text. While it is open, all that is printed goes through, and
the state waits for the next character that is not. -/
def writeStyledFrom : (isOpen : Bool) → State → Text → Text
  | _, _, [] => []
  | isOpen, s, c :: rest =>
    if isOpen && isPrinted c || keeps s c then
      c :: writeStyledFrom true (if isAscii c then s else .ground none) rest
    else writeStyledFrom false (skip s c) rest

def writeStyled (t : Text) : Text := writeStyledFrom false (.ground none) t

end CompilerTrials.Plain
