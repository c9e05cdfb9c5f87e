import CompilerTrials.Text.Utf8

/-!
# Terminal escape sequences

A terminal reads a stream of bytes and takes sequences that begin with ESC as orders. What is left
when the orders are taken out is what it would print.

* `Escape.State.step`: what one byte prints, and where the terminal stands after it.
* `Escape.strip`: the text that a terminal prints for a text. Control characters are orders too;
  only the line feed is kept.
-/

namespace CompilerTrials.Escape

/-- Where a terminal stands between two bytes. -/
inductive State where
  /-- Printing; a character may have begun. -/
  | ground (held : Option Utf8.Partial)
  /-- After ESC. -/
  | escape
  /-- After ESC and intermediate bytes. -/
  | escapeInter
  /-- At the start of a control sequence. -/
  | csiEntry
  /-- Among the parameters of a control sequence. -/
  | csiParam
  /-- Among the intermediate bytes of a control sequence. -/
  | csiInter
  /-- In a malformed control sequence. -/
  | csiIgnore
  /-- In an operating system command. -/
  | osc
  /-- In a string that no one reads. -/
  | sos
  /-- At the start of a device control string. -/
  | dcsEntry
  /-- Among the parameters of a device control string. -/
  | dcsParam
  /-- Among the intermediate bytes of a device control string. -/
  | dcsInter
  /-- In the data of a device control string. -/
  | dcsPass
  /-- In a malformed device control string. -/
  | dcsIgnore
deriving DecidableEq, Repr

/-- The control bytes that are executed inside most sequences. -/
def isControl (b : UInt8) : Bool := b < 0x18 || b == 0x19 || (0x1C ≤ b && b < 0x20)

/-- What executing a control prints: a line feed, or nothing. -/
def execute (b : UInt8) : Text := if b = 0x0A then ['\n'] else []

/-- What a character prints when no sequence has begun. -/
def print (c : Char) : Text :=
  if c = '\n' then [c]
  else if c.toNat < 0x20 ∨ 0x80 ≤ c.toNat ∧ c.toNat < 0xA0 then []
  else [c]

/-- The bytes that end a sequence from anywhere: CAN and SUB cancel it, ESC begins another. -/
def interrupt (b : UInt8) (stay : State) : State :=
  if b = 0x18 ∨ b = 0x1A then .ground none
  else if b = 0x1B then .escape
  else stay

/-- The byte `b` as the first of a character. A byte below A0 that begins none is dropped like the
control that it stands for in one-byte codes. -/
def groundLead (b : UInt8) : Text × State :=
  if b = 0x1B then ([], .escape)
  else
    match Utf8.lead b with
    | .complete c => (print c, .ground none)
    | .begun p => ([], .ground (some p))
    | .malformed => (if b < 0xA0 then [] else [Utf8.replacement], .ground none)

def afterEscape (b : UInt8) : State :=
  if isControl b then .escape
  else if 0x20 ≤ b ∧ b < 0x30 then .escapeInter
  else if b = 0x50 then .dcsEntry
  else if b = 0x58 ∨ b = 0x5E ∨ b = 0x5F then .sos
  else if b = 0x5B then .csiEntry
  else if b = 0x5D then .osc
  else if 0x30 ≤ b ∧ b < 0x7F then .ground none
  else interrupt b .escape

/-- Whether a byte is a parameter: a digit, a colon or a semicolon. -/
def isParam (b : UInt8) : Bool := 0x30 ≤ b && b < 0x3C

/-- The state after one byte of a sequence, for every state but `ground`. -/
def State.advance (s : State) (b : UInt8) : State :=
  match s with
  | .ground held => .ground held
  | .escape => afterEscape b
  | .escapeInter =>
    if isControl b ∨ (0x20 ≤ b ∧ b < 0x30) then .escapeInter
    else if 0x30 ≤ b ∧ b < 0x7F then .ground none
    else interrupt b .escapeInter
  | .csiEntry =>
    if isControl b then .csiEntry
    else if 0x20 ≤ b ∧ b < 0x30 then .csiInter
    else if 0x30 ≤ b ∧ b < 0x40 then .csiParam
    else if 0x40 ≤ b ∧ b < 0x7F then .ground none
    else interrupt b .csiEntry
  | .csiParam =>
    if isControl b ∨ isParam b then .csiParam
    else if 0x20 ≤ b ∧ b < 0x30 then .csiInter
    else if 0x3C ≤ b ∧ b < 0x40 then .csiIgnore
    else if 0x40 ≤ b ∧ b < 0x7F then .ground none
    else interrupt b .csiParam
  | .csiInter =>
    if isControl b ∨ (0x20 ≤ b ∧ b < 0x30) then .csiInter
    else if 0x30 ≤ b ∧ b < 0x40 then .csiIgnore
    else if 0x40 ≤ b ∧ b < 0x7F then .ground none
    else interrupt b .csiInter
  | .csiIgnore =>
    if 0x40 ≤ b ∧ b < 0x7F then .ground none else interrupt b .csiIgnore
  | .osc =>
    if b = 0x07 then .ground none else interrupt b .osc
  | .sos => interrupt b .sos
  | .dcsEntry =>
    if 0x20 ≤ b ∧ b < 0x30 then .dcsInter
    else if 0x30 ≤ b ∧ b < 0x40 then .dcsParam
    else if 0x40 ≤ b ∧ b < 0x7F then .dcsPass
    else interrupt b .dcsEntry
  | .dcsParam =>
    if isParam b then .dcsParam
    else if 0x20 ≤ b ∧ b < 0x30 then .dcsInter
    else if 0x3C ≤ b ∧ b < 0x40 then .dcsIgnore
    else if 0x40 ≤ b ∧ b < 0x7F then .dcsPass
    else interrupt b .dcsParam
  | .dcsInter =>
    if 0x20 ≤ b ∧ b < 0x30 then .dcsInter
    else if 0x30 ≤ b ∧ b < 0x40 then .dcsIgnore
    else if 0x40 ≤ b ∧ b < 0x7F then .dcsPass
    else interrupt b .dcsInter
  | .dcsPass => if b = 0x9C then .ground none else interrupt b .dcsPass
  | .dcsIgnore => interrupt b .dcsIgnore

/-- Whether controls are executed in the middle of this kind of sequence. -/
def State.executes : State → Bool
  | .ground _ | .escape | .escapeInter | .csiEntry | .csiParam | .csiInter | .csiIgnore => true
  | .osc | .sos | .dcsEntry | .dcsParam | .dcsInter | .dcsPass | .dcsIgnore => false

/-- What one byte prints, and the state after it. -/
def State.step (s : State) (b : UInt8) : Text × State :=
  match s with
  | .ground none => groundLead b
  | .ground (some p) =>
    match p.feed b with
    | .complete c => (print c, .ground none)
    | .begun q => ([], .ground (some q))
    | .malformed => (Utf8.replacement :: (groundLead b).1, (groundLead b).2)
  | sequence => (if sequence.executes then execute b else [], sequence.advance b)

/-- What the bytes print from a state on. A sequence or a character that the end cuts prints
nothing. -/
def stripFrom : State → ByteString → Text
  | _, [] => []
  | s, b :: rest => (s.step b).1 ++ stripFrom (s.step b).2 rest

def strip (t : Text) : Text := stripFrom (.ground none) (Utf8.encode t)

end CompilerTrials.Escape
