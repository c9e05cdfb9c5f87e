import CompilerTrials.Text

/-!
# UTF-8

Byte strings and their reading as texts. A reader takes one byte at a time; between two bytes it
either stands between characters or holds a `Utf8.Partial`, a character of which some bytes are
still missing.

* `Utf8.encode`: the bytes of a text.
* `Utf8.decodeLossy`: every longest beginning of a character that cannot be completed, and every
  byte that begins none, becomes one U+FFFD.
* `Utf8.split`: the longest part in front that is UTF-8, and the bytes after it.
* `Utf8.decode?`: the text whose bytes these are, if there is one.
-/

namespace CompilerTrials

/-- A byte string: a path, an argument, the value of a variable, the output of a process. -/
abbrev ByteString := List UInt8

namespace Utf8

def encode (t : Text) : ByteString := t.flatMap String.utf8EncodeChar

/-- A character that has begun: the bits read so far, how many bytes are missing, and the least
and greatest byte that may come next. -/
structure Partial where
  bits : Nat
  missing : Nat
  low : UInt8
  high : UInt8
deriving DecidableEq, Repr

/-- What one more byte makes of a character. -/
inductive Progress where
  /-- The byte completes a character. -/
  | complete (c : Char)
  /-- More bytes are missing. -/
  | begun (p : Partial)
  /-- The byte cannot stand here. -/
  | malformed
deriving DecidableEq, Repr

/-- The byte `b` as the first of a character. Overlong forms, surrogates and values above U+10FFFF
are kept out by the bounds on the second byte. -/
def lead (b : UInt8) : Progress :=
  if b < 0x80 then .complete (Char.ofNat b.toNat)
  else if b < 0xC2 then .malformed
  else if b < 0xE0 then .begun ⟨b.toNat - 0xC0, 1, 0x80, 0xBF⟩
  else if b = 0xE0 then .begun ⟨0, 2, 0xA0, 0xBF⟩
  else if b = 0xED then .begun ⟨0xD, 2, 0x80, 0x9F⟩
  else if b < 0xF0 then .begun ⟨b.toNat - 0xE0, 2, 0x80, 0xBF⟩
  else if b = 0xF0 then .begun ⟨0, 3, 0x90, 0xBF⟩
  else if b < 0xF4 then .begun ⟨b.toNat - 0xF0, 3, 0x80, 0xBF⟩
  else if b = 0xF4 then .begun ⟨4, 3, 0x80, 0x8F⟩
  else .malformed

/-- The byte `b` as the next of a character that has begun. -/
def Partial.feed (p : Partial) (b : UInt8) : Progress :=
  if p.low ≤ b ∧ b ≤ p.high then
    let bits := p.bits * 64 + (b.toNat - 0x80)
    if p.missing ≤ 1 then .complete (Char.ofNat bits)
    else .begun ⟨bits, p.missing - 1, 0x80, 0xBF⟩
  else .malformed

/-- The byte `b` after what has been read of a character, if any. -/
def next (held : Option Partial) (b : UInt8) : Progress :=
  match held with
  | none => lead b
  | some p => p.feed b

def replacement : Char := '\uFFFD'

/-- Reads one byte where no character has begun; a byte that begins none is replaced. -/
def stepLossyLead (b : UInt8) : Text × Option Partial :=
  match lead b with
  | .complete c => ([c], none)
  | .begun p => ([], some p)
  | .malformed => ([replacement], none)

/-- Reads one byte. A byte that cannot continue a character ends it as malformed and is read
again as a first byte. -/
def stepLossy (held : Option Partial) (b : UInt8) : Text × Option Partial :=
  match held with
  | none => stepLossyLead b
  | some p =>
    match p.feed b with
    | .complete c => ([c], none)
    | .begun q => ([], some q)
    | .malformed => (replacement :: (stepLossyLead b).1, (stepLossyLead b).2)

/-- The text of the bytes after `held`. A character cut by the end is malformed. -/
def decodeLossyFrom : Option Partial → ByteString → Text
  | none, [] => []
  | some _, [] => [replacement]
  | held, b :: rest => (stepLossy held b).1 ++ decodeLossyFrom (stepLossy held b).2 rest

/-- The text of a byte string; what is not UTF-8 is replaced. -/
def decodeLossy (bytes : ByteString) : Text := decodeLossyFrom none bytes

/-- The characters that follow `held`, whose bytes are `raw`, up to the first byte that does not
fit, and the bytes from the last character that is complete. -/
def splitFrom (raw : ByteString) (held : Option Partial) : ByteString → Text × ByteString
  | [] => ([], raw)
  | b :: rest =>
    match next held b with
    | .complete c => (c :: (splitFrom [] none rest).1, (splitFrom [] none rest).2)
    | .begun p => splitFrom (raw ++ [b]) (some p) rest
    | .malformed => ([], raw ++ b :: rest)

/-- The longest text in front, and the bytes after it. -/
def split (bytes : ByteString) : Text × ByteString := splitFrom [] none bytes

def decode? (bytes : ByteString) : Option Text :=
  match split bytes with
  | (t, []) => some t
  | (_, _ :: _) => none

end Utf8

end CompilerTrials
