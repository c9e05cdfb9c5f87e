import CompilerTrials.Text.Utf8

/-!
# Paths

A path is a byte string; nothing about it is normalised.

* `Path.join`: a path below another one, unless it is absolute.
* `Path.segments`: the names that a look-up follows, one after the other.
* `Path.fileName`: the last name of a path.
* `Path.display`: the path as it stands in messages.
-/

namespace CompilerTrials.Path

def slash : UInt8 := 0x2F

/-- The segment that stays where it is. -/
def here : ByteString := [0x2E]

/-- The segment that goes to the directory above. -/
def above : ByteString := [0x2E, 0x2E]

/-- Whether a look-up starts from the root directory. -/
def isAbsolute (p : ByteString) : Bool := p.head? = some slash

/-- Whether nothing has to stand between the path and a name below it. -/
def isOpen (p : ByteString) : Bool := p.isEmpty || p.getLast? = some slash

def join (p q : ByteString) : ByteString :=
  if isAbsolute q then q
  else if isOpen p then p ++ q
  else p ++ slash :: q

/-- The parts between slashes that are not empty. -/
def names (p : ByteString) : List ByteString := (p.splitOn slash).filter (fun s => !s.isEmpty)

/-- The names that a look-up follows. A slash at the end asks for a directory, as `here` does. -/
def segments (p : ByteString) : List ByteString :=
  names p ++ if p.getLast? = some slash then [here] else []

/-- The last name of the path. A path that ends in `above`, or holds no name, has none. -/
def fileName (p : ByteString) : Option ByteString :=
  match ((names p).filter (· ≠ here)).getLast? with
  | some last => if last = above then none else some last
  | none => none

def display (p : ByteString) : Text := Utf8.decodeLossy p

end CompilerTrials.Path
