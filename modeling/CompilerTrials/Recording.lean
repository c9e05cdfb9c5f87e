import CompilerTrials.FileTree.Build
import CompilerTrials.Program

/-!
# Recordings

A recording says on lines what a working directory holds and how the compiler in it answers. The
fields of a line are separated by tabs; in a field, `%` and two hexadecimal digits stand for a byte.

* `dir PATH`, `file PATH`, `program PATH`, `script PATH` (one whose interpreter is missing) and
  `link PATH TARGET` put something at a path.
* `time TEXT` is the time that goes into documents.
* `exit STDOUT STDERR CODE SECS NANOS` and `kill STDOUT STDERR SIGNAL SECS NANOS` answer for every
  target that has no answer of its own; with a target as sixth field they answer for that one.

Main definitions: `Recording.Item.ofLine?` reads a line, `Recording.host?` makes all of them into a
place where the program runs.
-/

namespace CompilerTrials.Recording

def hexValue? (c : Char) : Option Nat :=
  if '0' ≤ c ∧ c ≤ '9' then some (c.toNat - 0x30)
  else if 'a' ≤ c ∧ c ≤ 'f' then some (c.toNat - 0x57)
  else if 'A' ≤ c ∧ c ≤ 'F' then some (c.toNat - 0x37)
  else none

def fieldBytes? : Text → Option ByteString
  | [] => some []
  | '%' :: a :: b :: rest => do
    let high ← hexValue? a
    let low ← hexValue? b
    return UInt8.ofNat (high * 16 + low) :: (← fieldBytes? rest)
  | c :: rest => if c = '%' then none else do return Utf8.encode [c] ++ (← fieldBytes? rest)

def fieldNat? (t : Text) : Option Nat :=
  if t.isEmpty || t.any (fun c => !c.isDigit) then none
  else some (t.foldl (fun n c => n * 10 + (c.toNat - 0x30)) 0)

/-- What one line records. -/
inductive Item where
  | node (path : ByteString) (node : Node)
  | time (timestamp : Text)
  /-- An answer, for one target or for all that have none. -/
  | answer (target : Option ByteString) (answer : Answer)
deriving DecidableEq, Repr

namespace Item

def answer? (stdout stderr : Text) (departure : Departure) (secs nanos : Text) (target : List Text) :
    Option Item := do
  let out ← fieldBytes? stdout
  let err ← fieldBytes? stderr
  let duration ← Duration.ofParts? (← fieldNat? secs) (← fieldNat? nanos)
  let given : Answer := ⟨out, err, departure, duration⟩
  match target with
  | [] => some (.answer none given)
  | [t] => return .answer (some (← fieldBytes? t)) given
  | _ :: _ :: _ => none

/-- What these fields record, after the word in front. -/
def ofFields? (word : Text) (fields : List Text) : Option Item :=
  match String.ofList word, fields with
  | "dir", [path] => return .node (← fieldBytes? path) .dir
  | "file", [path] => return .node (← fieldBytes? path) (.file .plain)
  | "program", [path] => return .node (← fieldBytes? path) (.file .program)
  | "script", [path] => return .node (← fieldBytes? path) (.file .orphanScript)
  | "link", [path, target] => return .node (← fieldBytes? path) (.link (← fieldBytes? target))
  | "time", [timestamp] => return .time (Utf8.decodeLossy (← fieldBytes? timestamp))
  | "exit", stdout :: stderr :: code :: secs :: nanos :: target => do
    answer? stdout stderr (.exit (← fieldNat? code)) secs nanos target
  | "kill", stdout :: stderr :: signal :: secs :: nanos :: target => do
    answer? stdout stderr (.kill (← fieldNat? signal)) secs nanos target
  | _, _ => none

def ofLine? (line : Text) : Option Item :=
  match line.splitOn '\t' with
  | [] => none
  | word :: fields => ofFields? word fields

end Item

/-- What the lines so far record. -/
structure Scene where
  tree : FileTree
  timestamp : Text := []
  answers : List (ByteString × Answer) := []
  otherwise : Answer := ⟨[], [], .exit 0, .zero⟩

/-- With one item more. The first answer for a target counts. -/
def Scene.add? (d : Scene) : Item → Option Scene
  | .node path node => (d.tree.place path node).map fun t => { d with tree := t }
  | .time timestamp => some { d with timestamp }
  | .answer (some target) given => some { d with answers := d.answers ++ [(target, given)] }
  | .answer none given => some { d with otherwise := given }

def Scene.host (d : Scene) : Host := ⟨d.tree, .byTarget d.answers d.otherwise, d.timestamp⟩

def workingDir : ByteString := Utf8.encode "/work/here".toList

/-- The scene to which a line leads; blank lines record nothing. -/
def addLine? (d : Scene) (line : Text) : Option Scene :=
  if line.isEmpty then some d else (Item.ofLine? line).bind d.add?

def host? (recording : Text) : Option Host := do
  let tree ← FileTree.empty.moveTo workingDir
  let scene ← recording.lines.foldlM addLine? { tree }
  return scene.host

end CompilerTrials.Recording
