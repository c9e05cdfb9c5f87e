import CompilerTrials.FileTree.Basic
import CompilerTrials.Fault

/-!
# Look-ups

A look-up walks a path name by name, follows every link on its way, the last one included, and
ends at a location. Programs that are given by their name alone are looked up in one directory, as
with a search path that names nothing else.

* `FileTree.walk`: the walk from a location, which may follow a number of links.
* `FileTree.resolve`: the location of a path, or why there is none.
* `FileTree.resolveProgram`: the location of a program.
* `FileTree.startFault`: why a program cannot be started.
-/

namespace CompilerTrials.FileTree

/-- Where a walk along the path starts. -/
def startOf (base : Location) (path : ByteString) : Location :=
  if Path.isAbsolute path then [] else base

/-- Walks along the segments; `follow` goes on from the start of a link's target. -/
def walkWith (t : FileTree) (follow : Location → List ByteString → Except Fault Location) :
    Location → List ByteString → Except Fault Location
  | loc, [] => .ok loc
  | loc, segment :: rest =>
    if t.isDir loc then
      if segment = Path.here then t.walkWith follow loc rest
      else if segment = Path.above then t.walkWith follow loc.tail rest
      else if Name.maxLength < segment.length then .error .nameTooLong
      else
        match Name.ofBytes? segment with
        | none => .error .notFound
        | some name =>
          match t.node? (name :: loc) with
          | none => .error .notFound
          | some (.link target) => follow (startOf loc target) (Path.segments target ++ rest)
          | some _ => t.walkWith follow (name :: loc) rest
    else .error .notDirectory

/-- Walks along the segments and follows at most `links` links. -/
def walk (t : FileTree) : (links : Nat) → Location → List ByteString → Except Fault Location
  | 0 => t.walkWith (fun _ _ => .error .linkLoop)
  | links + 1 => t.walkWith (t.walk links)

/-- How many links a look-up follows. -/
def maxLinks : Nat := 40

/-- Paths of this many bytes and more are refused. -/
def pathLimit : Nat := 4096

def resolve (t : FileTree) (path : ByteString) : Except Fault Location :=
  if 0 ∈ path then .error .nulInPath
  else if path.isEmpty then .error .notFound
  else if pathLimit ≤ path.length then .error .nameTooLong
  else t.walk maxLinks (startOf t.workingDir path) (Path.segments path)

def resolves (t : FileTree) (path : ByteString) : Bool :=
  match t.resolve path with
  | .ok _ => true
  | .error _ => false

/-- The directory in which programs without a slash in their name are looked up. It is the whole
search path, and no variable changes it. -/
def programDir : ByteString := Utf8.encode "bin".toList

/-- The location of a program. Without a slash it is one name in the directory of programs, to
which the limit on paths does not apply. -/
def resolveProgram (t : FileTree) (program : ByteString) : Except Fault Location :=
  if Path.slash ∈ program then t.resolve program
  else t.walk maxLinks t.workingDir [programDir, program]

/-- Why the program cannot be started with these arguments, if it cannot. How long the arguments are
makes no difference: the system's limit on their size is left out. -/
def startFault (t : FileTree) (program : ByteString) (args : List ByteString) : Option Fault :=
  if 0 ∈ program ∨ ∃ a ∈ args, 0 ∈ a then some .nulInArgument
  else if program.isEmpty then some .notFound
  else
    match t.resolveProgram program with
    | .error fault => some fault
    | .ok loc =>
      match t.node? loc with
      | some (.file .program) => none
      | some (.file .orphanScript) | none => some .notFound
      | some _ => some .permissionDenied

end CompilerTrials.FileTree
