import CompilerTrials.FileTree.Resolve

/-!
# Building file trees

Directories, files and links are put at paths; the directories above them that are missing are
made.

* `FileTree.makeDirs`: makes the directories along a path.
* `FileTree.place`: puts a node at a path.
* `FileTree.moveTo`: makes the directory at a path the one from which relative paths start.
-/

namespace CompilerTrials.FileTree

/-- Goes along the segments from a location, through links too, and makes the directories that are
missing. A segment that leads to anything else ends it. -/
def makeDirsFrom (t : FileTree) (loc : Location) : List ByteString → Option (FileTree × Location)
  | [] => some (t, loc)
  | segment :: rest =>
    match t.walk maxLinks loc [segment, Path.here] with
    | .ok next => t.makeDirsFrom next rest
    | .error .notFound =>
      match Name.ofBytes? segment with
      | some name =>
        if (t.node? (name :: loc)).isNone then
          (t.insert (name :: loc) .dir).makeDirsFrom (name :: loc) rest
        else none
      | none => none
    | .error _ => none

/-- The tree with a directory at the path, and that directory's location. -/
def makeDirs (t : FileTree) (path : ByteString) : Option (FileTree × Location) :=
  t.makeDirsFrom (startOf t.workingDir path) (Path.names path)

/-- The tree with the node at the path. A directory that is there already is kept; a file or a link
takes the place of a file or a link. -/
def place (t : FileTree) (path : ByteString) (node : Node) : Option FileTree :=
  match node with
  | .dir => (t.makeDirs path).map Prod.fst
  | node =>
    match (Path.names path).getLast?.bind Name.ofBytes? with
    | none => none
    | some name =>
      match t.makeDirsFrom (startOf t.workingDir path) (Path.names path).dropLast with
      | none => none
      | some (made, loc) =>
        if made.isDir (name :: loc) then none else some (made.insert (name :: loc) node)

/-- The tree with relative paths starting from the path, which is made where it is missing. -/
def moveTo (t : FileTree) (path : ByteString) : Option FileTree :=
  (t.makeDirs path).map fun (made, loc) => { made with workingDir := loc }

end CompilerTrials.FileTree
