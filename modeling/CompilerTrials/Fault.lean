import CompilerTrials.Path

/-!
# Faults and errors

What can go wrong outside the program, and the errors that it makes of that.

* `Fault`: one refusal of the system, with its `kind` and `message`.
* `IoFault`: a fault, with the path at which a listing met it.
* `Error`: what ends a run; `Error.message` says what was being done, `Error.source?` the fault
  behind it, and `Error.chain` holds both for a log line.
* `Overflow`: a sum of durations that is too large.
-/

namespace CompilerTrials

/-- The kinds of faults. -/
inductive FaultKind where
  | notFound
  | permissionDenied
  | notADirectory
  | filesystemLoop
  | invalidFilename
  | invalidInput
  | storageFull
  | writeZero
  | other
deriving DecidableEq, Repr

/-- One refusal. -/
inductive Fault where
  /-- A name, or what it links to, is not there. -/
  | notFound
  /-- The file may not be executed. -/
  | permissionDenied
  /-- A look-up goes through something that is no directory. -/
  | notDirectory
  /-- A look-up follows too many links. -/
  | linkLoop
  /-- A name or a path is too long. -/
  | nameTooLong
  /-- A device has no room left. -/
  | noSpace
  /-- A NUL byte in a path. -/
  | nulInPath
  /-- A NUL byte in a program or an argument. -/
  | nulInArgument
  /-- The root of a suite is there and is no directory. -/
  | rootNotDirectory
  /-- A writer took nothing. -/
  | nothingWritten
deriving DecidableEq, Repr

namespace Fault

def kind : Fault → FaultKind
  | notFound => .notFound
  | permissionDenied => .permissionDenied
  | notDirectory | rootNotDirectory => .notADirectory
  | linkLoop => .filesystemLoop
  | nameTooLong => .invalidFilename
  | noSpace => .storageFull
  | nulInPath | nulInArgument => .invalidInput
  | nothingWritten => .writeZero

def message : Fault → Text
  | notFound => "No such file or directory (os error 2)".toList
  | permissionDenied => "Permission denied (os error 13)".toList
  | notDirectory => "Not a directory (os error 20)".toList
  | linkLoop => "Too many levels of symbolic links (os error 40)".toList
  | nameTooLong => "File name too long (os error 36)".toList
  | noSpace => "No space left on device (os error 28)".toList
  | nulInPath => "file name contained an unexpected NUL byte".toList
  | nulInArgument => "nul byte found in provided data".toList
  | rootNotDirectory => "not a directory".toList
  | nothingWritten => "failed to write whole buffer".toList

end Fault

/-- A fault and where it was met. -/
inductive IoFault where
  /-- The fault alone. -/
  | plain (fault : Fault)
  /-- A listing met the fault at `path`. -/
  | listing (path : ByteString) (fault : Fault)
  /-- A listing met a link back to the directory that it lists. -/
  | ancestor (child root : ByteString)
deriving DecidableEq, Repr

namespace IoFault

def kind : IoFault → FaultKind
  | plain fault => fault.kind
  | listing _ fault => fault.kind
  | ancestor _ _ => .other

def message : IoFault → Text
  | plain fault => fault.message
  | listing path fault =>
    "IO error for operation on ".toList ++ Path.display path ++ ": ".toList ++ fault.message
  | ancestor child root =>
    "File system loop found: ".toList ++ Path.display child ++ " points to an ancestor ".toList ++
      Path.display root

def chain : IoFault → List Text
  | listing path fault => [(listing path fault).message, fault.message]
  | other => [other.message]

end IoFault

/-- What ends a run. -/
inductive Error where
  /-- The trials below `root` could not be listed. -/
  | discovery (root : ByteString) (source : IoFault)
  /-- The compiler could not be started. -/
  | start (program : ByteString) (source : IoFault)
  /-- Writing failed. -/
  | io (source : IoFault)
  /-- A report could not be made. -/
  | report (reason : Text)
deriving DecidableEq, Repr

namespace Error

def message : Error → Text
  | discovery root _ => "failed to discover test cases under ".toList ++ Path.display root
  | start program _ => "failed to run compiler ".toList ++ Path.display program
  | io _ => "I/O error".toList
  | report reason => "failed to write report: ".toList ++ reason

/-- The fault behind the error. -/
def source? : Error → Option IoFault
  | discovery _ source | start _ source | io source => some source
  | report _ => none

def chain (e : Error) : List Text :=
  e.message :: (e.source?.map IoFault.chain).getD []

end Error

/-- A sum of durations that is too large. -/
inductive Overflow where
  /-- The sum over all results. -/
  | total
  /-- The sum over one suite of a document. -/
  | suite
deriving DecidableEq, Repr

def Overflow.message : Overflow → Text
  | total => "overflow in iter::sum over durations".toList
  | suite => "overflow when adding durations".toList

end CompilerTrials
