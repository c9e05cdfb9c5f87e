import CompilerTrials.Selection
import CompilerTrials.Path

/-!
# Options

* `Options`: what a command line asks for.
* `Config`: what a run needs to know about the compiler and the tests.
* `Options.config`, `Options.selection`: the parts of the options that a run takes.
-/

namespace CompilerTrials

/-- The flag that goes before the infrastructure directory. -/
def infrastructureFlag : Text := "--infrastructure".toList

/-- The infrastructure directory where none is named. -/
def defaultInfrastructureDir : ByteString := Utf8.encode "infrastructure".toList

/-- Whether the compiler is told of an infrastructure directory. -/
inductive Infrastructure where
  | disabled
  | enabled (dir : ByteString)
deriving DecidableEq, Repr

namespace Infrastructure

/-- The directory, also where the compiler is not told of it. -/
def dir : Infrastructure → ByteString
  | disabled => defaultInfrastructureDir
  | enabled dir => dir

def args : Infrastructure → List ByteString
  | disabled => []
  | enabled dir => [Utf8.encode infrastructureFlag, dir]

end Infrastructure

/-- What a run needs to know about the compiler and the tests. -/
structure Config where
  compilerPath : ByteString
  testsDir : ByteString
  infrastructure : Infrastructure := .disabled
deriving DecidableEq, Repr

/-- The forms of a report. -/
inductive ReportFormat where
  /-- Details of every trial, and the summary. -/
  | pretty
  /-- An XML document. -/
  | junit
  /-- The summary alone. -/
  | terse
deriving DecidableEq, Repr

namespace ReportFormat

/-- All formats, in the order in which they are listed. -/
def all : List ReportFormat := [pretty, junit, terse]

def name : ReportFormat → Text
  | pretty => "pretty".toList
  | junit => "junit".toList
  | terse => "terse".toList

def ofBytes? (bytes : ByteString) : Option ReportFormat :=
  all.find? (fun f => Utf8.encode f.name = bytes)

end ReportFormat

/-- What a command line asks for. -/
structure Options where
  compilerPath : ByteString
  testsPath : Option ByteString := none
  infrastructure : Option ByteString := none
  format : ReportFormat := .pretty
  verbose : Bool := false
  listOnly : Bool := false
  exact : Bool := false
  logDebug : Bool := false
  logTrace : Bool := false
  excluded : List Text := []
  included : List Text := []
deriving DecidableEq, Repr

namespace Options

def config (o : Options) : Config where
  compilerPath := o.compilerPath
  testsDir := o.testsPath.getD Path.here
  infrastructure := (o.infrastructure.map .enabled).getD .disabled

def selection (o : Options) : Selection where
  included := o.included
  excluded := o.excluded
  exact := o.exact

end Options

end CompilerTrials
