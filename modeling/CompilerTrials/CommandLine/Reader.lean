import CompilerTrials.CommandLine.UsageError

/-!
# Reading command lines

Arguments are read from left to right. Switches and settings with an attached value are settled at
once. A setting that takes the next argument as its value, and filters, stay pending until the next
parameter, a filter after a setting's value, or the end; an unknown name is reported before what is
pending is looked at.

* `Argument.ofBytes`: what one argument says by itself.
* `Given.set`, `Given.turnOn`, `Given.addFilters`: what the command line has given so far, with one
  thing more.
* `Reading.readAll`: what a list of arguments gives.
* `Given.addVariables`: the variables stand in for what the command line does not give.
* `CommandLine.read`: what a command line asks for.
-/

namespace CompilerTrials

/-- What one argument says by itself. -/
inductive Argument where
  /-- All arguments after it are filters. -/
  | terminator
  /-- A long name, with the value that is attached to it. -/
  | long (name : ByteString) (value : Option ByteString)
  /-- Short names. -/
  | cluster (names : ByteString)
  /-- A value of the parameter before it, or a filter. -/
  | plain (value : ByteString)
deriving DecidableEq, Repr

namespace Argument

def dash : UInt8 := 0x2D

def equals : UInt8 := 0x3D

/-- A long name with its value, which follows the first equals sign. -/
def ofLong (body : ByteString) : Argument :=
  .long (body.takeWhile (· ≠ equals))
    (match body.dropWhile (· ≠ equals) with
      | [] => none
      | _ :: value => some value)

/-- What one argument says by itself. A lone dash is no name. -/
def ofBytes (bytes : ByteString) : Argument :=
  match bytes with
  | [] => .plain []
  | [b] => .plain [b]
  | a :: b :: rest =>
    if a ≠ dash then .plain (a :: b :: rest)
    else if b ≠ dash then .cluster (b :: rest)
    else if rest.isEmpty then .terminator
    else ofLong rest

end Argument

/-- What the command line has given so far. -/
structure Given where
  compilerPath : Option ByteString := none
  testsPath : Option ByteString := none
  infrastructure : Option ByteString := none
  format : Option ReportFormat := none
  verbose : Bool := false
  listOnly : Bool := false
  exact : Bool := false
  logDebug : Bool := false
  logTrace : Bool := false
  excluded : List Text := []
  included : List Text := []
deriving DecidableEq, Repr

namespace Given

def isOn (g : Given) : Switch → Bool
  | .verbose => g.verbose
  | .listOnly => g.listOnly
  | .exact => g.exact
  | .logDebug => g.logDebug
  | .logTrace => g.logTrace

def withOn (g : Given) : Switch → Given
  | .verbose => { g with verbose := true }
  | .listOnly => { g with listOnly := true }
  | .exact => { g with exact := true }
  | .logDebug => { g with logDebug := true }
  | .logTrace => { g with logTrace := true }

/-- Turns the switch on, which can be done once. -/
def turnOn (g : Given) (s : Switch) : Except UsageError Given :=
  if g.isOn s then .error (.repeated (.switch s)) else .ok (g.withOn s)

/-- Whether the setting can no more be given. -/
def has (g : Given) : Setting → Bool
  | .compilerPath => g.compilerPath.isSome
  | .testsPath => g.testsPath.isSome
  | .infrastructure => g.infrastructure.isSome
  | .format => g.format.isSome
  | .skip => false

/-- A value that must not be empty. -/
def nonempty (s : Setting) (value : ByteString) : Except UsageError ByteString :=
  if value.isEmpty then .error (.valueMissing (.setting s)) else .ok value

def readFormat (value : ByteString) : Except UsageError ReportFormat :=
  match ReportFormat.ofBytes? value with
  | some f => .ok f
  | none => .error (.valueInvalid (Utf8.decodeLossy value) (.setting .format))

/-- A filter, which has to be UTF-8. -/
def readFilter (value : ByteString) : Except UsageError Text :=
  match Utf8.decode? value with
  | some t => .ok t
  | none => .error .notUtf8

/-- With the setting at the value; a filter to skip is added to those before it. -/
def put (g : Given) (s : Setting) (value : ByteString) : Except UsageError Given :=
  match s with
  | .compilerPath => return { g with compilerPath := some (← nonempty s value) }
  | .testsPath => return { g with testsPath := some (← nonempty s value) }
  | .infrastructure => return { g with infrastructure := some (← nonempty s value) }
  | .format => return { g with format := some (← readFormat (← nonempty s value)) }
  | .skip => return { g with excluded := g.excluded ++ [← readFilter value] }

/-- Gives the setting the value, which can be done once for most. That there is none is reported
first. -/
def set (g : Given) (s : Setting) (value : Option ByteString) : Except UsageError Given :=
  match value with
  | none => .error (.valueMissing (.setting s))
  | some v => if g.has s then .error (.repeated (.setting s)) else g.put s v

def addFilters (g : Given) (values : List ByteString) : Except UsageError Given := do
  let filters ← values.mapM readFilter
  return { g with included := g.included ++ filters }

/-- With the variable in the place of a setting that is not given. -/
def standIn (g : Given) (s : Setting) (fallback : Option ByteString) : Except UsageError Given :=
  match fallback with
  | none => .ok g
  | some value => if g.has s then .ok g else g.put s value

/-- With the variable in the place of the verbose switch, if that is off. -/
def standInVerbose (g : Given) (fallback : Option ByteString) : Except UsageError Given :=
  match fallback with
  | none => .ok g
  | some value =>
    if g.verbose then .ok g
    else if value = Utf8.encode "true".toList then .ok { g with verbose := true }
    else if value = Utf8.encode "false".toList then .ok g
    else if value.isEmpty then .error (.valueMissing (.switch .verbose))
    else .error (.valueInvalid (Utf8.decodeLossy value) (.switch .verbose))

/-- With the variables in the place of what is not given. -/
def addVariables (g : Given) (env : Environment) : Except UsageError Given := do
  let g ← g.standIn .compilerPath env.compilerPath
  let g ← g.standIn .testsPath env.testsPath
  let g ← g.standIn .infrastructure env.infrastructure
  g.standInVerbose env.verbose

/-- The options, for which a compiler has to be given. -/
def options (g : Given) : Except UsageError Options :=
  match g.compilerPath with
  | none => .error .compilerMissing
  | some path =>
    .ok
      { compilerPath := path
        testsPath := g.testsPath
        infrastructure := g.infrastructure
        format := g.format.getD .pretty
        verbose := g.verbose
        listOnly := g.listOnly
        exact := g.exact
        logDebug := g.logDebug
        logTrace := g.logTrace
        excluded := g.excluded
        included := g.included }

end Given

/-- What waits to be settled. -/
inductive Pending where
  | nothing
  /-- A setting, with the argument that it took as its value. -/
  | setting (s : Setting) (value : Option ByteString)
  /-- Filters. -/
  | filters (values : List ByteString)
deriving DecidableEq, Repr

def Pending.settle (p : Pending) (g : Given) : Except UsageError Given :=
  match p with
  | nothing => .ok g
  | setting s value => g.set s value
  | filters values => g.addFilters values

/-- Why reading ends before the arguments do. -/
inductive Stop where
  | usage (e : UsageError)
  /-- Help is asked for; `detailed` when it is by its long name. -/
  | help (detailed : Bool)
  | version
deriving DecidableEq, Repr

/-- How far the reading of a command line has come. -/
structure Reading where
  given : Given := {}
  pending : Pending := .nothing
deriving DecidableEq, Repr

namespace Reading

/-- Settles what is pending, or reports why it cannot be. -/
def settled (r : Reading) : Except Stop Given := (r.pending.settle r.given).mapError .usage

def andThen (r : Reading) (f : Given → Except UsageError Given) : Except Stop Reading := do
  let g ← r.settled
  let g ← (f g).mapError .usage
  return { given := g }

/-- Answers an inquiry, once what is pending is settled. -/
def inquire (r : Reading) (i : Inquiry) (detailed : Bool) : Except Stop Reading := do
  let _ ← r.settled
  match i with
  | .help => .error (.help detailed)
  | .version => .error .version

def filter (r : Reading) (value : ByteString) : Except Stop Reading :=
  match r.pending with
  | .filters values => .ok { r with pending := .filters (values ++ [value]) }
  | .nothing | .setting _ _ => do
    let g ← r.settled
    return { given := g, pending := .filters [value] }

/-- An argument that is no name: the value that a setting waits for, or a filter. -/
def plain (r : Reading) (value : ByteString) : Except Stop Reading :=
  match r.pending with
  | .setting s none => .ok { r with pending := .setting s (some value) }
  | .nothing | .setting _ (some _) | .filters _ => r.filter value

/-- A setting whose value is attached, or follows. Without an attached value the infrastructure
takes its default and leaves the next argument alone. -/
def setting (r : Reading) (s : Setting) (value : Option ByteString) : Except Stop Reading :=
  match s, value with
  | s, some v => r.andThen (·.set s (some v))
  | .infrastructure, none => r.andThen (·.set .infrastructure (some defaultInfrastructureDir))
  | s, none => do
    let g ← r.settled
    return { given := g, pending := .setting s none }

def long (r : Reading) (name : ByteString) (value : Option ByteString) : Except Stop Reading :=
  match Parameter.ofLong? name, value with
  | none, _ => .error (.usage (.unknown ("--".toList ++ Utf8.decodeLossy name)))
  | some (.setting s), value => r.setting s value
  | some p, some v => .error (.usage (.unexpectedValue (Utf8.decodeLossy v) p))
  | some (.switch s), none => r.andThen (·.turnOn s)
  | some (.inquiry i), none => r.inquire i true

def short (r : Reading) (c : Char) : Except Stop Reading :=
  match Parameter.ofShort? c with
  | some (.switch s) => r.andThen (·.turnOn s)
  | some (.inquiry i) => r.inquire i false
  | some (.setting _) | none => .error (.usage (.unknown ['-', c]))

/-- Short names, one by one. Bytes that are no text spell no name. -/
def cluster (r : Reading) (names : ByteString) : Except Stop Reading := do
  let r ← (Utf8.split names).1.foldlM short r
  match (Utf8.split names).2 with
  | [] => return r
  | rest => .error (.usage (.unknown ('-' :: Utf8.decodeLossy rest)))

def readAll (r : Reading) : List ByteString → Except Stop Reading
  | [] => .ok r
  | bytes :: rest =>
    match Argument.ofBytes bytes with
    | .terminator => rest.foldlM filter r
    | .long name value => do (← r.long name value).readAll rest
    | .cluster names => do (← r.cluster names).readAll rest
    | .plain value => do (← r.plain value).readAll rest

end Reading

/-- What a command line asks for. -/
inductive Request where
  | run (options : Options)
  | help (detailed : Bool)
  | version
deriving DecidableEq, Repr

namespace CommandLine

/-- What the arguments give, with nothing pending. -/
def given (args : List ByteString) : Except Stop Given := do
  (← Reading.readAll {} args).settled

def read (env : Environment) (args : List ByteString) : Except UsageError Request :=
  match given args with
  | .ok g => do return .run (← (← g.addVariables env).options)
  | .error (.usage e) => .error e
  | .error (.help detailed) => .ok (.help detailed)
  | .error .version => .ok .version

end CommandLine

end CompilerTrials
