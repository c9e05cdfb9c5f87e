import CompilerTrials.Options

/-!
# Parameters

What a command line can hold, and how each parameter is spelled.

* `Parameter.ofLong?`, `Parameter.ofShort?`: the parameter that a name spells. Names are not
  abbreviated, and their case counts.
* `Parameter.shown`: the parameter as it stands in messages.
* `Environment`: the variables that stand in for parameters, or colour the output.
-/

namespace CompilerTrials

/-- The parameters that take no value. -/
inductive Switch where
  | verbose
  | listOnly
  | exact
  | logDebug
  | logTrace
deriving DecidableEq, Repr

/-- The parameters that take a value. -/
inductive Setting where
  | compilerPath
  | testsPath
  | infrastructure
  | format
  | skip
deriving DecidableEq, Repr

/-- The parameters that ask about the program. -/
inductive Inquiry where
  | help
  | version
deriving DecidableEq, Repr

/-- What a name on a command line can mean. -/
inductive Parameter where
  | switch (s : Switch)
  | setting (s : Setting)
  | inquiry (i : Inquiry)
deriving DecidableEq, Repr

def Switch.longName : Switch → Text
  | verbose => "verbose".toList
  | listOnly => "list".toList
  | exact => "exact".toList
  | logDebug => "log-debug".toList
  | logTrace => "log-trace".toList

def Switch.all : List Switch := [verbose, listOnly, exact, logDebug, logTrace]

def Setting.longName : Setting → Text
  | compilerPath => "compiler-path".toList
  | testsPath => "tests-path".toList
  | infrastructure => "infrastructure".toList
  | format => "format".toList
  | skip => "skip".toList

/-- The value of a setting as it stands in messages. Only an attached value counts for the
infrastructure. -/
def Setting.valueShown : Setting → Text
  | compilerPath => " <COMPILER_PATH>".toList
  | testsPath => " <TESTS_PATH>".toList
  | infrastructure => "[=<INFRASTRUCTURE>]".toList
  | format => " <FORMAT>".toList
  | skip => " <EXCLUDE_FILTERS>".toList

def Setting.all : List Setting := [compilerPath, testsPath, infrastructure, format, skip]

def Inquiry.longName : Inquiry → Text
  | help => "help".toList
  | version => "version".toList

namespace Parameter

def longName : Parameter → Text
  | switch s => s.longName
  | setting s => s.longName
  | inquiry i => i.longName

def all : List Parameter :=
  Switch.all.map switch ++ Setting.all.map setting ++ [inquiry .help, inquiry .version]

def ofLong? (name : ByteString) : Option Parameter :=
  all.find? (fun p => Utf8.encode p.longName = name)

def short? : Parameter → Option Char
  | switch .verbose => some 'v'
  | inquiry .help => some 'h'
  | inquiry .version => some 'V'
  | _ => none

def ofShort? (c : Char) : Option Parameter := all.find? (fun p => p.short? = some c)

def valueShown : Parameter → Text
  | setting s => s.valueShown
  | switch _ | inquiry _ => []

def spelled (p : Parameter) : Text := "--".toList ++ p.longName

def shown (p : Parameter) : Text := p.spelled ++ p.valueShown

/-- The values that a parameter can take, where they are listed. -/
def choices : Parameter → List Text
  | setting .format => ReportFormat.all.map ReportFormat.name
  | switch .verbose => ["true".toList, "false".toList]
  | _ => []

end Parameter

/-- The variables that the program looks at. -/
structure Environment where
  compilerPath : Option ByteString := none
  testsPath : Option ByteString := none
  infrastructure : Option ByteString := none
  verbose : Option ByteString := none
  noColor : Option ByteString := none
  forceColor : Option ByteString := none
deriving DecidableEq, Repr

def Environment.ofVariables (assigned : List (String × ByteString)) : Environment where
  compilerPath := assigned.lookup "ADEPT_PATH"
  testsPath := assigned.lookup "ADEPT_E2E_TESTS"
  infrastructure := assigned.lookup "ADEPT_INFRASTRUCTURE"
  verbose := assigned.lookup "ADEPT_E2E_VERBOSE"
  noColor := assigned.lookup "NO_COLOR"
  forceColor := assigned.lookup "CLICOLOR_FORCE"

end CompilerTrials
