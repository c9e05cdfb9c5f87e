import CompilerTrials.CommandLine.Parameter
import CompilerTrials.Text.Style

/-!
# Help

The texts that tell about the program. Headings and all that is spelled so on a command line are
styled; the value of a variable stands there as it is, with whatever sequences it holds.

* `Help.entries`: what there is to say about each parameter.
* `Help.brief`, `Help.detailed`: the two help texts, in their styles.
* `Help.version`: the name and version of the program.
-/

namespace CompilerTrials.Help

def title (t : String) : Text := Style.enclose [.bold, .underline] t.toList

def literal (t : Text) : Text := Style.enclose [.bold] t

/-- What there is to say about a parameter. -/
structure Entry where
  /-- Its names and its value, in their styles. -/
  heading : Text
  /-- What it does, in one sentence. -/
  about : Text
  /-- What it does, in paragraphs. -/
  paragraphs : List Text
  /-- Its values, with what each means. -/
  choices : List (Text × Text) := []
  /-- Its default. -/
  default : Option Text := none
  /-- The variable that stands in for it, with its value. -/
  standIn : Option (Text × Option ByteString) := none

/-- The names of a parameter and its value. The long names stand below each other. -/
def heading (p : Parameter) : Text :=
  (match p.short? with
    | some c => literal ['-', c] ++ ", ".toList
    | none => "    ".toList) ++ literal p.spelled ++ p.valueShown

/-- The entry of a parameter whose two descriptions are the same. -/
def entry (p : Parameter) (about : String) : Entry where
  heading := heading p
  about := about.toList
  paragraphs := [about.toList]

def Entry.orVariable (e : Entry) (name : String) (value : Option ByteString) : Entry :=
  { e with standIn := some (name.toList, value) }

/-- The entry of the infrastructure. Its value can only be attached. -/
def infrastructure : Entry where
  heading := heading (.setting .infrastructure)
  about := "Pass `--infrastructure <DIR>` to the compiler on every invocation".toList
  paragraphs :=
    ["Pass `--infrastructure <DIR>` to the compiler on every invocation.".toList,
      ("A directory must be attached with `=`, e.g. `--infrastructure=../infra`; " ++
        "a bare flag uses the default directory.").toList]

def format : Entry where
  heading := heading (.setting .format)
  about := "Output format for test results".toList
  paragraphs := ["Output format for test results".toList]
  choices :=
    [("pretty".toList, "Human-readable colored output".toList),
      ("junit".toList, "`JUnit` XML format".toList),
      ("terse".toList, "Summary only".toList)]
  default := some "pretty".toList

/-- All parameters, in the order in which they are listed. The help of `other` differs. -/
def entries (env : Environment) (other : String) : List Entry :=
  [ (entry (.setting .compilerPath) "Path to the compiler executable under test").orVariable
      "ADEPT_PATH" env.compilerPath,
    (entry (.setting .testsPath)
      "Directory containing the `success` and `error` case roots").orVariable
        "ADEPT_E2E_TESTS" env.testsPath,
    infrastructure.orVariable "ADEPT_INFRASTRUCTURE" env.infrastructure,
    format,
    (entry (.switch .verbose) "Display details regarding successful test cases").orVariable
      "ADEPT_E2E_VERBOSE" env.verbose,
    entry (.switch .listOnly) "List available tests without running them",
    entry (.switch .exact) "Exactly match filters (not just substring match)",
    entry (.switch .logDebug) "Enable debug logging",
    entry (.switch .logTrace) "Enable trace logging",
    entry (.setting .skip) "Patterns for tests to be excluded",
    entry (.inquiry .help) other,
    entry (.inquiry .version) "Print version" ]

/-- The entry of the filters, which have no name. -/
def filters : Entry where
  heading := "[INCLUDE_FILTERS]...".toList
  about := "Patterns for tests to be included".toList
  paragraphs := ["Patterns for tests to be included".toList]

def margin : Text := List.replicate 10 ' '

/-- The lines of a description, each with the margin in front. -/
def block (t : Text) : Text :=
  margin ++ t.flatMap (fun c => if c = '\n' then '\n' :: margin else [c]) ++ ['\n']

def variableNote (v : Text × Option ByteString) : Text :=
  "[env: ".toList ++ v.1 ++ ['='] ++ Utf8.decodeLossy (v.2.getD []) ++ [']']

def defaultNote (value : Text) : Text := "[default: ".toList ++ value ++ [']']

def choicesNote (choices : List (Text × Text)) : List Text :=
  if choices.isEmpty then []
  else ["[possible values: ".toList ++ ", ".toList.intercalate (choices.map Prod.fst) ++ [']']]

def Entry.notes (e : Entry) : List Text :=
  e.standIn.toList.map variableNote ++ e.default.toList.map defaultNote

def Entry.brief (e : Entry) : Text :=
  "  ".toList ++ e.heading ++ ['\n'] ++
    block ([' '].intercalate (e.about :: e.notes ++ choicesNote e.choices))

/-- The list of values, one a line, with the descriptions below each other. -/
def choicesList (choices : List (Text × Text)) : Text :=
  let width := (choices.map (fun c => c.1.length)).foldl max 0
  block "Possible values:".toList ++
    choices.flatMap (fun c =>
      let gap := List.replicate (width - c.1.length + 1) ' '
      block ("- ".toList ++ literal c.1 ++ [':'] ++ gap ++ c.2))

def Entry.detailed (e : Entry) : Text :=
  let gap := margin ++ ['\n']
  "  ".toList ++ e.heading ++ ['\n'] ++
    gap.intercalate (e.paragraphs.map block ++
      if e.choices.isEmpty then e.notes.map block else []) ++
    if e.choices.isEmpty then []
    else ['\n'] ++ gap.intercalate (choicesList e.choices :: e.notes.map block)

def preamble : Text :=
  "End-to-end test harness for the Adept compiler\n\n".toList ++ title "Usage:" ++ [' '] ++
    literal "adept-e2e".toList ++ " [OPTIONS] ".toList ++
    literal (Parameter.setting .compilerPath).spelled ++
    " <COMPILER_PATH> [INCLUDE_FILTERS]...\n\n".toList ++ title "Arguments:" ++ ['\n']

def brief (env : Environment) : Text :=
  preamble ++ "  ".toList ++ filters.heading ++ "  ".toList ++ filters.about ++ "\n\n".toList ++
    title "Options:" ++ ['\n'] ++
    (entries env "Print help (see more with '--help')").flatMap Entry.brief

def detailed (env : Environment) : Text :=
  preamble ++ filters.detailed ++ ['\n'] ++ title "Options:" ++ ['\n'] ++
    ['\n'].intercalate ((entries env "Print help (see a summary with '-h')").map Entry.detailed)

def ofKind (env : Environment) (inDetail : Bool) : Text :=
  if inDetail then detailed env else brief env

def version : Text := "adept-e2e 0.1.0\n".toList

end CompilerTrials.Help
