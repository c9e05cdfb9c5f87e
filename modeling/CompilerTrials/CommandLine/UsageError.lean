import CompilerTrials.CommandLine.Parameter
import CompilerTrials.Text.Plain
import CompilerTrials.Text.Style

/-!
# Usage errors

* `UsageError`: why a command line is refused.
* `UsageError.styled`: the first paragraph of what is said about it, in its styles.
* `UsageError.message`: the same without styles. What a value holds in sequences goes with them.
-/

namespace CompilerTrials

/-- Why a command line is refused. -/
inductive UsageError where
  /-- No parameter has this name. -/
  | unknown (shown : Text)
  /-- A value is attached to a parameter that takes none. -/
  | unexpectedValue (value : Text) (parameter : Parameter)
  /-- A parameter that is given once stands there again. -/
  | repeated (parameter : Parameter)
  /-- A value is missing, or empty where it must not be. -/
  | valueMissing (parameter : Parameter)
  /-- A value is none of those that the parameter can take. -/
  | valueInvalid (value : Text) (parameter : Parameter)
  /-- A filter is not UTF-8. -/
  | notUtf8
  /-- No compiler is given. -/
  | compilerMissing
deriving DecidableEq, Repr

namespace UsageError

def wrong (t : Text) : Text := Style.enclose [.yellow] t

def right (t : Text) : Text := Style.enclose [.green] t

/-- The text in the style of what is spelled so on a command line. -/
def literal (t : Text) : Text := Style.enclose [.bold] t

def choices (p : Parameter) : Text :=
  if p.choices.isEmpty then []
  else "\n  [possible values: ".toList ++ ", ".toList.intercalate (p.choices.map right) ++ [']']

/-- What the error is, after the word that says that it is one. -/
def detail : UsageError → Text
  | unknown shown => "unexpected argument '".toList ++ wrong shown ++ "' found".toList
  | unexpectedValue value p =>
    "unexpected value '".toList ++ wrong value ++ "' for '".toList ++ literal p.shown ++
      "' found; no more were expected".toList
  | repeated p =>
    "the argument '".toList ++ wrong p.shown ++ "' cannot be used multiple times".toList
  | valueMissing p =>
    "a value is required for '".toList ++ wrong p.shown ++ "' but none was supplied".toList ++
      choices p
  | valueInvalid value p =>
    "invalid value '".toList ++ wrong value ++ "' for '".toList ++ literal p.shown ++ ['\''] ++
      choices p
  | notUtf8 => "invalid UTF-8 was detected in one or more arguments".toList
  | compilerMissing =>
    "the following required arguments were not provided:\n  ".toList ++
      right (Parameter.setting .compilerPath).shown

/-- What is said about the error, in its styles. -/
def styled (e : UsageError) : Text :=
  Style.enclose [.bold, .red] "error:".toList ++ ' ' :: e.detail

def message (e : UsageError) : Text := Plain.ofStyled e.styled

end UsageError

end CompilerTrials
