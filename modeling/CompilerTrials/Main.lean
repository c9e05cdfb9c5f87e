import CompilerTrials.Recording

/-!
# The command line

`main` reads a recording from standard input, and does with its arguments and the variables around
it what `Program.run` says.
-/

namespace CompilerTrials

def variableNames : List String :=
  ["ADEPT_PATH", "ADEPT_E2E_TESTS", "ADEPT_INFRASTRUCTURE", "ADEPT_E2E_VERBOSE", "NO_COLOR",
    "CLICOLOR_FORCE"]

def currentVariables : List String → IO (List (String × ByteString))
  | [] => return []
  | name :: rest => do
    let value ← IO.getEnv name
    let later ← currentVariables rest
    return (value.toList.map fun v => (name, Utf8.encode v.toList)) ++ later

/-- The text of a stream up to its end. -/
partial def readAllText (stream : IO.FS.Stream) (read : String) : IO String := do
  let line ← stream.getLine
  if line.isEmpty then return read else readAllText stream (read ++ line)

end CompilerTrials

open CompilerTrials in
/-- Runs the program on the recording that standard input holds. -/
def main (args : List String) : IO UInt32 := do
  let recording ← readAllText (← IO.getStdin) ""
  match Recording.host? recording.toList with
  | none =>
    (← IO.getStderr).putStrLn "the recording cannot be read"
    return UInt32.ofNat Program.failureCode
  | some host =>
    let assigned ← currentVariables variableNames
    let exit := Program.run host (.ofVariables assigned) (args.map fun a => Utf8.encode a.toList)
    (← IO.getStdout).putStr (String.ofList exit.stdout)
    (← IO.getStderr).putStr (String.ofList exit.stderr)
    return UInt32.ofNat exit.code
