import CompilerTrials.Invocation

/-!
# Events

What a run says while it goes on.

* `Event.level`, `Event.message`: the importance and the text of an event.
* `LogLevel.shownAt`: an event is shown at its own level and at every more talkative one.
-/

namespace CompilerTrials

/-- How important an event is, the most important first. -/
inductive LogLevel where
  | error
  | warn
  | info
  | debug
  | trace
deriving DecidableEq, Repr

namespace LogLevel

/-- The rank of a level; important levels come first. -/
def rank : LogLevel → Nat
  | error => 0
  | warn => 1
  | info => 2
  | debug => 3
  | trace => 4

/-- Whether an event at this level is shown where `limit` is the most talkative level shown. -/
def shownAt (limit level : LogLevel) : Bool := level.rank ≤ limit.rank

/-- The name of a level, five columns wide. -/
def name : LogLevel → Text
  | error => "ERROR".toList
  | warn => " WARN".toList
  | info => " INFO".toList
  | debug => "DEBUG".toList
  | trace => "TRACE".toList

end LogLevel

/-- What the program was doing when an error ended it. -/
inductive Activity where
  | listing
  | running
  | reporting
deriving DecidableEq, Repr

def Activity.context : Activity → List Text
  | listing => ["listing test cases".toList]
  | running => ["running test cases".toList]
  | reporting => []

/-- What a run says while it goes on. -/
inductive Event where
  /-- A directory below a suite is a trial. -/
  | discovered (found : Trial)
  /-- An entry below a suite is no directory. -/
  | ignoredEntry (path : ByteString)
  /-- An entry below a suite links to nothing. -/
  | ignoredLink (path : ByteString)
  /-- All trials are known, and the run begins. -/
  | began (count : Nat) (testsDir : ByteString)
  /-- The filters leave out a trial. -/
  | skipped (trial : Trial)
  /-- The compiler is being started. -/
  | invoking (invocation : Invocation)
  /-- The compiler is done. -/
  | ended (status : WaitStatus) (duration : Duration)
  /-- A signal terminated the compiler. -/
  | crashed (signal : Nat) (invocation : Invocation)
  /-- A trial has its verdict. -/
  | judged (trial : Trial) (verdict : Verdict)
  /-- All trials are done. -/
  | finished (attempted passed failed : Nat)
  /-- An error ended the program. -/
  | fatal (activity : Activity) (error : Error)
deriving DecidableEq, Repr

namespace Event

def level : Event → LogLevel
  | discovered _ | skipped _ | invoking _ | ended _ _ | judged _ _ => .debug
  | ignoredEntry _ | ignoredLink _ => .trace
  | began _ _ | finished _ _ _ => .info
  | crashed _ _ => .warn
  | fatal _ _ => .error

def message : Event → Text
  | discovered found =>
    "discovered case ".toList ++ found.qualifiedName ++ " (".toList ++ found.kind.render ++ [')']
  | ignoredEntry path => "ignoring non-directory entry ".toList ++ Path.display path
  | ignoredLink path => "ignoring dangling link ".toList ++ Path.display path
  | began count testsDir =>
    "running ".toList ++ Text.ofNat count ++ " case(s) from ".toList ++ Path.display testsDir
  | skipped trial => "skipping ".toList ++ trial.qualifiedName
  | invoking invocation => "running: ".toList ++ invocation.render
  | ended status duration =>
    "compiler exited with ".toList ++ status.render ++ " after ".toList ++ duration.render
  | crashed signal invocation =>
    "compiler was terminated by signal ".toList ++ Text.ofNat signal ++ ": ".toList ++
      invocation.render
  | judged trial verdict => trial.qualifiedName ++ ": ".toList ++ verdict.render
  | finished attempted passed failed =>
    Text.ofNat attempted ++ " attempted, ".toList ++ Text.ofNat passed ++ " passed, ".toList ++
      Text.ofNat failed ++ " failed".toList
  | fatal activity error =>
    ": ".toList.intercalate ("error".toList :: activity.context ++ error.chain)

end Event

end CompilerTrials
