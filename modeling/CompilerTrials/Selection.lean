import CompilerTrials.Text

/-!
# Selections

A selection says by name which trials run.

* `Selection.matchesAny`: a filter matches the name that equals it, or, where the selection is not
  exact, every name that contains it.
* `Selection.accepts`: a name is selected when an include filter matches it, if there are any, and
  no exclude filter does.
-/

namespace CompilerTrials

/-- The filters of a run. -/
structure Selection where
  included : List Text := []
  excluded : List Text := []
  exact : Bool := false
deriving DecidableEq, Repr

namespace Selection

def filterMatches (exact : Bool) (name filter : Text) : Bool :=
  if exact then filter = name else Text.occursIn filter name

def matchesAny (exact : Bool) (name : Text) (filters : List Text) : Bool :=
  filters.any (filterMatches exact name)

def accepts (s : Selection) (name : Text) : Bool :=
  (s.included.isEmpty || matchesAny s.exact name s.included) && !matchesAny s.exact name s.excluded

end Selection

end CompilerTrials
