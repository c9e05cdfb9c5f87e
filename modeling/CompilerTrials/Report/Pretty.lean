import CompilerTrials.Report.Summary

/-!
# Reports for people

* `Pretty.details`: the details of every result, suite by suite; each suite has a heading where
  `verbose` asks for it.
* `Pretty.draft`: the details and the summary.
-/

namespace CompilerTrials

namespace Pretty

def heading (color : Bool) (s : Suite) : Text :=
  "=================== ".toList ++ Style.blue.paint color "Running case root".toList ++
    ": [".toList ++ Style.italic.paint color s.name ++ "] ===================\n".toList

def ofSuite (color verbose : Bool) (rs : Results) (s : Suite) : List Text :=
  (if verbose then [heading color s] else []) ++
    (rs.ofSuite s).flatMap (Details.ofResult color verbose)

def details (color verbose : Bool) (rs : Results) : List Text :=
  Suite.all.flatMap (ofSuite color verbose rs)

def draft (color verbose : Bool) (rs : Results) : Draft :=
  (Summary.draft color rs).after (details color verbose rs)

end Pretty

end CompilerTrials
