import CompilerTrials.Report.Details
import CompilerTrials.Report.Draft

/-!
# Summaries

* `Summary.draft`: the counts and the total time.
-/

namespace CompilerTrials

namespace Summary

def bar : Text := List.replicate 80 '=' ++ ['\n']

def counts (color : Bool) (rs : Results) : Text :=
  Text.ofNat rs.attempted ++ " test case(s) ran: ".toList ++
    Style.green.paint color (Text.ofNat rs.passed) ++ " succeeded, ".toList ++
    (if 0 < rs.failed then Style.red else Style.green).paint color (Text.ofNat rs.failed) ++
    " failed, ".toList ++
    (if 0 < rs.skipped then Style.cyan else Style.green).paint color (Text.ofNat rs.skipped) ++
    " skipped.\n".toList

def time (d : Duration) : Text := "total compiler time: ".toList ++ d.render ++ ['\n']

/-- The summary. It stops before the time when the total cannot be held. -/
def draft (color : Bool) (rs : Results) : Draft :=
  match rs.total? with
  | some d => ⟨[bar, counts color rs, time d, bar], none⟩
  | none => ⟨[bar, counts color rs], some (.overflow .total)⟩

end Summary

end CompilerTrials
