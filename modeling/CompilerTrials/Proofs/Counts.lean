import CompilerTrials.Proofs.ExitCodes
import CompilerTrials.Proofs.Lines

/-!
# Counts of results

Results are recorded one after the other. Each of the counts goes through all of them by itself, and
so does each group; the summary shows the counts once more as text.

* `Tally`, `Tally.add`: the four counts, and what one more result does to them.
* `Tally.Balances`: every result is counted, and once; `Tally.Balances.add` keeps this.
* `Results.tally_record`, `Results.balances_foldl_record`: one record, and all of them.
* `Results.perm_ofSuite`: the two suites hold every result, and each as often as it was recorded.
* `Duration.characters`, `Duration.not_mem_render`: the characters that a duration is written with.
* `Summary.tally?`: the counts on a line, read back; `Summary.filterMap_tally?` reads a summary.
* `Results.counts_agree`: the counts, the exit code, the groups and the summary say the same.
-/

namespace CompilerTrials

/-- The counts of some results. -/
structure Tally where
  attempted : Nat
  passed : Nat
  failed : Nat
  skipped : Nat
deriving DecidableEq, Repr

namespace Tally

/-- With one result more, which passed, failed or was left out. -/
def add (t : Tally) : Option Verdict → Tally
  | some .pass => { t with attempted := t.attempted + 1, passed := t.passed + 1 }
  | some .fail => { t with attempted := t.attempted + 1, failed := t.failed + 1 }
  | none => { t with skipped := t.skipped + 1 }

/-- The counts are those of `n` results, none of which is counted twice. -/
structure Balances (t : Tally) (n : Nat) : Prop where
  attempted : t.attempted = t.passed + t.failed
  all : t.attempted + t.skipped = n

theorem Balances.add {t : Tally} {n : Nat} (h : t.Balances n) (v : Option Verdict) :
    (t.add v).Balances (n + 1) := by
  obtain ⟨hattempted, hall⟩ := h
  unfold Tally.add
  split
  · constructor
    · show t.attempted + 1 = t.passed + 1 + t.failed
      omega
    · show t.attempted + 1 + t.skipped = n + 1
      omega
  · constructor
    · show t.attempted + 1 = t.passed + (t.failed + 1)
      omega
    · show t.attempted + 1 + t.skipped = n + 1
      omega
  · constructor
    · exact hattempted
    · show t.attempted + (t.skipped + 1) = n + 1
      omega

end Tally

namespace Results

variable {rs : Results}

def tally (rs : Results) : Tally := ⟨rs.attempted, rs.passed, rs.failed, rs.skipped⟩

/-! ## Records -/

/-- One record adds one to one of the counts of the passed, the failed and the skipped. -/
theorem tally_record (rs : Results) (r : TrialResult) :
    (rs.record r).tally = rs.tally.add r.verdict := by
  have hcount (p : TrialResult → Bool) :
      (rs.record r).list.countP p = rs.list.countP p + if p r then 1 else 0 := by
    rw [record, List.countP_append, List.countP_singleton]
  unfold tally attempted passed failed skipped
  rw [hcount, hcount, hcount, hcount]
  unfold TrialResult.isSkipped TrialResult.isPassed TrialResult.isFailed
  cases r.verdict with
  | none => rfl
  | some v =>
    cases v with
    | pass => rfl
    | fail => rfl

/-- Records keep the counts in balance. -/
theorem balances_foldl_record (records : List TrialResult) {n : Nat} (h : rs.tally.Balances n) :
    (records.foldl record rs).tally.Balances (n + records.length) := by
  induction records generalizing rs n with
  | nil => exact h
  | cons r records ih =>
    have hfirst : (rs.record r).tally.Balances (n + 1) := by
      rw [tally_record]
      exact h.add r.verdict
    have hrest := ih hfirst
    rwa [Nat.add_right_comm n 1, Nat.add_assoc] at hrest

theorem list_foldl_record (records : List TrialResult) :
    (records.foldl record rs).list = rs.list ++ records := by
  induction records generalizing rs with
  | nil => exact (List.append_nil _).symm
  | cons r records ih =>
    rw [List.foldl_cons, ih, record, List.append_assoc, List.singleton_append]

/-! ## Groups -/

theorem perm_ofSuite (rs : Results) :
    (rs.ofSuite .success ++ rs.ofSuite .error).Perm rs.list := by
  have herror : rs.ofSuite .error = rs.list.filter (fun r => !decide (r.trial.suite = .success)) := by
    unfold ofSuite
    apply List.filter_congr
    intro r _
    cases r.trial.suite with
    | success => rfl
    | error => rfl
  rw [herror]
  exact List.filter_append_perm _ _

theorem sublist_ofSuite (rs : Results) (s : Suite) : (rs.ofSuite s).Sublist rs.list :=
  List.filter_sublist

theorem suite_of_mem_ofSuite {s : Suite} {r : TrialResult} (h : r ∈ rs.ofSuite s) :
    r.trial.suite = s :=
  of_decide_eq_true (List.mem_filter.mp h).2

theorem exitCode_eq (rs : Results) :
    rs.exitCode = if ∃ r ∈ rs.list, r.verdict = some .fail then 1 else 0 := by
  split
  · next hfailed => exact exitCode_eq_one_iff.mpr hfailed
  · next hfailed =>
    apply exitCode_eq_zero_iff.mpr
    intro r hr hverdict
    exact hfailed ⟨r, hr, hverdict⟩

end Results

/-! ## Durations as text -/

namespace Duration

variable {c : Char}

/-- The characters of durations. -/
def characters : Text := ['.', 's', 'm', 'µ', 'n'] ++ Text.digits

theorem mem_characters_of_mem_fraction {whole part places : Nat}
    (h : c ∈ fraction whole part places) : c ∈ characters := by
  have hdigit {c : Char} (hc : c ∈ Text.digits) : c ∈ characters := List.mem_append_right _ hc
  unfold fraction at h
  rcases List.mem_append.mp h with hwhole | hpart
  · exact hdigit (JUnit.mem_digits_of_mem_ofNat hwhole)
  · split at hpart
    · cases hpart
    · rcases List.mem_cons.mp hpart with rfl | hc
      · decide
      · have hpadded := (List.dropWhile_sublist _).mem (List.mem_reverse.mp hc)
        exact hdigit (JUnit.mem_digits_of_mem_padLeft (List.mem_reverse.mp hpadded))

theorem mem_characters_of_mem_render {d : Duration} (h : c ∈ d.render) : c ∈ characters := by
  have hunit {whole part places : Nat} {unit : Text} (hunits : unit.Within (· ∈ characters))
      (hc : c ∈ fraction whole part places ++ unit) : c ∈ characters :=
    (List.mem_append.mp hc).elim mem_characters_of_mem_fraction (hunits c)
  unfold render at h
  split at h
  · exact hunit (by decide) h
  · split at h
    · exact hunit (by decide) h
    · split at h
      · exact hunit (by decide) h
      · exact hunit (by decide) h

theorem not_mem_render (h : c ∉ characters) (d : Duration) : c ∉ d.render := fun hmem =>
  h (mem_characters_of_mem_render hmem)

end Duration

/-! ## Summaries -/

namespace Summary

variable {t : Tally} {line first : Text} {rest : List Text}

/-- The words of the line that tells the counts. -/
def words (t : Tally) : List Text :=
  [Text.ofNat t.attempted, "test".toList, "case(s)".toList, "ran:".toList, Text.ofNat t.passed,
    "succeeded,".toList, Text.ofNat t.failed, "failed,".toList, Text.ofNat t.skipped,
    "skipped.".toList]

/-- The counts on a line, if it is one that tells them. -/
def tally? (line : Text) : Option Tally :=
  match line.splitOn ' ' with
  | [attempted, test, cases, ran, passed, succeeded, failed, failing, skipped, skipping] =>
    if [test, cases, ran, succeeded, failing, skipping] =
        ["test".toList, "case(s)".toList, "ran:".toList, "succeeded,".toList, "failed,".toList,
          "skipped.".toList] then do
      return {
        attempted := ← Xml.numeral? 10 attempted
        passed := ← Xml.numeral? 10 passed
        failed := ← Xml.numeral? 10 failed
        skipped := ← Xml.numeral? 10 skipped }
    else none
  | _ => none

theorem not_mem_ofNat {c : Char} (h : c ∉ Text.digits) (n : Nat) : c ∉ Text.ofNat n :=
  fun hmem => h (JUnit.mem_digits_of_mem_ofNat hmem)

/-- No word holds a blank or a line feed. -/
theorem not_mem_words (t : Tally) : ∀ word ∈ words t, ' ' ∉ word ∧ '\n' ∉ word := by
  have hnumber (n : Nat) : ' ' ∉ Text.ofNat n ∧ '\n' ∉ Text.ofNat n :=
    ⟨not_mem_ofNat (by decide) n, not_mem_ofNat (by decide) n⟩
  intro word hword
  simp only [words, List.mem_cons, List.not_mem_nil, or_false] at hword
  rcases hword with rfl | rfl | rfl | rfl | rfl | rfl | rfl | rfl | rfl | rfl
  · exact hnumber _
  · decide
  · decide
  · decide
  · exact hnumber _
  · decide
  · exact hnumber _
  · decide
  · exact hnumber _
  · decide

/-- The counts are read back from their line. -/
theorem tally?_words (t : Tally) : tally? ([' '].intercalate (words t)) = some t := by
  unfold tally?
  have hblank : ∀ word ∈ words t, ' ' ∉ word := fun word hword => (not_mem_words t word hword).1
  rw [List.splitOn_intercalate ' ' hblank (List.cons_ne_nil _ _)]
  simp only [words, if_true, Xml.numeral?_ofNat]
  rfl

/-- A line that begins with a word that is no number tells no counts. -/
theorem tally?_eq_none (hline : line.splitOn ' ' = first :: rest)
    (hfirst : Xml.numeral? 10 first = none) : tally? line = none := by
  unfold tally?
  rw [hline]
  split
  · next heq =>
    obtain ⟨rfl, -⟩ := List.cons.inj heq
    rw [hfirst]
    exact ite_self _
  · rfl

/-! ### Lines of a summary -/

def barLine : Text := List.replicate 80 '='

def timeLine (d : Duration) : Text := "total compiler time: ".toList ++ d.render

/-- The lines of a summary; the last two are missing where there is no total. -/
def lines (rs : Results) : List Text :=
  barLine :: [' '].intercalate (words rs.tally) ::
    rs.total?.toList.flatMap (fun d => [timeLine d, barLine])

theorem counts_eq (rs : Results) :
    counts false rs = [' '].intercalate (words rs.tally) ++ ['\n'] := by
  have hran : " test case(s) ran: ".toList =
      ' ' :: ("test".toList ++ ' ' :: ("case(s)".toList ++ ' ' :: ("ran:".toList ++ [' ']))) := by
    decide
  have hpassed : " succeeded, ".toList = ' ' :: ("succeeded,".toList ++ [' ']) := by decide
  have hfailed : " failed, ".toList = ' ' :: ("failed,".toList ++ [' ']) := by decide
  have hskipped : " skipped.\n".toList = ' ' :: ("skipped.".toList ++ ['\n']) := by decide
  simp only [counts, Style.paint_false, hran, hpassed, hfailed, hskipped, words, Results.tally,
    List.intercalate_cons_cons, List.intercalate_singleton, List.append_assoc, List.cons_append,
    List.nil_append]

theorem text_draft (rs : Results) : (draft false rs).text = Text.unlines (lines rs) := by
  have hbar : bar = barLine ++ ['\n'] := rfl
  have htime (d : Duration) : time d = timeLine d ++ ['\n'] := rfl
  unfold draft lines Draft.text
  cases rs.total? with
  | none =>
    simp only [List.flatten_cons, List.flatten_nil, hbar, counts_eq, Option.toList_none,
      List.flatMap_nil, Text.unlines_cons, Text.unlines_nil, List.append_assoc,
      List.singleton_append]
  | some d =>
    simp only [List.flatten_cons, List.flatten_nil, hbar, htime, counts_eq, Option.toList_some,
      List.flatMap_singleton, Text.unlines_cons, Text.unlines_nil, List.append_assoc,
      List.singleton_append]

theorem newline_not_mem_lines (rs : Results) : ∀ l ∈ lines rs, '\n' ∉ l := by
  have hbar : '\n' ∉ barLine := by decide
  intro l hl
  rcases List.mem_cons.mp hl with rfl | hl
  · exact hbar
  · rcases List.mem_cons.mp hl with rfl | hl
    · have hwithin : Text.Within (· ≠ '\n') ([' '].intercalate (words rs.tally)) := by
        apply Text.Within.intercalate
        · decide
        · intro word hword c hc hnewline
          exact (not_mem_words rs.tally word hword).2 (hnewline ▸ hc)
      exact fun hmem => hwithin '\n' hmem rfl
    · obtain ⟨d, -, hl⟩ := List.mem_flatMap.mp hl
      rcases List.mem_cons.mp hl with rfl | hl
      · exact List.not_mem_append (by decide) (Duration.not_mem_render (by decide) d)
      · rw [List.mem_singleton.mp hl]
        exact hbar

theorem tally?_barLine : tally? barLine = none := by
  have hline : barLine.splitOn ' ' = [barLine] := by decide
  exact tally?_eq_none hline (by decide)

theorem tally?_timeLine (d : Duration) : tally? (timeLine d) = none := by
  have hstart : "total compiler time: ".toList =
      "total".toList ++ ' ' :: "compiler time: ".toList := by decide
  have hblank : ' ' ∉ "total".toList := by decide
  have hnumeral : Xml.numeral? 10 "total".toList = none := by decide
  unfold timeLine
  rw [hstart]
  generalize "total".toList = first at hblank hnumeral ⊢
  rw [List.append_assoc, List.cons_append]
  exact tally?_eq_none (List.splitOn_append_cons_self_of_not_mem hblank _) hnumeral

/-- One line of a summary tells the counts, and no other line does. -/
theorem filterMap_tally? (rs : Results) :
    ((draft false rs).text.splitOn '\n').filterMap tally? = [rs.tally] := by
  have hend : (rs.total?.toList.flatMap (fun d => [timeLine d, barLine])).filterMap tally? = [] := by
    cases rs.total? with
    | none => rfl
    | some d =>
      rw [Option.toList_some, List.flatMap_singleton,
        List.filterMap_cons_none (tally?_timeLine d), List.filterMap_cons_none tally?_barLine]
      rfl
  rw [text_draft, Text.splitOn_unlines (newline_not_mem_lines rs), List.filterMap_append, lines,
    List.filterMap_cons_none tally?_barLine, List.filterMap_cons_some (tally?_words rs.tally), hend]
  rfl

end Summary

namespace Results

/-- Whatever is recorded, and in whatever order, what is computed of it agrees: every result is
attempted or skipped, and every attempted one passed or failed; the exit code tells whether one
failed; the suites hold all results, each in the order of the records; one more record adds one to
one of the counts of the passed, the failed and the skipped; and the summary can be read back. -/
theorem counts_agree (records : List TrialResult) :
    let rs := records.foldl record {}
    rs.attempted = rs.passed + rs.failed ∧
    rs.attempted + rs.skipped = records.length ∧
    rs.exitCode = (if ∃ r ∈ records, r.verdict = some .fail then 1 else 0) ∧
    (rs.ofSuite .success ++ rs.ofSuite .error).Perm records ∧
    (∀ s, (rs.ofSuite s).Sublist records ∧ ∀ r ∈ rs.ofSuite s, r.trial.suite = s) ∧
    (∀ r, (rs.record r).tally = rs.tally.add r.verdict) ∧
    ((Summary.draft false rs).text.splitOn '\n').filterMap Summary.tally? =
      [⟨rs.attempted, rs.passed, rs.failed, rs.skipped⟩] := by
  intro rs
  have hempty : (Results.tally {}).Balances 0 := ⟨rfl, rfl⟩
  obtain ⟨hattempted, hall⟩ := balances_foldl_record records hempty
  have hlist : rs.list = records := list_foldl_record records
  refine ⟨hattempted, ?_, ?_, ?_, ?_, rs.tally_record, Summary.filterMap_tally? rs⟩
  · rw [Nat.zero_add] at hall
    exact hall
  · rw [exitCode_eq, hlist]
  · rw [← hlist]
    exact rs.perm_ofSuite
  · intro s
    rw [← hlist]
    exact ⟨rs.sublist_ofSuite s, fun r hr => suite_of_mem_ofSuite hr⟩

end Results

end CompilerTrials
