import CompilerTrials.Proofs.Coloring

/-!
# Characters that no document can hold

The markup of a document, its numbers and the names of its suites are made of characters that every
XML document can hold. Other characters come into it by two ways only: the names of trials stand in
attributes as they are but for the characters that mean something there, and outputs stand in
sections of character data as they are once they are stripped.

* `JUnit.mem_render_case_iff`, `JUnit.mem_render_suite_iff`, `JUnit.mem_renderSuites_iff`: where such
  a character of a document comes from.
* `JUnit.mem_text_draft_iff`: where such a character of a report comes from.
* `JUnit.within_output_iff`: of these characters an output can hold two, as it holds no controls.
* `Report.legal_draft_junit`: when all characters of a report are legal, and when ESC is in it.
* `Report.not_legal_draft_junit`: a name with ESC, and an output with U+FFFE.
-/

namespace CompilerTrials

variable {c d : Char} {t a b : Text}

namespace Xml

/-- Every document can hold the character. -/
def Legal (c : Char) : Prop := isLegal c = true

instance : DecidablePred Legal := fun c => inferInstanceAs (Decidable (isLegal c = true))

theorem not_mem_of_clean (hc : ¬ Legal c) (h : Clean t) : c ∉ t := fun hmem => hc (h c hmem).1

theorem mem_append_left_iff (hc : ¬ Legal c) (ha : Clean a) : c ∈ a ++ t ↔ c ∈ t :=
  List.mem_append.trans (or_iff_right (not_mem_of_clean hc ha))

theorem mem_append_right_iff (hc : ¬ Legal c) (hb : Clean b) : c ∈ t ++ b ↔ c ∈ t :=
  List.mem_append.trans (or_iff_left (not_mem_of_clean hc hb))

/-- Around a text, legal characters make no difference. -/
theorem mem_between_iff (hc : ¬ Legal c) (ha : Clean a) (hb : Clean b) :
    c ∈ a ++ t ++ b ↔ c ∈ t :=
  (mem_append_right_iff hc hb).trans (mem_append_left_iff hc ha)

end Xml

namespace JUnit

open Xml (Legal Clean)
open Text (Within)

/-! ## Markup -/

theorem mem_escapeChar_iff (hc : ¬ Legal c) : c ∈ escapeChar d ↔ c = d := by
  have hliteral : ∀ {special : Char} {t : Text}, Legal special → Clean t → d = special →
      (c ∈ t ↔ c = d) := by
    intro special t hspecial ht hd
    refine iff_of_false (Xml.not_mem_of_clean hc ht) fun heq => hc ?_
    rw [heq, hd]
    exact hspecial
  unfold escapeChar
  split
  · next h => exact hliteral (by decide) (by decide) h
  split
  · next h => exact hliteral (by decide) (by decide) h
  split
  · next h => exact hliteral (by decide) (by decide) h
  split
  · next h => exact hliteral (by decide) (by decide) h
  split
  · next h => exact hliteral (by decide) (by decide) h
  · exact List.mem_singleton

/-- Escaping neither adds such a character nor takes one away. -/
theorem mem_escape_iff (hc : ¬ Legal c) : c ∈ escape t ↔ c ∈ t := by
  simp only [escape, List.mem_flatMap, mem_escapeChar_iff hc, exists_eq_right']

theorem mem_attr_iff (hc : ¬ Legal c) {key : String} (hkey : Xml.isName key.toList = true) :
    c ∈ attr key t ↔ c ∈ t := by
  have hopening : Clean (' ' :: key.toList ++ ['=', '"']) :=
    Clean.append (List.forall_mem_cons.mpr ⟨by decide, Xml.clean_of_isName hkey⟩) (by decide)
  have hquote : Clean ['"'] := by decide
  exact (Xml.mem_between_iff hc hopening hquote).trans (mem_escape_iff hc)

theorem mem_characterData_iff (hc : ¬ Legal c) : c ∈ characterData t ↔ c ∈ t :=
  Xml.mem_between_iff hc (by decide) (by decide)

/-! ## Documents -/

/-- The output that stands in a document. -/
def Outcome.output : Outcome → Text
  | skipped => []
  | passed output | failed output => output

theorem clean_opening_failure : Clean ("<failure".toList ++
    attr "type" "exit status mismatch".toList ++ attr "message" "failed".toList ++ ['>']) := by
  have htype : Clean (attr "type" "exit status mismatch".toList) :=
    (Xml.attributeText_attr "type" (by decide) (by decide)).clean
  have hmessage : Clean (attr "message" "failed".toList) :=
    (Xml.attributeText_attr "message" (by decide) (by decide)).clean
  exact ((Clean.append (by decide) htype).append hmessage).append (by decide)

theorem mem_render_outcome_iff (hc : ¬ Legal c) {o : Outcome} :
    c ∈ o.render ↔ c ∈ o.output := by
  cases o with
  | skipped =>
    have hskipped : Clean (Outcome.render .skipped) := by decide
    exact iff_of_false (Xml.not_mem_of_clean hc hskipped) List.not_mem_nil
  | passed output =>
    exact (Xml.mem_between_iff hc (by decide) (by decide)).trans (mem_characterData_iff hc)
  | failed output =>
    unfold Outcome.render Outcome.output
    rw [Xml.mem_between_iff hc clean_opening_failure (by decide)]
    exact mem_characterData_iff hc

theorem mem_render_case_iff (hc : ¬ Legal c) {tc : TestCase} :
    c ∈ tc.render ↔ c ∈ tc.name ∨ c ∈ tc.outcome.output := by
  have hopening : Clean "<testcase".toList := by decide
  have htime : Clean (attr "time" (seconds tc.time)) :=
    (Xml.attributeText_attr "time" (by decide) (isValue_seconds tc.time)).clean
  unfold TestCase.render
  rw [Xml.mem_append_right_iff hc (by decide), List.mem_append,
    Xml.mem_append_right_iff hc (by decide), Xml.mem_between_iff hc hopening htime,
    mem_attr_iff hc (by decide), mem_render_outcome_iff hc]

/-- A legal timestamp, a legal name of the suite and its counts add no such character. -/
theorem mem_render_suite_iff (hc : ¬ Legal c) {timestamp : Text} {s : TestSuite}
    (hstamp : Xml.IsValue timestamp) (hname : Xml.IsValue s.name) (index : Nat) :
    c ∈ s.render timestamp index ↔ ∃ tc ∈ s.cases, c ∈ tc.name ∨ c ∈ tc.outcome.output := by
  have hattributes := (attributeText_suite hstamp hname index).clean
  have hopening : Clean ("<testsuite".toList ++ s.attributes timestamp index) :=
    Clean.append (by decide) hattributes
  unfold TestSuite.render
  split
  · next hempty =>
    have hnone : Clean "/>".toList := by decide
    rw [List.isEmpty_iff.mp hempty]
    refine iff_of_false (Xml.not_mem_of_clean hc (hopening.append hnone)) ?_
    rintro ⟨tc, hmem, -⟩
    exact List.not_mem_nil hmem
  · have hend : Clean ("<testsuite".toList ++ s.attributes timestamp index ++ ['>']) :=
      hopening.append (by decide)
    rw [← List.append_assoc, ← List.append_assoc, Xml.mem_between_iff hc hend (by decide),
      List.mem_flatMap]
    simp only [mem_render_case_iff hc]

/-- Such a character of some suites stands in the name of a test case, or in an output. -/
theorem mem_renderSuites_iff (hc : ¬ Legal c) {timestamp : Text} {document : Document}
    (hstamp : Xml.IsValue timestamp) (hnames : ∀ s ∈ document, Xml.IsValue s.name) (index : Nat) :
    c ∈ renderSuites timestamp index document ↔
      ∃ s ∈ document, ∃ tc ∈ s.cases, c ∈ tc.name ∨ c ∈ tc.outcome.output := by
  induction document generalizing index with
  | nil => simp [renderSuites]
  | cons s rest ih =>
    obtain ⟨hname, hrest⟩ := List.forall_mem_cons.mp hnames
    rw [renderSuites, List.mem_append, mem_render_suite_iff hc hstamp hname, ih hrest,
      List.exists_mem_cons_iff]

/-! ## Reports -/

theorem isValue_name (s : Suite) : Xml.IsValue s.name := by cases s <;> decide

variable {rs : Results} {r : TrialResult} {color verbose : Bool} {timestamp : Text}

/-- What a document holds of the characters of a result. -/
theorem mem_ofResult_iff (c : Char) (color verbose : Bool) (r : TrialResult) :
    (c ∈ (ofResult color verbose r).name ∨ c ∈ (ofResult color verbose r).outcome.output) ↔
      c ∈ r.trial.name ∨ r.verdict ≠ none ∧ c ∈ output color verbose r := by
  unfold ofResult
  rcases r.verdict with _ | _ | _
  · simp [Outcome.output]
  · simp [Outcome.output]
  · simp [Outcome.output, output, Escape.strip_strip]

theorem mem_suitesOf_iff (p : TestCase → Prop) (rs : Results) (time : Suite → Duration)
    (ss : List Suite) :
    (∃ s ∈ suitesOf color verbose rs time ss, ∃ tc ∈ s.cases, p tc) ↔
      ∃ r ∈ rs.list, r.trial.suite ∈ ss ∧ p (ofResult color verbose r) := by
  constructor
  · rintro ⟨suite, hsuite, tc, htc, hp⟩
    obtain ⟨s, hs, rfl⟩ := List.mem_map.mp hsuite
    obtain ⟨r, hr, rfl⟩ := List.mem_map.mp htc
    obtain ⟨hmem, hin⟩ := List.mem_filter.mp hr
    exact ⟨r, hmem, of_decide_eq_true hin ▸ hs, hp⟩
  · rintro ⟨r, hr, hs, hp⟩
    exact ⟨_, List.mem_map_of_mem hs, _, List.mem_map_of_mem (Results.mem_ofSuite hr), hp⟩

/-- Such a character of a report stands in the name of a trial, or in the output of an attempted
one, and the suite of that trial is written. -/
theorem mem_text_draft_iff (hc : ¬ Legal c) (hstamp : Xml.IsValue timestamp) (color verbose : Bool)
    (rs : Results) :
    c ∈ (draft color verbose timestamp rs).text ↔ ∃ r ∈ rs.list, r.trial.suite ∈ reached rs ∧
      (c ∈ r.trial.name ∨ r.verdict ≠ none ∧ c ∈ output color verbose r) := by
  obtain ⟨time, start, stop, hstart, hstop, htext⟩ := text_draft_eq timestamp rs
  have hcleanStart : Clean start := by rcases hstart with rfl | rfl <;> decide
  have hcleanStop : Clean stop := by rcases hstop with rfl | rfl <;> decide
  have hnames : ∀ s ∈ suitesOf color verbose rs time (reached rs), Xml.IsValue s.name := by
    intro suite hsuite
    obtain ⟨s, -, rfl⟩ := List.mem_map.mp hsuite
    exact isValue_name s
  rw [htext, Xml.mem_between_iff hc hcleanStart hcleanStop,
    mem_renderSuites_iff hc hstamp hnames, mem_suitesOf_iff]
  simp only [mem_ofResult_iff c color verbose]

/-- An output holds no controls but line feeds, so two characters are all that can be wrong. -/
theorem within_output_iff (color verbose : Bool) (r : TrialResult) :
    Within Legal (output color verbose r) ↔ IsStorable (output color verbose r) := by
  constructor
  · intro h c hmem
    rcases of_decide_eq_true (h c hmem) with rfl | rfl | rfl | ⟨-, hhigh⟩
    · decide
    · decide
    · decide
    · exact hhigh
  · intro h c hmem
    have hclean := Escape.clean_strip h
    rw [output, Escape.strip_strip] at hclean
    exact (hclean c hmem).1

theorem escape_not_mem_output (color verbose : Bool) (r : TrialResult) :
    '\x1b' ∉ output color verbose r := by
  intro h
  have hprint := (Escape.mem_strip h).2
  exact absurd hprint (by decide)

theorem isStorable_output (h : Details.Storable r) (color verbose : Bool) :
    IsStorable (output color verbose r) := by
  have hclean := Escape.clean_strip (Details.isStorable_ofResult h color verbose)
  exact (within_output_iff color verbose r).mp fun c hmem => (hclean c hmem).1

end JUnit

namespace Report

variable {timestamp : Text}

/-- All characters of a report are legal exactly when those of all names are and no output of an
attempted trial holds one of the two that can be wrong there. ESC is in a report exactly when it is
in a name. Both are about the trials whose suites are written, and these are all unless something
stops the report. Reports of legal names are legal if neither the command lines nor what the
compiler wrote hold one of the two. -/
theorem legal_draft_junit (hstamp : Xml.IsValue timestamp) (color verbose : Bool) (rs : Results) :
    ((draft .junit color verbose timestamp rs).text.Within Xml.Legal ↔
      ∀ r ∈ rs.list, r.trial.suite ∈ JUnit.reached rs → r.trial.name.Within Xml.Legal ∧
        (r.verdict ≠ none → IsStorable (JUnit.output color verbose r))) ∧
    ('\x1b' ∈ (draft .junit color verbose timestamp rs).text ↔
      ∃ r ∈ rs.list, r.trial.suite ∈ JUnit.reached rs ∧ '\x1b' ∈ r.trial.name) ∧
    ((draft .junit color verbose timestamp rs).stop = none ↔ JUnit.reached rs = Suite.all) ∧
    ((∀ r ∈ rs.list, r.trial.name.Within Xml.Legal ∧ Details.Storable r) →
      (draft .junit color verbose timestamp rs).text.Within Xml.Legal) := by
  have hmem {c : Char} (hc : ¬ Xml.Legal c) :=
    JUnit.mem_text_draft_iff hc hstamp color verbose rs
  have hlegal : (draft .junit color verbose timestamp rs).text.Within Xml.Legal ↔
      ∀ r ∈ rs.list, r.trial.suite ∈ JUnit.reached rs → r.trial.name.Within Xml.Legal ∧
        (r.verdict ≠ none → IsStorable (JUnit.output color verbose r)) := by
    constructor
    · intro htext r hr hreached
      have hout {c : Char} (hc : ¬ Xml.Legal c)
          (h : c ∈ r.trial.name ∨ r.verdict ≠ none ∧ c ∈ JUnit.output color verbose r) : False :=
        hc (htext c ((hmem hc).mpr ⟨r, hr, hreached, h⟩))
      constructor
      · intro c hname
        by_contra hc
        exact hout hc (.inl hname)
      · intro hverdict
        apply (JUnit.within_output_iff color verbose r).mp
        intro c houtput
        by_contra hc
        exact hout hc (.inr ⟨hverdict, houtput⟩)
    · intro h c htext
      by_contra hc
      obtain ⟨r, hr, hreached, hfound⟩ := (hmem hc).mp htext
      obtain ⟨hname, houtput⟩ := h r hr hreached
      rcases hfound with hfound | ⟨hverdict, hfound⟩
      · exact hc (hname c hfound)
      · exact hc ((JUnit.within_output_iff color verbose r).mpr (houtput hverdict) c hfound)
  refine ⟨hlegal, ?_, JUnit.stop_draft_eq_none_iff color verbose timestamp rs, ?_⟩
  · have hescape : ¬ Xml.Legal '\x1b' := by decide
    refine (hmem hescape).trans (exists_congr fun r => and_congr_right fun _ => ?_)
    refine and_congr_right fun _ => or_iff_left ?_
    rintro ⟨-, hfound⟩
    exact JUnit.escape_not_mem_output color verbose r hfound
  · intro h
    refine hlegal.mpr fun r hr _ => ⟨(h r hr).1, fun _ => ?_⟩
    exact JUnit.isStorable_output (h r hr).2 color verbose

/-! ### Two reports -/

/-- A document can hold all results of this sample. -/
theorem legal_draft_junit_sample :
    Xml.IsValue JUnit.Sample.stamp ∧
      (draft .junit true true JUnit.Sample.stamp JUnit.Sample.results).text.Within Xml.Legal ∧
      '\x1b' ∉ (draft .junit true true JUnit.Sample.stamp JUnit.Sample.results).text := by
  have hstamp : Xml.IsValue JUnit.Sample.stamp := by decide +kernel
  have hstorable : ∀ r ∈ JUnit.Sample.results.list,
      r.trial.name.Within Xml.Legal ∧ Details.Storable r := by
    have hpresentable : JUnit.Presentable JUnit.Sample.results :=
      ⟨by decide +kernel, by decide +kernel, by decide +kernel, by decide +kernel⟩
    intro r hr
    have hname := hpresentable.names r hr
    exact ⟨fun c hc => (hname.clean c hc).1,
      ⟨.of_isValue hname, hpresentable.commands r hr, hpresentable.outputs r hr⟩⟩
  have hplain : ∀ r ∈ JUnit.Sample.results.list, '\x1b' ∉ r.trial.name := by decide +kernel
  obtain ⟨-, hescape, -, hlegal⟩ := legal_draft_junit hstamp true true JUnit.Sample.results
  refine ⟨hstamp, hlegal hstorable, fun h => ?_⟩
  obtain ⟨r, hr, -, hname⟩ := hescape.mp h
  exact hplain r hr hname

namespace Sample

/-- A trial whose name has a control in it. -/
def named : Results := ⟨[JUnit.Sample.ran .success "a\x1bb" [] .pass]⟩

/-- A trial for which the compiler wrote a character that no document can hold. -/
def noncharacter : Results := ⟨[JUnit.Sample.ran .error "a" ['\uFFFE'] .fail]⟩

end Sample

/-- A name can bring ESC into a report, and an output can make it illegal too. -/
theorem not_legal_draft_junit :
    ('\x1b' ∈ (draft .junit false false JUnit.Sample.stamp Sample.named).text ∧
        ¬ (draft .junit false false JUnit.Sample.stamp Sample.named).text.Within Xml.Legal) ∧
      ¬ (draft .junit false false JUnit.Sample.stamp Sample.noncharacter).text.Within
        Xml.Legal := by
  have hstamp : Xml.IsValue JUnit.Sample.stamp := by decide +kernel
  have hcontrol : ¬ Xml.Legal '\x1b' := by decide
  have hnoncharacter : ¬ Xml.Legal '\uFFFE' := by decide
  have hname : '\x1b' ∈ (draft .junit false false JUnit.Sample.stamp Sample.named).text := by
    refine (JUnit.mem_text_draft_iff hcontrol hstamp false false _).mpr ?_
    exact ⟨_, List.mem_singleton_self _, by decide +kernel, .inl (by decide)⟩
  have houtput : '\uFFFE' ∈
      (draft .junit false false JUnit.Sample.stamp Sample.noncharacter).text := by
    refine (JUnit.mem_text_draft_iff hnoncharacter hstamp false false _).mpr ?_
    exact ⟨_, List.mem_singleton_self _, by decide +kernel, .inr ⟨by decide, by decide +kernel⟩⟩
  exact ⟨⟨hname, fun h => hcontrol (h _ hname)⟩, fun h => hnoncharacter (h _ houtput)⟩

end Report

end CompilerTrials
