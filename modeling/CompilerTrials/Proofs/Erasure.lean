import CompilerTrials.Proofs.Counts
import CompilerTrials.Proofs.Pieces
import CompilerTrials.Proofs.Totals
import Mathlib.Data.List.TakeWhile

/-!
# Colour in reports for people

A report with colour is the one without, where some words stand between the sequence that switches a
style on and the one that resets all styles. So nothing but colour is lost with the sequences, and no
style is left on.

* `Style.sequence?`: the sequence that sets styles with which a text begins, if it begins with one.
* `Style.tokens`: a text as such sequences and other characters. `Style.erase` keeps the characters,
  `Style.sequences` the sequences.
* `Dyed`: a text with words in styles, and the text without the styles.
* `Dyed.erase_eq`, `Dyed.sequences_eq`: what is left without the sequences, and which they are.
* `Details.dyed_ofResult`, `Pretty.dyed_details`, `Summary.dyed_counts`: the parts of a report.
* `Report.erase_draft`: reports for people with colour and without, and the sequences of the former.
-/

namespace CompilerTrials

variable {t u q : Text}

/-! ## Sequences that set styles -/

namespace Style

/-- The parameters of such a sequence are digits and semicolons. -/
def isParameter (c : Char) : Bool := c.isDigit || c = ';'

def sequence (parameters : Text) : Text := ['\x1b', '['] ++ parameters ++ ['m']

/-- The sequence with which the text begins. -/
def sequence? : Text → Option Text
  | '\x1b' :: '[' :: rest =>
    if (rest.dropWhile isParameter).head? = some 'm' then
      some (sequence (rest.takeWhile isParameter))
    else none
  | _ => none

def IsSequence (q : Text) : Prop :=
  ∃ parameters, parameters.all isParameter = true ∧ q = sequence parameters

theorem sequence?_eq_some_iff : sequence? t = some q ↔ IsSequence q ∧ ∃ rest, t = q ++ rest := by
  constructor
  · intro h
    unfold sequence? at h
    split at h
    · next rest =>
      split at h
      · next hend =>
        obtain rfl := Option.some.inj h
        obtain ⟨tail, htail⟩ := List.head?_eq_some_iff.mp hend
        refine ⟨⟨_, List.all_eq_true.mpr fun c hc => List.mem_takeWhile_imp hc, rfl⟩, tail, ?_⟩
        have hrest : rest = rest.takeWhile isParameter ++ 'm' :: tail := by
          rw [← htail, List.takeWhile_append_dropWhile]
        generalize rest.takeWhile isParameter = parameters at hrest
        rw [hrest]
        simp [sequence]
      · cases h
    · cases h
  · rintro ⟨⟨parameters, hparameters, rfl⟩, rest, rfl⟩
    have hend : isParameter 'm' = false := by decide
    rw [List.all_eq_true] at hparameters
    have htake : (parameters ++ 'm' :: rest).takeWhile isParameter = parameters := by
      rw [List.takeWhile_append_of_pos hparameters, List.takeWhile_cons_of_neg (by simp [hend]),
        List.append_nil]
    have hdrop : (parameters ++ 'm' :: rest).dropWhile isParameter = 'm' :: rest := by
      rw [List.dropWhile_append_of_pos hparameters, List.dropWhile_cons_of_neg (by simp [hend])]
    have htext : sequence parameters ++ rest = '\x1b' :: '[' :: (parameters ++ 'm' :: rest) := by
      simp [sequence]
    rw [htext, sequence?, htake, hdrop]
    rfl

/-- A part of a text: a sequence, or a character that belongs to none. -/
inductive Token where
  | char (c : Char)
  | sequence (q : Text)
deriving DecidableEq, Repr

/-- The tokens of a text behind its first `skip` characters. -/
def tokensFrom : Nat → Text → List Token
  | _, [] => []
  | skip + 1, _ :: rest => tokensFrom skip rest
  | 0, c :: rest =>
    match sequence? (c :: rest) with
    | some q => .sequence q :: tokensFrom (q.length - 1) rest
    | none => .char c :: tokensFrom 0 rest

def tokens (t : Text) : List Token := tokensFrom 0 t

/-- The text without its sequences. -/
def erase (t : Text) : Text :=
  (tokens t).filterMap fun
    | .char c => some c
    | .sequence _ => none

def sequences (t : Text) : List Text :=
  (tokens t).filterMap fun
    | .char _ => none
    | .sequence q => some q

theorem tokensFrom_length (t rest : Text) : tokensFrom t.length (t ++ rest) = tokens rest := by
  induction t with
  | nil => rfl
  | cons c t ih => exact ih

/-- Only ESC begins a sequence. -/
theorem tokens_append_of_plain (h : '\x1b' ∉ t) (rest : Text) :
    tokens (t ++ rest) = t.map .char ++ tokens rest := by
  induction t with
  | nil => rfl
  | cons c t ih =>
    have hnone : sequence? (c :: (t ++ rest)) = none := by
      unfold sequence?
      split
      · next heq => exact absurd (List.cons.inj heq).1.symm (List.ne_of_not_mem_cons h)
      · rfl
    show tokensFrom 0 (c :: (t ++ rest)) = _
    rw [tokensFrom, hnone]
    exact congrArg (Token.char c :: ·) (ih (List.not_mem_of_not_mem_cons h))

theorem tokens_sequence_append (h : IsSequence q) (rest : Text) :
    tokens (q ++ rest) = .sequence q :: tokens rest := by
  have hsome : sequence? (q ++ rest) = some q := sequence?_eq_some_iff.mpr ⟨h, rest, rfl⟩
  obtain ⟨parameters, -, hq⟩ := h
  obtain ⟨tail, rfl⟩ : ∃ tail, q = '\x1b' :: tail := ⟨_, hq⟩
  show tokensFrom 0 ('\x1b' :: (tail ++ rest)) = _
  rw [tokensFrom, ← List.cons_append, hsome]
  exact congrArg (Token.sequence ('\x1b' :: tail) :: ·) (tokensFrom_length tail rest)

theorem erase_append_of_plain (h : '\x1b' ∉ t) (rest : Text) :
    erase (t ++ rest) = t ++ erase rest := by
  unfold erase
  rw [tokens_append_of_plain h, List.filterMap_append, List.filterMap_map]
  exact congrArg (· ++ _) List.filterMap_some

theorem sequences_append_of_plain (h : '\x1b' ∉ t) (rest : Text) :
    sequences (t ++ rest) = sequences rest := by
  unfold sequences
  rw [tokens_append_of_plain h, List.filterMap_append, List.filterMap_map]
  exact congrArg (· ++ _) (List.filterMap_eq_nil_iff.mpr fun _ _ => rfl)

theorem erase_sequence_append (h : IsSequence q) (rest : Text) :
    erase (q ++ rest) = erase rest := by
  unfold erase
  rw [tokens_sequence_append h]
  rfl

theorem sequences_sequence_append (h : IsSequence q) (rest : Text) :
    sequences (q ++ rest) = q :: sequences rest := by
  unfold sequences
  rw [tokens_sequence_append h]
  rfl

/-- Sequences with other orders stay. -/
example : erase "\x1b[1;31ma\x1b[mb\x1b[2K".toList = "ab\x1b[2K".toList := by decide

theorem isSequence_opening (s : Style) : IsSequence s.opening :=
  ⟨Text.ofNat s.parameter, by cases s <;> decide, rfl⟩

theorem isSequence_reset : IsSequence reset := ⟨['0'], by decide, rfl⟩

/-- A text without sequences has no reset after which a style is to be switched on again. -/
theorem reopen_of_plain (s : Style) (h : '\x1b' ∉ t) : s.reopen t = t := by
  fun_induction reopen s t with
  | case1 => rfl
  | case2 => exact absurd List.mem_cons_self h
  | case3 c rest _ ih => exact congrArg (c :: ·) (ih (List.not_mem_of_not_mem_cons h))

end Style

/-! ## Words in styles -/

open Style (erase sequences)

/-- A text with words in styles, and the text without the styles. -/
inductive Dyed : Text → Text → Prop
  | nil : Dyed [] []
  | plain {t colored bare : Text} (h : '\x1b' ∉ t) (hrest : Dyed colored bare) :
      Dyed (t ++ colored) (t ++ bare)
  | word (s : Style) {t colored bare : Text} (h : '\x1b' ∉ t) (hrest : Dyed colored bare) :
      Dyed (s.opening ++ (t ++ (Style.reset ++ colored))) (t ++ bare)

/-- The sequences of words in these styles. -/
def Style.pairs (styles : List Style) : List Text := styles.flatMap fun s => [s.opening, reset]

/-- After each sequence that switches a style on comes a reset. -/
theorem Style.reset_of_pairs {styles : List Style} {before after : List Text} {q : Text}
    (h : pairs styles = before ++ q :: after) (hq : q ≠ reset) :
    ∃ later, after = reset :: later := by
  induction styles generalizing before with
  | nil => cases before <;> cases h
  | cons s styles ih =>
    have hpairs : pairs (s :: styles) = s.opening :: reset :: pairs styles := rfl
    rw [hpairs] at h
    match before with
    | [] => exact ⟨_, (List.cons.inj h).2.symm⟩
    | [_] => exact absurd (List.cons.inj (List.cons.inj h).2).1.symm hq
    | _ :: _ :: before => exact ih (List.cons.inj (List.cons.inj h).2).2

namespace Dyed

variable {colored colored' bare bare' : Text}

/-- Without its sequences the one text is the other. -/
theorem erase_eq (h : Dyed colored bare) : erase colored = bare := by
  induction h with
  | nil => rfl
  | plain h _ ih => rw [Style.erase_append_of_plain h, ih]
  | word s h _ ih =>
    rw [Style.erase_sequence_append s.isSequence_opening, Style.erase_append_of_plain h,
      Style.erase_sequence_append Style.isSequence_reset, ih]

/-- The sequences switch one style on after the other, and each is reset at once. -/
theorem sequences_eq (h : Dyed colored bare) :
    ∃ styles, sequences colored = Style.pairs styles := by
  induction h with
  | nil => exact ⟨[], rfl⟩
  | plain h _ ih =>
    obtain ⟨styles, hstyles⟩ := ih
    exact ⟨styles, (Style.sequences_append_of_plain h _).trans hstyles⟩
  | word s h _ ih =>
    obtain ⟨styles, hstyles⟩ := ih
    refine ⟨s :: styles, ?_⟩
    rw [Style.sequences_sequence_append s.isSequence_opening, Style.sequences_append_of_plain h,
      Style.sequences_sequence_append Style.isSequence_reset, hstyles]
    rfl

theorem of_plain (h : '\x1b' ∉ t) : Dyed t t := by
  have hdyed := Dyed.plain h .nil
  rw [List.append_nil] at hdyed
  exact hdyed

theorem of_within (h : t.Within (· ≠ '\x1b')) : Dyed t t := of_plain fun hmem => h _ hmem rfl

theorem paint (s : Style) (h : '\x1b' ∉ t) : Dyed (s.paint true t) (s.paint false t) := by
  have hdyed := Dyed.word s h .nil
  rw [List.append_nil, List.append_nil] at hdyed
  show Dyed (s.opening ++ s.reopen t ++ Style.reset) t
  rw [Style.reopen_of_plain s h, List.append_assoc]
  exact hdyed

theorem append (h : Dyed colored bare) (h' : Dyed colored' bare') :
    Dyed (colored ++ colored') (bare ++ bare') := by
  induction h with
  | nil => exact h'
  | plain h _ ih =>
    rw [List.append_assoc, List.append_assoc]
    exact .plain h ih
  | word s h _ ih =>
    simp only [List.append_assoc]
    exact .word s h ih

/-- Chunks for one thing after the other. -/
theorem flatMap {α : Type} {l : List α} {f g : α → List Text}
    (h : ∀ a ∈ l, Dyed (f a).flatten (g a).flatten) :
    Dyed (l.flatMap f).flatten (l.flatMap g).flatten := by
  induction l with
  | nil => exact .nil
  | cons a l ih =>
    obtain ⟨ha, hrest⟩ := List.forall_mem_cons.mp h
    rw [List.flatMap_cons, List.flatMap_cons, List.flatten_append, List.flatten_append]
    exact ha.append (ih hrest)

/-- A line with a word in a style. -/
theorem line (s : Style) (ht : '\x1b' ∉ t) (hu : '\x1b' ∉ u) :
    Dyed (t ++ s.paint true u ++ ['\n']) (t ++ s.paint false u ++ ['\n']) :=
  ((of_plain ht).append (paint s hu)).append (of_plain (by decide))

/-- Two words in styles, among others. -/
theorem words (s s' : Style) {word word' before between after : Text} (hbefore : '\x1b' ∉ before)
    (hword : '\x1b' ∉ word) (hbetween : '\x1b' ∉ between) (hword' : '\x1b' ∉ word')
    (hafter : '\x1b' ∉ after) :
    Dyed (before ++ s.paint true word ++ between ++ s'.paint true word' ++ after)
      (before ++ s.paint false word ++ between ++ s'.paint false word' ++ after) :=
  ((((of_plain hbefore).append (paint s hword)).append (of_plain hbetween)).append
    (paint s' hword')).append (of_plain hafter)

end Dyed

/-! ## Details -/

namespace Details

variable {r : TrialResult} {c : Trial} {label contents : Text}

theorem admits_unescaped : Admits false (· ≠ '\x1b') where
  printable c hc := by
    rintro rfl
    revert hc
    decide
  newline := by decide
  escape h := nomatch h

theorem dyed_header (h : c.qualifiedName.Within (· ≠ '\x1b')) :
    Dyed (header true c) (header false c) := by
  have hname : '\x1b' ∉ c.qualifiedName := fun hmem => h _ hmem rfl
  exact .words _ _ (by decide) (by decide) (by decide) hname (by decide)

theorem dyed_status (w : WaitStatus) : Dyed (status true w) (status false w) := by
  unfold status
  split
  · exact .line _ (by decide) (Text.IsPrintable.ofNat _).escape_not_mem
  · exact .line _ (by decide) (Text.IsPrintable.ofNat _).escape_not_mem
  · exact .line _ (by decide) w.isPrintable_render.escape_not_mem

theorem dyed_captured (hlabel : label.IsPrintable) (h : contents.Within (· ≠ '\x1b')) :
    Dyed (captured true label contents).flatten (captured false label contents).flatten := by
  have hheading : Text.IsPrintable ("------ Compiler: ".toList ++ label ++
      " ---------------------------------".toList) := .append (.append (by decide) hlabel) (by decide)
  unfold captured
  split
  · exact .nil
  · next hne =>
    have hcontents : contents ≠ [] := by simpa using hne
    have hline := Dyed.line .cyan (t := "          ".toList) (by decide) hheading.escape_not_mem
    have hblock := Dyed.of_within (admits_unescaped.indent captureWidth hcontents h)
    exact hline.append (hblock.append .nil)

theorem dyed_commands (h : Shows (· ≠ '\x1b') r) :
    Dyed (r.invocation.toList.map command).flatten (r.invocation.toList.map command).flatten :=
  .of_within (.flatten (admits_unescaped.commands h))

theorem dyed_ofPassed (h : Shows (· ≠ '\x1b') r) (verbose : Bool) :
    Dyed (ofPassed true verbose r).flatten (ofPassed false verbose r).flatten := by
  have hok := Dyed.line .brightGreen (t := []) (u := "ok.".toList) (by decide) (by decide)
  refine hok.append ?_
  cases verbose with
  | false => exact .nil
  | true => exact dyed_commands h

theorem dyed_statuses (run : Option CompilerRun) :
    Dyed (run.toList.map fun run => status true run.status).flatten
      (run.toList.map fun run => status false run.status).flatten := by
  rw [List.map_eq_flatMap, List.map_eq_flatMap]
  exact .flatMap fun run _ => (dyed_status run.status).append .nil

theorem dyed_outputs (h : Shows (· ≠ '\x1b') r) :
    Dyed (r.run.toList.flatMap fun run => captured true "stdout".toList run.stdout ++
        captured true "stderr".toList run.stderr).flatten
      (r.run.toList.flatMap fun run => captured false "stdout".toList run.stdout ++
        captured false "stderr".toList run.stderr).flatten := by
  apply Dyed.flatMap
  intro run hrun
  obtain ⟨hstdout, hstderr⟩ := h.output run (Option.mem_toList.mp hrun)
  rw [List.flatten_append, List.flatten_append]
  exact (dyed_captured (by decide) hstdout).append (dyed_captured (by decide) hstderr)

theorem dyed_ofFailed (h : Shows (· ≠ '\x1b') r) :
    Dyed (ofFailed true r).flatten (ofFailed false r).flatten := by
  have hexpectation : '\x1b' ∉ r.trial.expectation.render := by
    cases r.trial.expectation <;> decide
  have hfeed : Dyed ['\n'] ['\n'] := .of_plain (by decide)
  have hexpected := Dyed.line .cyan (t := "    expected ".toList) (by decide) hexpectation
  have hend := Dyed.line .brightRed (t := "    ".toList) (u := "FAILED.".toList) (by decide)
    (by decide)
  simp only [ofFailed, List.flatten_append, List.flatten_cons, List.flatten_nil, List.append_nil]
  exact ((((hfeed.append hexpected).append (dyed_statuses r.run)).append (dyed_commands h)).append
    (dyed_outputs h)).append hend

theorem dyed_ofResult (h : Shows (· ≠ '\x1b') r) (verbose : Bool) :
    Dyed (ofResult true verbose r).flatten (ofResult false verbose r).flatten := by
  have hheader := dyed_header h.name
  unfold ofResult
  split
  · exact .nil
  · exact hheader.append (dyed_ofPassed h verbose)
  · exact hheader.append (dyed_ofFailed h)

end Details

/-! ## Reports -/

variable {rs : Results}

namespace Pretty

theorem dyed_heading (s : Suite) : Dyed (heading true s) (heading false s) := by
  have hname : '\x1b' ∉ s.name := by cases s <;> decide
  exact .words _ _ (by decide) (by decide) (by decide) hname (by decide)

theorem dyed_details (h : ∀ r ∈ rs.list, Details.Shows (· ≠ '\x1b') r) (verbose : Bool) :
    Dyed (details true verbose rs).flatten (details false verbose rs).flatten := by
  unfold details
  apply Dyed.flatMap
  intro s _
  have hheading : Dyed (if verbose then [heading true s] else []).flatten
      (if verbose then [heading false s] else []).flatten := by
    cases verbose with
    | false => exact .nil
    | true => exact (dyed_heading s).append .nil
  unfold ofSuite
  rw [List.flatten_append, List.flatten_append]
  refine hheading.append (.flatMap fun r hr => ?_)
  exact Details.dyed_ofResult (h r (List.mem_filter.mp hr).1) verbose

end Pretty

namespace Summary

theorem dyed_counts (rs : Results) : Dyed (counts true rs) (counts false rs) := by
  have hnumber (s : Style) (n : Nat) :=
    Dyed.paint s (Text.IsPrintable.ofNat n).escape_not_mem
  have hran : Dyed (Text.ofNat rs.attempted ++ " test case(s) ran: ".toList)
      (Text.ofNat rs.attempted ++ " test case(s) ran: ".toList) :=
    .of_plain (Text.IsPrintable.append (.ofNat _) (by decide)).escape_not_mem
  have hpassed : Dyed " succeeded, ".toList " succeeded, ".toList := .of_plain (by decide)
  have hfailed : Dyed " failed, ".toList " failed, ".toList := .of_plain (by decide)
  have hskipped : Dyed " skipped.\n".toList " skipped.\n".toList := .of_plain (by decide)
  exact (((((hran.append (hnumber _ _)).append hpassed).append (hnumber _ _)).append
    hfailed).append (hnumber _ _)).append hskipped

theorem dyed_draft (rs : Results) : Dyed (draft true rs).text (draft false rs).text := by
  have hbar : Dyed bar bar := .of_plain (by decide)
  have hcounts := dyed_counts rs
  unfold draft
  split
  · next d _ =>
    have hrender : '\x1b' ∉ d.render := Duration.not_mem_render (by decide) d
    have htime : Dyed (time d) (time d) :=
      .of_plain (List.not_mem_append (List.not_mem_append (by decide) hrender) (by decide))
    exact hbar.append (hcounts.append (htime.append (hbar.append .nil)))
  · exact hbar.append (hcounts.append .nil)

end Summary

namespace Report

variable {format : ReportFormat}

theorem dyed_draft (hformat : format ≠ .junit)
    (h : ∀ r ∈ rs.list, Details.Shows (· ≠ '\x1b') r) (verbose : Bool) (timestamp : Text) :
    Dyed (draft format true verbose timestamp rs).text
      (draft format false verbose timestamp rs).text := by
  cases format with
  | pretty =>
    show Dyed (Pretty.details true verbose rs ++ (Summary.draft true rs).chunks).flatten
      (Pretty.details false verbose rs ++ (Summary.draft false rs).chunks).flatten
    rw [List.flatten_append, List.flatten_append]
    exact (Pretty.dyed_details h verbose).append (Summary.dyed_draft rs)
  | junit => exact absurd rfl hformat
  | terse => exact Summary.dyed_draft rs

theorem write_of_lt (hformat : format ≠ .junit)
    (hlt : rs.runNanos < 18446744073709551616 * 1000000000) (color verbose : Bool)
    (timestamp : Text) : (draft format color verbose timestamp rs).write .working =
      ((draft format color verbose timestamp rs).text, .ok ()) := by
  obtain ⟨d, hd, -⟩ := rs.checked_total?.exists_of_lt hlt
  have houtcome := outcome_summarised hformat color verbose timestamp rs
  rw [hd] at houtcome
  exact Prod.ext rfl houtcome

/-- Where neither a name nor a command line nor an output holds ESC, a report for people with colour
is the one without once its sequences are taken out, and it stops where that one stops; if the total
can be held, both are written to their end. The sequences of the coloured report switch a style on
and reset it, in turn, so after each that is no reset comes one. -/
theorem erase_draft (hformat : format ≠ .junit)
    (h : ∀ r ∈ rs.list, Details.Shows (· ≠ '\x1b') r) (verbose : Bool) (timestamp : Text) :
    let colored := draft format true verbose timestamp rs
    let bare := draft format false verbose timestamp rs
    Style.erase colored.text = bare.text ∧
    colored.stop = bare.stop ∧
    (rs.runNanos < 18446744073709551616 * 1000000000 →
      colored.write .working = (colored.text, .ok ()) ∧
        bare.write .working = (bare.text, .ok ())) ∧
    (∃ styles : List Style,
      Style.sequences colored.text = styles.flatMap fun s => [s.opening, Style.reset]) ∧
    ∀ before q after, Style.sequences colored.text = before ++ q :: after → q ≠ Style.reset →
      ∃ later, after = Style.reset :: later := by
  intro colored bare
  have hdyed : Dyed colored.text bare.text := dyed_draft hformat h verbose timestamp
  obtain ⟨styles, hstyles⟩ := hdyed.sequences_eq
  refine ⟨hdyed.erase_eq, ?_, ?_, ⟨styles, hstyles⟩, ?_⟩
  · rw [stop_summarised hformat, stop_summarised hformat, Summary.stop_eq, Summary.stop_eq]
  · intro hlt
    exact ⟨write_of_lt hformat hlt true verbose timestamp,
      write_of_lt hformat hlt false verbose timestamp⟩
  · intro before q after hsplit hq
    rw [hstyles] at hsplit
    exact Style.reset_of_pairs hsplit hq

namespace Sample

/-- A trial that passed, one that was left out, and one that failed after it wrote some lines. -/
def mixed : Results :=
  ⟨[JUnit.Sample.ran .success "a" [] .pass, .skipped ⟨"b".toList, .success, [], .singleFile⟩,
    JUnit.Sample.ran .error "c" "x\n\n y".toList .fail]⟩

end Sample

/-- Both reports on these trials, and the colours of the shorter one. -/
theorem erase_draft_sample :
    (∀ r ∈ Sample.mixed.list, Details.Shows (· ≠ '\x1b') r) ∧
      Style.erase (draft .pretty true true [] Sample.mixed).text =
        (draft .pretty false true [] Sample.mixed).text ∧
      Style.erase (draft .terse true false [] Sample.mixed).text =
        (draft .terse false false [] Sample.mixed).text ∧
      Style.sequences (draft .terse true false [] Sample.mixed).text =
        [.green, .red, .cyan].flatMap fun s : Style => [s.opening, Style.reset] := by
  have hshows : ∀ r ∈ Sample.mixed.list, Details.Shows (· ≠ '\x1b') r := by
    refine List.forall_mem_cons.mpr ⟨?_, List.forall_mem_cons.mpr ⟨?_,
      List.forall_mem_singleton.mpr ?_⟩⟩
    · exact ⟨by decide, by decide +kernel, by decide⟩
    · exact ⟨by decide, by decide, by decide⟩
    · exact ⟨by decide, by decide +kernel, by decide⟩
  have hprettyFormat : ReportFormat.pretty ≠ .junit := by decide
  have hterseFormat : ReportFormat.terse ≠ .junit := by decide
  obtain ⟨hpretty, -⟩ := erase_draft hprettyFormat hshows true []
  obtain ⟨hterse, -⟩ := erase_draft hterseFormat hshows false []
  exact ⟨hshows, hpretty, hterse, by decide +kernel⟩

end Report

end CompilerTrials
