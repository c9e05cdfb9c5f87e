import CompilerTrials.Proofs.Terminals
import CompilerTrials.Proofs.Lines
import CompilerTrials.Proofs.Markup
import CompilerTrials.Report.Details

/-!
# The characters of details

Details hold what stands in names, command lines and the output of the compiler, and otherwise
printable ASCII, line feeds and, where there is colour, ESC. So a document can hold what is left of
them for a terminal to print, if it can hold those characters.

* `Details.within_ofResult`: what holds of all these characters holds of the characters of details.
* `Details.isStorable_ofResult`: no character of the details is one that no document can hold,
  controls apart.
* `Escape.clean_strip`: such a text can stand in a document once it is stripped.
-/

namespace CompilerTrials

/-- All characters of the text are such. -/
def Text.Within (p : Char → Prop) (t : Text) : Prop := ∀ c ∈ t, p c

instance (p : Char → Prop) [DecidablePred p] (t : Text) : Decidable (t.Within p) :=
  List.decidableBAll p t

namespace Text.Within

variable {p : Char → Prop} {t u : Text}

theorem append (h : Within p t) (h' : Within p u) : Within p (t ++ u) := by
  intro c hc
  rcases List.mem_append.mp hc with hc | hc
  · exact h c hc
  · exact h' c hc

theorem cons_iff {c : Char} : Within p (c :: t) ↔ p c ∧ Within p t := List.forall_mem_cons

theorem of_subset (h : Within p u) (hsub : ∀ c ∈ t, c ∈ u) : Within p t := fun c hc =>
  h c (hsub c hc)

theorem flatMap {α : Type} {as : List α} {f : α → Text} (h : ∀ a ∈ as, Within p (f a)) :
    Within p (as.flatMap f) := by
  intro c hc
  obtain ⟨a, ha, hmem⟩ := List.mem_flatMap.mp hc
  exact h a ha c hmem

theorem flatten {ts : List Text} (h : ∀ t ∈ ts, Within p t) : Within p ts.flatten := by
  intro c hc
  obtain ⟨t, ht, hmem⟩ := List.mem_flatten.mp hc
  exact h t ht c hmem

theorem intercalate {ts : List Text} (hsep : Within p u) (h : ∀ t ∈ ts, Within p t) :
    Within p (u.intercalate ts) := by
  induction ts with
  | nil => exact fun c hc => (nomatch hc)
  | cons t ts ih =>
    obtain ⟨ht, hrest⟩ := List.forall_mem_cons.mp h
    cases ts with
    | nil =>
      rw [List.intercalate_singleton]
      exact ht
    | cons t' ts =>
      rw [List.intercalate_cons_cons]
      exact (ht.append hsep).append (ih hrest)

end Text.Within

/-! ## Details -/

namespace Details

open Text (Within)

/-- Such are the characters that stand in details by themselves. -/
structure Admits (color : Bool) (p : Char → Prop) : Prop where
  printable : ∀ c : Char, 0x20 ≤ c.toNat ∧ c.toNat < 0x7F → p c
  newline : p '\n'
  escape : color = true → p '\x1b'

/-- Such are the characters of what the details show. -/
structure Shows (p : Char → Prop) (r : TrialResult) : Prop where
  name : Within p r.trial.qualifiedName
  command : ∀ i ∈ r.invocation, Within p i.render
  output : ∀ run ∈ r.run, Within p run.stdout ∧ Within p run.stderr

variable {p : Char → Prop} {color : Bool} {r : TrialResult} {c : Trial} {i : Invocation}
  {t contents label : Text}

namespace Admits

theorem literal (hp : Admits color p) (h : t.IsPrintable) : Within p t := fun c hc =>
  hp.printable c (h c hc)

theorem feed (hp : Admits color p) : Within p ['\n'] := fun c hc => by
  rw [List.mem_singleton.mp hc]
  exact hp.newline

/-! ### Styles -/

theorem reset (hp : Admits true p) : Within p Style.reset :=
  Within.cons_iff.mpr ⟨hp.escape rfl, hp.literal (by decide)⟩

theorem opening (hp : Admits true p) (s : Style) : Within p s.opening :=
  Within.cons_iff.mpr ⟨hp.escape rfl, hp.literal (t := '[' :: (Text.ofNat s.parameter ++ ['m']))
    (.append (t := ['[']) (by decide) (.append (.ofNat _) (by decide)))⟩

theorem reopen (hp : Admits true p) (s : Style) (h : Within p t) : Within p (s.reopen t) := by
  fun_induction Style.reopen s t with
  | case1 => exact h
  | case2 rest ih =>
    have hrest : Within p rest := h.of_subset (u := Style.reset ++ rest) fun c hc => by
      exact List.mem_append_right _ hc
    exact (hp.reset.append (hp.opening s)).append (ih hrest)
  | case3 c rest hne ih =>
    obtain ⟨hc, hrest⟩ := Within.cons_iff.mp h
    exact Within.cons_iff.mpr ⟨hc, ih hrest⟩

theorem paint (hp : Admits color p) (s : Style) (h : Within p t) : Within p (s.paint color t) := by
  cases color with
  | false => exact h
  | true => exact ((hp.opening s).append (hp.reopen s h)).append hp.reset

/-! ### Lines -/

/-- A line with a word in a style. -/
theorem line (hp : Admits color p) (s : Style) (h : t.IsPrintable) {u : Text}
    (h' : u.IsPrintable) : Within p (t ++ s.paint color u ++ ['\n']) :=
  ((hp.literal h).append (hp.paint s (hp.literal h'))).append hp.feed

/-- Blanks and line feeds are all that indentation adds. -/
theorem indent (hp : Admits color p) (width : Nat) (hne : t ≠ []) (h : Within p t) :
    Within p (t.indent width ++ ['\n']) := by
  rw [Text.indent_append_newline width hne]
  refine .flatMap fun l hl => .append ?_ hp.feed
  rcases Text.eq_nil_or_eq_indented hl with rfl | ⟨line, hline, rfl⟩
  · exact fun c hc => (nomatch hc)
  · refine .append (hp.literal fun c hc => ?_) (h.of_subset fun c hc =>
      Text.mem_of_mem_lines hline hc)
    rw [(List.mem_replicate.mp hc).2]
    decide

theorem header (hp : Admits color p) (h : Within p c.qualifiedName) :
    Within p (header color c) :=
  .append (.append (.append (.append (hp.literal (by decide)) (hp.paint _ (hp.literal (by decide))))
    (hp.literal (by decide))) (hp.paint _ h)) (hp.literal (by decide))

theorem command (hp : Admits color p) (h : Within p i.render) : Within p (command i) :=
  .append (.append (hp.literal (by decide)) h) hp.feed

theorem status (hp : Admits color p) (w : WaitStatus) : Within p (status color w) := by
  unfold Details.status
  split
  · exact hp.line _ (by decide) (.ofNat _)
  · exact hp.line _ (by decide) (.ofNat _)
  · exact hp.line _ (by decide) w.isPrintable_render

theorem captured (hp : Admits color p) (hlabel : label.IsPrintable) (h : Within p contents) :
    ∀ t ∈ captured color label contents, Within p t := by
  unfold Details.captured
  split
  · exact fun t ht => (nomatch ht)
  · next hne =>
    have hcontents : contents ≠ [] := by simpa using hne
    refine List.forall_mem_cons.mpr ⟨?_, List.forall_mem_singleton.mpr ?_⟩
    · exact hp.line _ (by decide) (.append (.append (by decide) hlabel) (by decide))
    · exact hp.indent captureWidth hcontents h

/-! ### Chunks -/

theorem commands (hp : Admits color p) (h : Shows p r) :
    ∀ t ∈ r.invocation.toList.map Details.command, Within p t := by
  intro t ht
  obtain ⟨i, hi, rfl⟩ := List.mem_map.mp ht
  exact hp.command (h.command i (Option.mem_toList.mp hi))

theorem statuses (hp : Admits color p) (run : Option CompilerRun) :
    ∀ t ∈ run.toList.map (fun run => Details.status color run.status), Within p t := by
  intro t ht
  obtain ⟨run, -, rfl⟩ := List.mem_map.mp ht
  exact hp.status run.status

theorem outputs (hp : Admits color p) (h : Shows p r) :
    ∀ t ∈ r.run.toList.flatMap (fun run => Details.captured color "stdout".toList run.stdout ++
      Details.captured color "stderr".toList run.stderr), Within p t := by
  intro t ht
  obtain ⟨run, hrun, hmem⟩ := List.mem_flatMap.mp ht
  obtain ⟨hstdout, hstderr⟩ := h.output run (Option.mem_toList.mp hrun)
  rcases List.mem_append.mp hmem with ht | ht
  · exact hp.captured (by decide) hstdout t ht
  · exact hp.captured (by decide) hstderr t ht

theorem ofPassed (hp : Admits color p) (h : Shows p r) (verbose : Bool) :
    ∀ t ∈ ofPassed color verbose r, Within p t := by
  unfold Details.ofPassed
  refine List.forall_mem_cons.mpr ⟨.append (hp.paint _ (hp.literal (by decide))) hp.feed, ?_⟩
  cases verbose with
  | false => exact fun t ht => (nomatch ht)
  | true => exact hp.commands h

theorem ofFailed (hp : Admits color p) (h : Shows p r) :
    ∀ t ∈ ofFailed color r, Within p t := by
  have hexpectation : r.trial.expectation.render.IsPrintable := by
    cases r.trial.expectation <;> decide
  have hreason : ∀ t ∈ [['\n'], "    expected ".toList ++
      Style.cyan.paint color r.trial.expectation.render ++ ['\n']], Within p t :=
    List.forall_mem_cons.mpr ⟨hp.feed, List.forall_mem_singleton.mpr
      (hp.line _ (by decide) hexpectation)⟩
  have hending : ∀ t ∈ ["    ".toList ++ Style.brightRed.paint color "FAILED.".toList ++ ['\n']],
      Within p t := List.forall_mem_singleton.mpr (hp.line _ (by decide) (by decide))
  have hstatus := List.forall_mem_append.mpr ⟨hreason, hp.statuses r.run⟩
  have hcommand := List.forall_mem_append.mpr ⟨hstatus, hp.commands h⟩
  have houtput := List.forall_mem_append.mpr ⟨hcommand, hp.outputs h⟩
  exact List.forall_mem_append.mpr ⟨houtput, hending⟩

end Admits

/-- The characters of details are such, if those are that the details show. -/
theorem within_ofResult (hp : Admits color p) (h : Shows p r) (verbose : Bool) :
    Within p (ofResult color verbose r).flatten := by
  have hheader := hp.header h.name
  refine .flatten ?_
  unfold ofResult
  split
  · exact fun t ht => (nomatch ht)
  · exact List.forall_mem_cons.mpr ⟨hheader, hp.ofPassed h verbose⟩
  · exact List.forall_mem_cons.mpr ⟨hheader, hp.ofFailed h⟩

end Details

/-! ## Details in documents -/

/-- No character of the text is one that no document can hold, controls apart. -/
def IsStorable (t : Text) : Prop := ∀ c ∈ t, c.toNat ≠ 0xFFFE ∧ c.toNat ≠ 0xFFFF

instance (t : Text) : Decidable (IsStorable t) := List.decidableBAll _ t

theorem IsStorable.of_isValue {t : Text} (h : Xml.IsValue t) : IsStorable t := fun c hc =>
  (h c hc).2

namespace Details

variable {r : TrialResult}

/-- What the details show is what a document can hold, controls apart. -/
structure Storable (r : TrialResult) : Prop where
  name : IsStorable r.trial.name
  command : ∀ i ∈ r.invocation, ∀ p ∈ i.vector, IsStorable (Path.display p)
  output : ∀ run ∈ r.run, IsStorable run.stdout ∧ IsStorable run.stderr

theorem isStorable_ofResult (h : Storable r) (color verbose : Bool) :
    IsStorable (ofResult color verbose r).flatten := by
  have hadmits : Admits color fun c => c.toNat ≠ 0xFFFE ∧ c.toNat ≠ 0xFFFF :=
    ⟨fun c hc => ⟨by omega, by omega⟩, by decide, fun _ => by decide⟩
  have hsuite : IsStorable r.trial.suite.name := by cases r.trial.suite <;> decide
  have hshows : Shows (fun c => c.toNat ≠ 0xFFFE ∧ c.toNat ≠ 0xFFFF) r := by
    refine ⟨?_, fun i hi => ?_, h.output⟩
    · exact Text.Within.append (.append hsuite (hadmits.literal (by decide))) h.name
    · refine .intercalate (hadmits.literal (by decide)) fun t ht => ?_
      obtain ⟨p, hp, rfl⟩ := List.mem_map.mp ht
      exact h.command i hi p hp
  exact within_ofResult hadmits hshows verbose

end Details

/-- What is left of such a text for a terminal to print can stand in a document. -/
theorem Escape.clean_strip {t : Text} (h : IsStorable t) : Xml.Clean (strip t) := by
  intro c hc
  obtain ⟨hmem, hprint⟩ := mem_strip hc
  have hhigh : c.toNat ≠ 0xFFFE ∧ c.toNat ≠ 0xFFFF := by
    rcases hmem with hmem | rfl
    · exact h c hmem
    · decide +kernel
  by_cases hfeed : c = '\n'
  · subst hfeed
    decide
  · have hlow : 0x20 ≤ c.toNat := by
      refine Nat.le_of_not_lt fun hcontrol => ?_
      rw [print, if_neg hfeed, if_pos (.inl hcontrol)] at hprint
      cases hprint
    exact Xml.clean_of_value hlow hhigh

end CompilerTrials
