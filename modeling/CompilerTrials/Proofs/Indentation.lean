import CompilerTrials.Proofs.Lines
import CompilerTrials.Report.Details
import Mathlib.Data.List.Basic

/-!
# Indented texts

What the compiler wrote is moved to the right in the details. Blank lines stay blank there, and a
line feed at the end stays where it is; still nothing is lost but a carriage return before a line
feed, since the pieces between line feeds are as many as before, and each can be moved back alone.

* `Text.indent_unlines_append`: what indentation does to each line of a text.
* `Text.outdent`: a text moved back to the left.
* `Text.outdent_indent`: a text that was moved to the right and back.
* `Details.captured_keeps_contents`: what the compiler wrote and what stands in the details.
-/

namespace CompilerTrials

namespace Text

variable {width : Nat} {t u last : Text} {ls : List Text}

/-! ## Lines moved to the right -/

theorem newline_not_mem_indentLine (h : '\n' ∉ t) : '\n' ∉ indentLine width t := by
  unfold indentLine
  split
  · simp
  · simp [h]

theorem drop_indentLine (width : Nat) (line : Text) : (indentLine width line).drop width = line := by
  unfold indentLine
  split
  · next hblank => rw [List.isEmpty_iff.mp hblank, List.drop_nil]
  · exact List.drop_left' List.length_replicate

theorem getLast?_unlines (h : ls ≠ []) : (unlines ls).getLast? = some '\n' := by
  rw [← intercalate_append_newline h, List.getLast?_concat]

/-- Every line is moved by itself, and no line feed is moved. -/
theorem indent_unlines_append (width : Nat) (h : ∀ l ∈ ls, '\n' ∉ l) (hlast : '\n' ∉ last) :
    (unlines ls ++ last).indent width =
      unlines (ls.map fun l => indentLine width (dropReturn l)) ++ indentLine width last := by
  rw [indent, lines_unlines_append h hlast]
  -- whether a line feed ends the text decides if the last piece counts as a line
  cases last with
  | nil =>
    by_cases hls : ls = []
    · subst hls
      rfl
    · have hfeed : (unlines ls ++ []).getLast? = some '\n' := by
        rw [List.append_nil, getLast?_unlines hls]
      rw [if_pos hfeed, List.isEmpty_nil, if_pos rfl, List.append_nil,
        intercalate_append_newline (by simpa using hls), List.map_map]
      exact (List.append_nil _).symm
  | cons c cs =>
    have hfeed : (unlines ls ++ c :: cs).getLast? ≠ some '\n' := by
      rw [List.getLast?_append_of_ne_nil _ (List.cons_ne_nil c cs)]
      exact fun hmem => hlast (List.mem_of_getLast? hmem)
    rw [if_neg hfeed, List.isEmpty_cons, if_neg Bool.false_ne_true, List.append_nil,
      List.map_append, List.map_map, List.map_singleton, intercalate_concat]
    rfl

/-! ## Lines moved back -/

/-- The text with every line moved left by `width` columns. -/
def outdent (width : Nat) (t : Text) : Text :=
  ['\n'].intercalate ((t.splitOn '\n').map (List.drop width))

/-- A text that was moved to the right and back has lost the carriage returns before line feeds. -/
theorem outdent_indent_unlines_append (width : Nat) (h : ∀ l ∈ ls, '\n' ∉ l)
    (hlast : '\n' ∉ last) :
    ((unlines ls ++ last).indent width).outdent width =
      unlines (ls.map dropReturn) ++ last := by
  have hmoved : ∀ m ∈ ls.map fun l => indentLine width (dropReturn l), '\n' ∉ m := by
    intro m hm
    obtain ⟨l, hl, rfl⟩ := List.mem_map.mp hm
    exact newline_not_mem_indentLine fun hmem => h l hl (mem_of_mem_dropReturn hmem)
  have hback : (ls.map fun l => indentLine width (dropReturn l)).map (List.drop width) =
      ls.map dropReturn := by
    rw [List.map_map]
    exact List.map_congr_left fun l _ => drop_indentLine width (dropReturn l)
  rw [indent_unlines_append width h hlast, outdent,
    splitOn_unlines_append hmoved (newline_not_mem_indentLine hlast), List.map_append, hback,
    List.map_singleton, drop_indentLine, intercalate_concat]

theorem outdent_indent (width : Nat) (h : '\r' ∉ t) : (t.indent width).outdent width = t := by
  obtain ⟨ls, last, rfl, hls, hlast⟩ := exists_eq_unlines_append t
  have hreturn : ∀ l ∈ ls, '\r' ∉ l := by
    intro l hl hmem
    refine h (List.mem_append_left _ ?_)
    exact List.mem_flatMap.mpr ⟨l, hl, List.mem_append_left _ hmem⟩
  have hreturns : ls.map dropReturn = ls := by
    calc ls.map dropReturn = ls.map id :=
          List.map_congr_left fun l hl => dropReturn_eq_self (hreturn l hl)
      _ = ls := List.map_id ls
  rw [outdent_indent_unlines_append width hls hlast, hreturns]

theorem indent_inj (ht : '\r' ∉ t) (hu : '\r' ∉ u) :
    t.indent width = u.indent width ↔ t = u := by
  constructor
  · intro h
    rw [← outdent_indent width ht, h, outdent_indent width hu]
  · exact congrArg (indent width)

/-- The lines of an indented text that are not blank begin with the indentation. -/
theorem replicate_prefix_of_mem_splitOn {l : Text} (ht : t ≠ [])
    (h : l ∈ (t.indent width ++ ['\n']).splitOn '\n') (hl : l ≠ []) :
    List.replicate width ' ' <+: l := by
  have hlines : ∀ m ∈ t.indentedLines width, '\n' ∉ m := by
    intro m hm
    rcases eq_nil_or_eq_indented hm with rfl | ⟨line, hline, rfl⟩
    · simp
    · simp [newline_not_mem_lines hline]
  rw [indent_append_newline width ht, splitOn_unlines hlines] at h
  rcases List.mem_append.mp h with h | h
  · rcases eq_nil_or_eq_indented h with rfl | ⟨line, -, rfl⟩
    · exact absurd rfl hl
    · exact List.prefix_append _ _
  · exact absurd (List.mem_singleton.mp h) hl

end Text

namespace Details

/-! ## What the compiler wrote -/

/-- The line above what the compiler wrote. -/
def captureHeading (label : Text) : Text :=
  "          ".toList ++
    ("------ Compiler: ".toList ++ label ++ " ---------------------------------".toList)

theorem flatten_captured_of_ne_nil (label : Text) {contents : Text} (h : contents ≠ []) :
    (captured false label contents).flatten =
      captureHeading label ++ '\n' :: (contents.indent captureWidth ++ ['\n']) := by
  have hempty : ¬ contents.isEmpty = true := fun he => h (List.isEmpty_iff.mp he)
  have hchunks : captured false label contents =
      [captureHeading label ++ ['\n'], contents.indent captureWidth ++ ['\n']] := by
    rw [captured, if_neg hempty]
    rfl
  rw [hchunks, List.flatten_cons, List.flatten_singleton, List.append_assoc,
    List.singleton_append]

theorem flatten_captured_eq_nil_iff (label contents : Text) :
    (captured false label contents).flatten = [] ↔ contents = [] := by
  constructor
  · intro h
    by_contra hne
    rw [flatten_captured_of_ne_nil label hne] at h
    exact absurd h (by simp)
  · rintro rfl
    rfl

/-- Nothing is written of an empty text. Of any other there is a block: the lines below its heading
are blank or begin with ten blanks, and it ends in a line feed. Texts without carriage returns have
the same block only where they are the same. -/
theorem captured_keeps_contents (label : Text) :
    (∀ color, captured color label [] = []) ∧
      (∀ contents : Text, contents ≠ [] → ∃ body,
        (captured false label contents).flatten = captureHeading label ++ '\n' :: body ∧
          (∀ line ∈ body.splitOn '\n', line ≠ [] → List.replicate 10 ' ' <+: line) ∧
          body.getLast? = some '\n') ∧
      ∀ t u : Text, '\r' ∉ t → '\r' ∉ u →
        (captured false label t).flatten = (captured false label u).flatten → t = u := by
  refine ⟨fun color => rfl, fun contents hne => ?_, fun t u ht hu h => ?_⟩
  · exact ⟨contents.indent captureWidth ++ ['\n'], flatten_captured_of_ne_nil label hne,
      fun line hmem hline => Text.replicate_prefix_of_mem_splitOn hne hmem hline,
      List.getLast?_concat⟩
  · have hnil : t = [] ↔ u = [] := by
      rw [← flatten_captured_eq_nil_iff label t, h, flatten_captured_eq_nil_iff label u]
    by_cases ht' : t = []
    · rw [ht', hnil.mp ht']
    · have hu' : u ≠ [] := fun he => ht' (hnil.mpr he)
      rw [flatten_captured_of_ne_nil label ht', flatten_captured_of_ne_nil label hu'] at h
      have hbody := List.tail_eq_of_cons_eq (List.append_cancel_left h)
      exact (Text.indent_inj ht hu).mp (List.append_cancel_right hbody)

namespace Sample

/-- Texts that are told apart by blanks and line feeds at their ends alone. -/
def blanks : List Text :=
  ["a", "a\n", "a\n\n", "a\n ", "\na", "\n\na", " \na", "\n", "\n\n", " ", ""].map String.toList

end Sample

theorem captured_keeps_contents_blanks :
    (Sample.blanks.map fun t => (captured false "stdout".toList t).flatten).Nodup ∧
      ∃ body, (captured false "stdout".toList "\n a\n".toList).flatten =
          captureHeading "stdout".toList ++ '\n' :: body ∧
        (∀ line ∈ body.splitOn '\n', line ≠ [] → List.replicate 10 ' ' <+: line) ∧
        body.getLast? = some '\n' := by
  obtain ⟨-, hblock, hinjective⟩ := captured_keeps_contents "stdout".toList
  have hreturn : ∀ t ∈ Sample.blanks, '\r' ∉ t := by decide
  have hblanks : Sample.blanks.Nodup := by decide
  refine ⟨?_, hblock _ (by decide)⟩
  refine List.pairwise_map.mpr (hblanks.imp_of_mem fun ht hu hne h => hne ?_)
  exact hinjective _ _ (hreturn _ ht) (hreturn _ hu) h

/-- A carriage return before a line feed is lost. -/
example : captured false "stdout".toList "a\r\nb".toList =
    captured false "stdout".toList "a\nb".toList := by decide

end Details

end CompilerTrials
