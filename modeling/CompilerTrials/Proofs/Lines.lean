import CompilerTrials.WaitStatus
import CompilerTrials.Text.Style

/-!
# Lines of texts

* `Text.splitOn_unlines`: lines that hold no line feed can be read back from their text.
* `Text.exists_eq_unlines_append`, `Text.lines_unlines_append`: a text as lines and what stands
  behind the last line feed.
* `Text.indent_append_newline`, `Text.eq_nil_or_eq_indented`: an indented text as lines; each is
  blank or begins with the indentation.
* `Text.IsPrintable`: texts of printable ASCII, as numbers and statuses are; they stand on one line.
-/

namespace CompilerTrials

namespace Text

/-! ## Lines of a text -/

/-- The text of some lines, each ended by a line feed. -/
def unlines (ls : List Text) : Text := ls.flatMap (· ++ ['\n'])

@[simp] theorem unlines_nil : unlines [] = [] := rfl

@[simp] theorem unlines_cons (l : Text) (ls : List Text) :
    unlines (l :: ls) = l ++ '\n' :: unlines ls := by
  simp [unlines]

@[simp] theorem unlines_append (ls ms : List Text) :
    unlines (ls ++ ms) = unlines ls ++ unlines ms := by
  simp [unlines]

theorem intercalate_concat (ls : List Text) (last : Text) :
    ['\n'].intercalate (ls ++ [last]) = unlines ls ++ last := by
  induction ls with
  | nil => simp
  | cons l ls ih =>
    rw [List.cons_append, List.intercalate_cons_of_ne_nil (by simp), ih]
    simp

theorem intercalate_append_newline {ls : List Text} (h : ls ≠ []) :
    ['\n'].intercalate ls ++ ['\n'] = unlines ls := by
  rw [← List.dropLast_concat_getLast h, intercalate_concat]
  simp

theorem splitOn_unlines_append {ls : List Text} {last : Text} (h : ∀ l ∈ ls, '\n' ∉ l)
    (hlast : '\n' ∉ last) : (unlines ls ++ last).splitOn '\n' = ls ++ [last] := by
  have hpieces : ∀ l ∈ ls ++ [last], '\n' ∉ l := by
    intro l hl
    rcases List.mem_append.mp hl with hl | hl
    · exact h l hl
    · rwa [List.mem_singleton.mp hl]
  rw [← intercalate_concat, List.splitOn_intercalate '\n' hpieces (by simp)]

theorem splitOn_unlines {ls : List Text} (h : ∀ l ∈ ls, '\n' ∉ l) :
    (unlines ls).splitOn '\n' = ls ++ [[]] := by
  rw [← splitOn_unlines_append h List.not_mem_nil, List.append_nil]

/-- A piece between line feeds holds none. -/
theorem newline_not_mem_splitOn {t piece : Text} (h : piece ∈ t.splitOn '\n') : '\n' ∉ piece := by
  induction t generalizing piece with
  | nil =>
    simp only [List.splitOn_nil, List.mem_singleton] at h
    simp [h]
  | cons c t ih =>
    rw [List.splitOn_cons_eq_if_modifyHead] at h
    split at h
    · rcases List.mem_cons.mp h with rfl | hrest
      · simp
      · exact ih hrest
    · next hc =>
      have hne : '\n' ≠ c := fun e => hc (by simp [e.symm])
      cases hsplit : t.splitOn '\n' with
      | nil => exact absurd hsplit (List.splitOn_ne_nil _ _)
      | cons first rest =>
        rw [hsplit] at h ih
        rcases List.mem_cons.mp h with rfl | hrest
        · simp [hne, ih List.mem_cons_self]
        · exact ih (List.mem_cons_of_mem _ hrest)

theorem mem_of_mem_splitOn {c : Char} {t piece : Text} (h : piece ∈ t.splitOn '\n')
    (hc : c ∈ piece) : c ∈ t := by
  induction t generalizing piece with
  | nil =>
    simp only [List.splitOn_nil, List.mem_singleton] at h
    simp [h] at hc
  | cons d t ih =>
    rw [List.splitOn_cons_eq_if_modifyHead] at h
    split at h
    · rcases List.mem_cons.mp h with rfl | hrest
      · cases hc
      · exact List.mem_cons_of_mem d (ih hrest hc)
    · cases hsplit : t.splitOn '\n' with
      | nil => exact absurd hsplit (List.splitOn_ne_nil _ _)
      | cons first rest =>
        rw [hsplit] at h ih
        rcases List.mem_cons.mp h with rfl | hrest
        · rcases List.mem_cons.mp hc with rfl | hfirst
          · exact List.mem_cons_self
          · exact List.mem_cons_of_mem d (ih List.mem_cons_self hfirst)
        · exact List.mem_cons_of_mem d (ih (List.mem_cons_of_mem _ hrest) hc)

theorem mem_of_mem_dropReturn {c : Char} {t : Text} (h : c ∈ dropReturn t) : c ∈ t := by
  unfold dropReturn at h
  split at h
  · exact (List.dropLast_sublist t).subset h
  · exact h

/-- Lines hold nothing that the pieces do not hold. -/
theorem exists_piece_of_mem {l : Text} {pieces : List Text} (h : l ∈ linesOfPieces pieces) :
    ∃ piece ∈ pieces, ∀ c ∈ l, c ∈ piece := by
  induction pieces with
  | nil => cases h
  | cons piece rest ih =>
    cases rest with
    | nil =>
      simp only [linesOfPieces] at h
      split at h
      · cases h
      · obtain rfl := List.mem_singleton.mp h
        exact ⟨l, List.mem_cons_self, fun c hc => hc⟩
    | cons next rest =>
      rcases List.mem_cons.mp h with rfl | hmem
      · exact ⟨piece, List.mem_cons_self, fun c hc => mem_of_mem_dropReturn hc⟩
      · obtain ⟨p, hp, hsub⟩ := ih hmem
        exact ⟨p, List.mem_cons_of_mem _ hp, hsub⟩

theorem newline_not_mem_lines {t l : Text} (h : l ∈ t.lines) : '\n' ∉ l := by
  obtain ⟨piece, hpiece, hsub⟩ := exists_piece_of_mem h
  exact fun hmem => newline_not_mem_splitOn hpiece (hsub _ hmem)

theorem mem_of_mem_lines {c : Char} {t l : Text} (h : l ∈ t.lines) (hc : c ∈ l) : c ∈ t := by
  obtain ⟨piece, hpiece, hsub⟩ := exists_piece_of_mem h
  exact mem_of_mem_splitOn hpiece (hsub c hc)

theorem dropReturn_eq_self {t : Text} (h : '\r' ∉ t) : dropReturn t = t :=
  if_neg fun hlast => h (List.mem_of_getLast? hlast)

/-- Every text is some lines, each ended by a line feed, and what stands behind the last one. -/
theorem exists_eq_unlines_append (t : Text) :
    ∃ ls last, t = unlines ls ++ last ∧ (∀ l ∈ ls, '\n' ∉ l) ∧ '\n' ∉ last := by
  have hne : t.splitOn '\n' ≠ [] := List.splitOn_ne_nil _ _
  have hpieces := List.dropLast_concat_getLast hne
  refine ⟨(t.splitOn '\n').dropLast, (t.splitOn '\n').getLast hne, ?_, ?_, ?_⟩
  · rw [← intercalate_concat, hpieces, List.intercalate_splitOn]
  · exact fun l hl => newline_not_mem_splitOn (List.dropLast_subset _ hl)
  · exact newline_not_mem_splitOn (List.getLast_mem hne)

theorem linesOfPieces_concat (ls : List Text) (last : Text) :
    linesOfPieces (ls ++ [last]) =
      ls.map dropReturn ++ if last.isEmpty then [] else [last] := by
  induction ls with
  | nil => rfl
  | cons l ls ih =>
    cases ls with
    | nil => rfl
    | cons m ms => exact congrArg (dropReturn l :: ·) ih

/-- The lines of a text; what stands behind the last line feed is one if it is anything. -/
theorem lines_unlines_append {ls : List Text} {last : Text} (h : ∀ l ∈ ls, '\n' ∉ l)
    (hlast : '\n' ∉ last) :
    (unlines ls ++ last).lines = ls.map dropReturn ++ if last.isEmpty then [] else [last] := by
  rw [lines, splitOn_unlines_append h hlast, linesOfPieces_concat]

theorem lines_ne_nil {t : Text} (h : t ≠ []) : t.lines ≠ [] := by
  obtain ⟨ls, last, rfl, hls, hlast⟩ := exists_eq_unlines_append t
  rw [lines_unlines_append hls hlast]
  cases ls with
  | nil => simpa using h
  | cons l ls => simp

/-! ## Indented lines -/

/-- The lines of an indented text. A final line feed counts as one more line here. -/
def indentedLines (width : Nat) (t : Text) : List Text :=
  t.lines.map (indentLine width) ++ if t.getLast? = some '\n' then [[]] else []

theorem indent_append_newline {t : Text} (width : Nat) (h : t ≠ []) :
    t.indent width ++ ['\n'] = unlines (t.indentedLines width) := by
  have hlines : ['\n'].intercalate (t.lines.map (indentLine width)) ++ ['\n'] =
      unlines (t.lines.map (indentLine width)) :=
    intercalate_append_newline (by simpa using lines_ne_nil h)
  unfold indent indentedLines
  rw [unlines_append, ← hlines]
  split <;> simp

/-- What an indented text says stands behind `width` blanks. -/
theorem eq_nil_or_eq_indented {width : Nat} {t l : Text} (h : l ∈ t.indentedLines width) :
    l = [] ∨ ∃ line ∈ t.lines, l = List.replicate width ' ' ++ line := by
  rcases List.mem_append.mp h with hline | hlast
  · obtain ⟨line, hmem, rfl⟩ := List.mem_map.mp hline
    unfold indentLine
    split
    · exact .inl rfl
    · exact .inr ⟨line, hmem, rfl⟩
  · split at hlast
    · exact .inl (List.mem_singleton.mp hlast)
    · cases hlast

/-! ## Printable texts -/

/-- The characters of numbers. -/
def digits : Text := "0123456789abcdef*".toList

theorem digitChar_mem_digits (d : Nat) : d.digitChar ∈ digits := by
  by_cases h : d < 16
  · have hall : ∀ d < 16, Nat.digitChar d ∈ digits := by decide
    exact hall d h
  · have hstar : d.digitChar = '*' := by
      unfold Nat.digitChar
      repeat rw [if_neg (by omega)]
    rw [hstar]
    decide

theorem mem_digits_of_mem_toDigits {base n : Nat} (hbase : 1 < base) {c : Char}
    (h : c ∈ Nat.toDigits base n) : c ∈ digits := by
  induction n using Nat.strongRecOn with
  | ind n ih =>
    rw [Nat.toDigits_eq_if hbase] at h
    split at h
    · rw [List.mem_singleton.mp h]
      exact digitChar_mem_digits n
    · next hn =>
      rcases List.mem_append.mp h with hmem | hmem
      · exact ih (n / base) (Nat.div_lt_self (by omega) hbase) hmem
      · rw [List.mem_singleton.mp hmem]
        exact digitChar_mem_digits (n % base)

/-- Every character of the text is printable ASCII. -/
def IsPrintable (t : Text) : Prop := ∀ c ∈ t, 0x20 ≤ c.toNat ∧ c.toNat < 0x7F

instance (t : Text) : Decidable (IsPrintable t) := List.decidableBAll _ t

namespace IsPrintable

variable {t u : Text}

theorem append (h : IsPrintable t) (h' : IsPrintable u) : IsPrintable (t ++ u) := by
  intro c hc
  rcases List.mem_append.mp hc with hc | hc
  · exact h c hc
  · exact h' c hc

theorem newline_not_mem (h : IsPrintable t) : '\n' ∉ t := fun hmem => by
  have hrange := h _ hmem
  revert hrange
  decide

theorem toDigits {base : Nat} (hbase : 1 < base) (n : Nat) : IsPrintable (Nat.toDigits base n) := by
  have hdigits : IsPrintable digits := by decide
  exact fun c hc => hdigits c (mem_digits_of_mem_toDigits hbase hc)

theorem ofNat (n : Nat) : IsPrintable (Text.ofNat n) := toDigits (by decide) n

theorem ofInt (n : Int) : IsPrintable (Text.ofInt n) := by
  unfold Text.ofInt
  split
  · exact append (t := ['-']) (by decide) (ofNat _)
  · exact ofNat _

end IsPrintable

end Text

@[simp] theorem Style.paint_false (s : Style) (t : Text) : s.paint false t = t := rfl

theorem WaitStatus.isPrintable_renderSignal (signal : Nat) :
    Text.IsPrintable (renderSignal signal) := by
  have hnames : ∀ name ∈ signalNames, Text.IsPrintable name.toList := by decide
  unfold renderSignal
  refine (Text.IsPrintable.ofNat signal).append ?_
  split
  · decide
  · split
    · next name hname =>
      exact .append (.append (by decide) (hnames name (List.mem_of_getElem? hname))) (by decide)
    · decide

theorem WaitStatus.isPrintable_render (w : WaitStatus) : Text.IsPrintable w.render := by
  unfold render
  split
  · exact .append (by decide) (.ofNat _)
  · refine .append (.append (by decide) (isPrintable_renderSignal _)) ?_
    split <;> decide
  · exact .append (by decide) (isPrintable_renderSignal _)
  · decide
  · exact .append (.append (.append (by decide) (.ofInt _)) (by decide)) (.toDigits (by decide) _)

end CompilerTrials
