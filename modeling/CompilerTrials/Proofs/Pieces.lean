import CompilerTrials.Proofs.Lines
import CompilerTrials.Proofs.Terminals

/-!
# Pieces

A sequence that a text leaves unfinished swallows what comes next, unless that is in a style: then
the opening of the style ends the sequence. So a text that comes with colour and without is taken
here as pieces, some of which are signs, which stand in a style where there is colour.

* `Piece`: a text that is written as it is, or a sign.
* `Piece.Plays`: the coloured text shows what the pieces show (`Piece.shown`).
* `Piece.Calm`: no sequence is unfinished where a sign begins.
* `Piece.printed_of_calm`, `Piece.length_printed_lt`: where the pieces are calm, their text without
  colour shows the same; where they are not, it shows less.
-/

namespace CompilerTrials

open Escape (State printed headStart)

variable {s : State} {t u : Text}

/-! ## Printable texts on a terminal -/

namespace Text.IsPrintable

theorem print_eq (h : IsPrintable t) : ∀ c ∈ t, Escape.print c = [c] := by
  intro c hc
  have hrange := h c hc
  have hfeed : c ≠ '\n' := by
    rintro rfl
    exact h.newline_not_mem hc
  rw [Escape.print, if_neg hfeed, if_neg (by omega)]

theorem escape_not_mem (h : IsPrintable t) : '\x1b' ∉ t := fun hmem => by
  have hrange := h _ hmem
  revert hrange
  decide

theorem printed_eq (h : IsPrintable t) : printed (.ground none) t = t :=
  Escape.strip_of_printed h.print_eq

theorem read_eq (h : IsPrintable t) : (State.ground none).read t = .ground none :=
  Escape.read_of_plain h.escape_not_mem

theorem printed_singleton_of_sequence (h : s.Aligned) (hground : s ≠ .ground none) {c : Char}
    (hc : 0x20 ≤ c.toNat ∧ c.toNat < 0x7F) : printed s [c] = [] := by
  have hfeed : UInt8.ofNat c.toNat ≠ 0x0A := fun hbyte => by
    have hvalue := congrArg Char.toNat (Escape.eq_newline_of_byte (by omega) hbyte)
    rw [hvalue] at hc
    revert hc
    decide
  have hbytes : String.utf8EncodeChar c = [UInt8.ofNat c.toNat] := by
    rw [← Utf8.encode_one (by omega), Char.ofNat_toNat]
  have hstep := Escape.step_of_sequence (Escape.sequence_of_aligned h hground)
    (UInt8.ofNat c.toNat)
  have hexecute : Escape.execute (UInt8.ofNat c.toNat) = [] := if_neg hfeed
  rw [printed, Escape.encode_singleton, hbytes, Escape.stripFrom, hstep, hexecute, ite_self]
  rfl

/-- Printable ASCII prints nothing as long as a sequence lasts. -/
theorem printed_cases (ht : IsPrintable t) (h : s.Aligned) (hground : s ≠ .ground none) :
    printed s t = [] ∨ s.read t = .ground none ∧ (printed s t).length < t.length := by
  induction t generalizing s with
  | nil => exact .inl rfl
  | cons c t ih =>
    obtain ⟨hc, hrest⟩ := List.forall_mem_cons.mp ht
    have hnone := printed_singleton_of_sequence h hground hc
    rw [Escape.printed_cons s c t, Escape.read_cons s c t, hnone, List.nil_append, List.length_cons]
    by_cases hnext : s.read [c] = .ground none
    · rw [hnext, read_eq hrest, printed_eq hrest]
      exact .inr ⟨rfl, Nat.lt_succ_self _⟩
    · refine (ih hrest (Escape.aligned_read_char h c) hnext).imp_right fun ⟨hread, hlt⟩ => ?_
      exact ⟨hread, Nat.lt_succ_of_lt hlt⟩

end Text.IsPrintable

/-! ## Pieces -/

/-- A text that stands in a style, or behind one, where there is colour. It is longer than what a
terminal in a sequence can be ahead of one that prints. -/
structure Sign where
  text : Text
  printable : text.IsPrintable
  length_gt : headStart < text.length

/-- A part of a report. -/
inductive Piece where
  | plain (t : Text)
  | sign (q : Sign)

namespace Piece

def text : Piece → Text
  | plain t => t
  | sign q => q.text

/-- What a terminal prints of the pieces of a coloured text. A sign is always printed. -/
def shown (s : State) : List Piece → Text
  | [] => []
  | plain t :: ps => printed s t ++ shown (s.read t) ps
  | sign q :: ps => q.text ++ shown (.ground none) ps

/-- Where a terminal stands after the pieces of a coloured text. -/
def leaves (s : State) : List Piece → State
  | [] => s
  | plain t :: ps => leaves (s.read t) ps
  | sign _ :: ps => leaves (.ground none) ps

/-- No sequence is unfinished where a sign begins. -/
def Calm (s : State) : List Piece → Prop
  | [] => True
  | plain t :: ps => Calm (s.read t) ps
  | sign _ :: ps => s = .ground none ∧ Calm (.ground none) ps

variable {ps qs : List Piece}

theorem calm_plain : Calm s (plain t :: ps) ↔ Calm (s.read t) ps := Iff.rfl

theorem calm_sign {q : Sign} :
    Calm s (sign q :: ps) ↔ s = .ground none ∧ Calm (.ground none) ps := Iff.rfl

theorem shown_append (s : State) (ps qs : List Piece) :
    shown s (ps ++ qs) = shown s ps ++ shown (leaves s ps) qs := by
  induction ps generalizing s with
  | nil => rfl
  | cons p ps ih => cases p <;> simp [shown, leaves, ih]

theorem leaves_append (s : State) (ps qs : List Piece) :
    leaves s (ps ++ qs) = leaves (leaves s ps) qs := by
  induction ps generalizing s with
  | nil => rfl
  | cons p ps ih => cases p <;> simp [leaves, ih]

theorem calm_append (s : State) (ps qs : List Piece) :
    Calm s (ps ++ qs) ↔ Calm s ps ∧ Calm (leaves s ps) qs := by
  induction ps generalizing s with
  | nil => simp [Calm, leaves]
  | cons p ps ih => cases p <;> simp [Calm, leaves, ih, and_assoc]

/-- Without a sequence that is unfinished before a sign, colour makes no difference. -/
theorem printed_of_calm (h : Calm s ps) : printed s (ps.flatMap text) = shown s ps := by
  induction ps generalizing s with
  | nil => rfl
  | cons p ps ih =>
    rw [List.flatMap_cons, Escape.printed_append]
    cases p with
    | plain t => exact congrArg (printed s t ++ ·) (ih h)
    | sign q =>
      obtain ⟨rfl, hrest⟩ := h
      show printed _ q.text ++ printed (State.read _ q.text) _ = q.text ++ shown _ ps
      rw [q.printable.printed_eq, q.printable.read_eq, ih hrest]

/-- What is left of a sign in a sequence, and of the pieces after it. -/
theorem length_printed_sign_lt (q : Sign) (h : s.Aligned) (hground : s ≠ .ground none)
    (hbehind : ∀ s : State, s.Aligned →
      (printed s u).length ≤ (shown s ps).length ∧
        (printed s u).length ≤ (shown (.ground none) ps).length + headStart) :
    (printed s (q.text ++ u)).length < (q.text ++ shown (.ground none) ps).length := by
  have hlong := q.length_gt
  have haligned := Escape.aligned_read h q.text
  rw [Escape.printed_append, List.length_append, List.length_append]
  rcases q.printable.printed_cases h hground with hnone | ⟨hread, hlt⟩
  · have hle := (hbehind _ haligned).2
    rw [hnone, List.length_nil]
    omega
  · have hle := (hbehind _ haligned).1
    rw [hread] at hle ⊢
    omega

/-- Without colour a terminal is never ahead of one that stood where it stood, and by little of one
that printed. -/
theorem length_printed_le (ps : List Piece) (h : s.Aligned) :
    (printed s (ps.flatMap text)).length ≤ (shown s ps).length ∧
      (printed s (ps.flatMap text)).length ≤ (shown (.ground none) ps).length + headStart := by
  induction ps generalizing s with
  | nil => exact ⟨Nat.le_refl 0, Nat.zero_le _⟩
  | cons p ps ih =>
    rw [List.flatMap_cons]
    cases p with
    | plain t =>
      have hrest := ih (Escape.aligned_read h t)
      simp only [shown, text, Escape.printed_append, List.length_append]
      refine ⟨by omega, ?_⟩
      -- either both stand at the same place after the text, or the second one still prints
      rcases Escape.lag h t with ⟨hsame, hle⟩ | ⟨hprints, hle⟩
      · rw [← hsame]
        omega
      · rw [hprints]
        omega
    | sign q =>
      by_cases hground : s = .ground none
      · subst hground
        have hrest := (ih (s := .ground none) trivial).1
        simp only [shown, text, Escape.printed_append, List.length_append, q.printable.printed_eq,
          q.printable.read_eq]
        omega
      · have hlt := length_printed_sign_lt q h hground fun s hs => ih hs
        exact ⟨Nat.le_of_lt hlt, Nat.le_trans (Nat.le_of_lt hlt) (Nat.le_add_right _ _)⟩

/-- With a sequence that is unfinished before a sign, less is shown without colour. -/
theorem length_printed_lt (haligned : s.Aligned) (h : ¬ Calm s ps) :
    (printed s (ps.flatMap text)).length < (shown s ps).length := by
  induction ps generalizing s with
  | nil => exact absurd trivial h
  | cons p ps ih =>
    rw [List.flatMap_cons]
    cases p with
    | plain t =>
      have hrest := ih (Escape.aligned_read haligned t) h
      simp only [shown, text, Escape.printed_append, List.length_append]
      omega
    | sign q =>
      by_cases hground : s = .ground none
      · subst hground
        have hrest := ih (s := .ground none) trivial fun hcalm => h ⟨rfl, hcalm⟩
        simp only [shown, text, Escape.printed_append, List.length_append, q.printable.printed_eq,
          q.printable.read_eq]
        omega
      · exact length_printed_sign_lt q haligned hground fun s hs => length_printed_le ps hs

/-- The pieces are calm for a terminal that prints, if `p` holds, and for no other. -/
def Demands (p : Prop) (ps : List Piece) : Prop :=
  ∀ s : State, s.Aligned → (Calm s ps ↔ s = .ground none ∧ p)

/-- Pieces that begin with a sign, which stands behind blanks. -/
theorem Demands.sign {blanks : Text} (hblanks : Escape.IsBlank blanks) (q : Sign) {p : Prop}
    (h : Calm (.ground none) ps ↔ p) : Demands p (.plain blanks :: .sign q :: ps) := by
  intro s hs
  rw [calm_plain, calm_sign, Escape.read_blanks_iff hs hblanks, h]

/-! ### Plain pieces -/

theorem calm_map_plain (s : State) (ts : List Text) : Calm s (ts.map plain) := by
  induction ts generalizing s with
  | nil => trivial
  | cons t ts ih => exact ih (s.read t)

theorem leaves_map_plain (s : State) (ts : List Text) :
    leaves s (ts.map plain) = s.read ts.flatten := by
  induction ts generalizing s with
  | nil => rfl
  | cons t ts ih => exact (ih (s.read t)).trans (Escape.read_append s t ts.flatten).symm

theorem shown_map_plain (s : State) (ts : List Text) :
    shown s (ts.map plain) = printed s ts.flatten := by
  induction ts generalizing s with
  | nil => rfl
  | cons t ts ih =>
    rw [List.flatten_cons, Escape.printed_append]
    exact congrArg (printed s t ++ ·) (ih (s.read t))

theorem flatMap_text_map_plain (ts : List Text) : (ts.map plain).flatMap text = ts.flatten := by
  rw [List.flatMap_map, List.flatMap_def]
  exact congrArg List.flatten (List.map_id' ts)

/-! ## Coloured texts -/

/-- To a terminal at `s` a coloured text shows what the pieces show, and it stands at `s'` then. -/
structure Plays (s : State) (t : Text) (ps : List Piece) (s' : State) : Prop where
  shown : printed s t = Piece.shown s ps
  read : s.read t = s'
  leaves : Piece.leaves s ps = s'

namespace Plays

variable {s' s'' : State} {a : Text}

theorem nil (s : State) : Plays s [] [] s := ⟨rfl, rfl, rfl⟩

theorem append (h : Plays s t ps s') (h' : Plays s' u qs s'') :
    Plays s (t ++ u) (ps ++ qs) s'' := by
  constructor
  · rw [Escape.printed_append, h.shown, h.read, h'.shown, shown_append, h.leaves]
  · rw [Escape.read_append, h.read, h'.read]
  · rw [leaves_append, h.leaves, h'.leaves]

theorem plain (s : State) (t : Text) : Plays s t [.plain t] (s.read t) :=
  ⟨(List.append_nil _).symm, rfl, rfl⟩

theorem plains (s : State) (ts : List Text) :
    Plays s ts.flatten (ts.map .plain) (s.read ts.flatten) :=
  ⟨(shown_map_plain s ts).symm, rfl, leaves_map_plain s ts⟩

/-- A word in a style, where the terminal prints. -/
theorem word (ha : a.IsPrintable) (ht : t.IsPrintable) (style : Style) (u : Text) :
    Plays (.ground none) (a ++ style.paint true t ++ u) [.plain (a ++ t ++ u)]
      ((State.ground none).read u) := by
  have hground : (State.ground none).Aligned := trivial
  constructor
  · show _ = printed _ (a ++ t ++ u) ++ []
    simp only [Escape.printed_append, Escape.read_append, ha.read_eq, ht.read_eq,
      Escape.printed_paint style hground, Escape.read_paint style hground, List.append_nil]
  · simp only [Escape.read_append, ha.read_eq, Escape.read_paint style hground]
  · show State.read _ (a ++ t ++ u) = _
    simp only [Escape.read_append, ha.read_eq, ht.read_eq]

/-- A text in a style, and a sign behind it. -/
theorem closed (style : Style) (t : Text) (q : Sign) :
    Plays (.ground none) (style.paint true t ++ q.text) [.plain t, .sign q] (.ground none) := by
  have hground : (State.ground none).Aligned := trivial
  have hread := Escape.read_paint style hground t
  constructor
  · rw [Escape.printed_append, hread, Escape.printed_paint style hground, q.printable.printed_eq]
    exact congrArg (printed _ t ++ ·) (List.append_nil _).symm
  · rw [Escape.read_append, hread, q.printable.read_eq]
  · rfl

theorem sign (style : Style) (q : Sign) (h : s.Aligned) :
    Plays s (style.paint true q.text) [.sign q] (.ground none) := by
  constructor
  · rw [Escape.printed_paint style h, q.printable.printed_eq]
    exact (List.append_nil _).symm
  · exact Escape.read_paint style h q.text
  · rfl

end Plays

end Piece

end CompilerTrials
