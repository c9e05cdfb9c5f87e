import CompilerTrials.Proofs.Escapes
import CompilerTrials.Text.Style
import Mathlib.Data.List.Basic

/-!
# Terminals

What a terminal shows of one text after another, and where it stands between them.

* `Escape.State.read`, `Escape.printed`: where a terminal stands after a text, and what it prints.
* `Escape.Settled`: a text that leaves no sequence unfinished.
* `Escape.read_of_plain`: a text without ESC is printed up to its controls.
* `Escape.read_paint`, `Escape.printed_paint`: wherever the terminal stands, a text in a style is
  printed as that text alone, and the terminal prints again after it.
* `Escape.lag`: a terminal that stands in a sequence prints hardly more of a text than one that
  does not. It may be ahead where a device control string ends inside a character.
-/

namespace CompilerTrials.Escape

open Utf8 (Completes IsTail)

variable {s : State} {b : UInt8} {bs cs : ByteString} {c : Char} {t u : Text}

/-! ## Bytes -/

/-- Where the terminal stands after some bytes. -/
def State.after (s : State) (bs : ByteString) : State := bs.foldl (fun s b => (s.step b).2) s

@[simp] theorem after_nil (s : State) : s.after [] = s := rfl

@[simp] theorem after_cons (s : State) (b : UInt8) (bs : ByteString) :
    s.after (b :: bs) = (s.step b).2.after bs := rfl

theorem after_append (s : State) (bs cs : ByteString) :
    s.after (bs ++ cs) = (s.after bs).after cs := List.foldl_append

theorem stripFrom_append (s : State) (bs cs : ByteString) :
    stripFrom s (bs ++ cs) = stripFrom s bs ++ stripFrom (s.after bs) cs := by
  induction bs generalizing s with
  | nil => rfl
  | cons b bs ih => rw [List.cons_append, stripFrom, ih, stripFrom, List.append_assoc, after_cons]

theorem sequence_of_aligned (h : s.Aligned) (hground : s ≠ .ground none) (held) :
    s ≠ .ground held := by
  rintro rfl
  cases held with
  | none => exact hground rfl
  | some p => exact h

theorem aligned_step (h : s.Aligned) (hground : s ≠ .ground none) (b : UInt8) :
    (s.step b).2.Aligned := by
  rw [step_of_sequence (sequence_of_aligned h hground)]
  exact aligned_advance h b

/-- Where no sequence has begun, a character leaves the terminal there. -/
theorem after_of_completes {held : Option Utf8.Partial} (h : Completes held bs c)
    (hc : c ≠ '\x1b') : (State.ground held).after bs = .ground none := by
  have hlead : Utf8.lead 0x1B = .complete '\x1b' := by decide +kernel
  induction h with
  | @last held b c h =>
    cases held with
    | none =>
      have hb : b ≠ 0x1B := by
        rintro rfl
        exact hc (Utf8.Progress.complete.inj (h.symm.trans hlead))
      simp only [Utf8.next] at h
      simp only [after_cons, after_nil, State.step, groundLead, if_neg hb, h]
    | some p =>
      simp only [Utf8.next] at h
      simp only [after_cons, after_nil, State.step, h]
  | @more held b p bs c h _ ih =>
    cases held with
    | none =>
      have hb : b ≠ 0x1B := by
        rintro rfl
        cases h.symm.trans hlead
      simp only [Utf8.next] at h
      simp only [after_cons, State.step, groundLead, if_neg hb, h]
      exact ih hc
    | some q =>
      simp only [Utf8.next] at h
      simp only [after_cons, State.step, h]
      exact ih hc

theorem after_tails_ground (hbs : ∀ b ∈ bs, IsTail b) :
    (State.ground none).after bs = .ground none := by
  induction bs with
  | nil => rfl
  | cons b bs ih =>
    obtain ⟨hb, hrest⟩ := List.forall_mem_cons.mp hbs
    rw [after_cons, step_of_tail hb]
    exact ih hrest

theorem aligned_after_tails (h : s.Aligned) (hbs : ∀ b ∈ bs, IsTail b) : (s.after bs).Aligned := by
  induction bs generalizing s with
  | nil => exact h
  | cons b bs ih =>
    obtain ⟨hb, hrest⟩ := List.forall_mem_cons.mp hbs
    by_cases hground : s = .ground none
    · subst hground
      rw [after_tails_ground hbs]
      trivial
    · exact ih (aligned_step h hground b) hrest

/-- The bytes after the first print nothing as long as a sequence lasts. -/
theorem stripFrom_tails_cases (h : s.Aligned) (hbs : ∀ b ∈ bs, IsTail b) :
    stripFrom s bs = [] ∨ s.after bs = .ground none := by
  induction bs generalizing s with
  | nil => exact .inl rfl
  | cons b bs ih =>
    obtain ⟨hb, hrest⟩ := List.forall_mem_cons.mp hbs
    by_cases hground : s = .ground none
    · subst hground
      exact .inr (after_tails_ground hbs)
    · have hstep := step_of_high (sequence_of_aligned h hground) hb.1
      have hcases := ih (aligned_step h hground b) hrest
      rwa [stripFrom, after_cons, hstep, List.nil_append, ← hstep]

theorem length_stripFrom_tails_le (h : s.Aligned) (hbs : ∀ b ∈ bs, IsTail b) :
    (stripFrom s bs).length ≤ bs.length := by
  induction bs generalizing s with
  | nil => exact Nat.le_refl 0
  | cons b bs ih =>
    obtain ⟨hb, hrest⟩ := List.forall_mem_cons.mp hbs
    by_cases hground : s = .ground none
    · subst hground
      have hone : (if b < 0xA0 then [] else [Utf8.replacement]).length ≤ 1 := by
        split <;> simp
      have hle := ih (s := .ground none) trivial hrest
      rw [stripFrom, step_of_tail hb, List.length_append, List.length_cons]
      exact Nat.add_comm bs.length 1 ▸ Nat.add_le_add hone hle
    · have hstep := step_of_high (sequence_of_aligned h hground) hb.1
      have hle := ih (aligned_step h hground b) hrest
      rw [stripFrom, hstep, List.nil_append, List.length_cons, ← hstep]
      omega

/-! ## Texts -/

/-- Where the terminal stands after a text. -/
def State.read (s : State) (t : Text) : State := s.after (Utf8.encode t)

/-- What the terminal prints of a text. -/
def printed (s : State) (t : Text) : Text := stripFrom s (Utf8.encode t)

theorem strip_eq_printed (t : Text) : strip t = printed (.ground none) t := rfl

theorem encode_append (t u : Text) : Utf8.encode (t ++ u) = Utf8.encode t ++ Utf8.encode u :=
  List.flatMap_append

theorem read_append (s : State) (t u : Text) : s.read (t ++ u) = (s.read t).read u := by
  rw [State.read, encode_append, after_append]
  rfl

theorem printed_append (s : State) (t u : Text) :
    printed s (t ++ u) = printed s t ++ printed (s.read t) u := by
  rw [printed, encode_append, stripFrom_append]
  rfl

theorem read_cons (s : State) (c : Char) (t : Text) : s.read (c :: t) = (s.read [c]).read t :=
  read_append s [c] t

theorem printed_cons (s : State) (c : Char) (t : Text) :
    printed s (c :: t) = printed s [c] ++ printed (s.read [c]) t := printed_append s [c] t

theorem encode_singleton (c : Char) : Utf8.encode [c] = String.utf8EncodeChar c := by
  rw [Utf8.encode_cons, Utf8.encode_nil, List.append_nil]

/-! ### One character -/

theorem step_escape (h : s.Aligned) : s.step 0x1B = ([], .escape) := by
  cases s with
  | ground held =>
    cases held with
    | none => rfl
    | some p => exact h.elim
  | _ => rfl

/-- ESC ends whatever has begun. -/
theorem read_escape (h : s.Aligned) : s.read ['\x1b'] = .escape := by
  show (s.step 0x1B).2 = .escape
  rw [step_escape h]

theorem printed_escape (h : s.Aligned) : printed s ['\x1b'] = [] := by
  show (s.step 0x1B).1 ++ [] = []
  rw [step_escape h]
  rfl

theorem read_ground (hc : c ≠ '\x1b') : (State.ground none).read [c] = .ground none := by
  rw [State.read, encode_singleton]
  exact after_of_completes (Utf8.completes_encode c) hc

theorem printed_ground (hc : c ≠ '\x1b') : printed (.ground none) [c] = print c := by
  have hstrip := stripFrom_of_completes (Utf8.completes_encode c) hc []
  rw [List.append_nil] at hstrip
  rw [printed, encode_singleton, hstrip]
  exact List.append_nil _

/-- A character that is not ASCII prints nothing as long as a sequence lasts. -/
theorem wide_cases (h : s.Aligned) (hground : s ≠ .ground none) {b : UInt8}
    (hb : 0x80 ≤ b.toNat) (hbs : ∀ b ∈ bs, IsTail b) :
    (s.after (b :: bs)).Aligned ∧ (stripFrom s (b :: bs)).length ≤ bs.length ∧
      (stripFrom s (b :: bs) = [] ∨ s.after (b :: bs) = .ground none) := by
  have hstep := step_of_high (sequence_of_aligned h hground) hb
  have haligned : (s.advance b).Aligned := aligned_advance h b
  rw [stripFrom, after_cons, hstep, List.nil_append]
  exact ⟨aligned_after_tails haligned hbs, length_stripFrom_tails_le haligned hbs,
    stripFrom_tails_cases haligned hbs⟩

theorem aligned_read_char (h : s.Aligned) (c : Char) : (s.read [c]).Aligned := by
  by_cases hground : s = .ground none
  · subst hground
    by_cases hc : c = '\x1b'
    · subst hc
      rw [read_escape h]
      trivial
    · rw [read_ground hc]
      trivial
  · rw [State.read, encode_singleton]
    obtain ⟨-, hbytes⟩ | ⟨b, tails, hbytes, hb, htails⟩ := Utf8.encodeChar_cases c
    · rw [hbytes]
      exact aligned_step h hground _
    · rw [hbytes]
      exact (wide_cases h hground hb htails).1

theorem aligned_read (h : s.Aligned) (t : Text) : (s.read t).Aligned := by
  induction t generalizing s with
  | nil => exact h
  | cons c t ih =>
    rw [read_cons]
    exact ih (aligned_read_char h c)

theorem aligned_ground_read (t : Text) : ((State.ground none).read t).Aligned :=
  aligned_read (s := .ground none) trivial t

/-- A blank or a line feed ends no sequence, and begins none. -/
theorem read_blank_iff (h : s.Aligned) (hc : c = ' ' ∨ c = '\n') :
    s.read [c] = .ground none ↔ s = .ground none := by
  cases s with
  | ground held =>
    cases held with
    | none => rcases hc with rfl | rfl <;> decide
    | some p => exact h.elim
  | _ => rcases hc with rfl | rfl <;> decide

/-- The text is made of blanks and line feeds. -/
def IsBlank (t : Text) : Prop := ∀ c ∈ t, c = ' ' ∨ c = '\n'

instance (t : Text) : Decidable (IsBlank t) := List.decidableBAll _ t

theorem read_blanks_iff (h : s.Aligned) (ht : IsBlank t) :
    s.read t = .ground none ↔ s = .ground none := by
  induction t generalizing s with
  | nil => exact Iff.rfl
  | cons c t ih =>
    obtain ⟨hc, hrest⟩ := List.forall_mem_cons.mp ht
    rw [read_cons, ih (aligned_read_char h c) hrest, read_blank_iff h hc]

/-! ### Texts without sequences -/

/-- A text without ESC leaves the terminal where it prints. -/
theorem read_of_plain (h : '\x1b' ∉ t) : (State.ground none).read t = .ground none := by
  induction t with
  | nil => rfl
  | cons c t ih =>
    have hc : c ≠ '\x1b' := fun e => h (e ▸ List.mem_cons_self)
    rw [read_cons, read_ground hc, ih fun hmem => h (List.mem_cons_of_mem c hmem)]

theorem printed_of_plain (h : '\x1b' ∉ t) : printed (.ground none) t = t.flatMap print := by
  induction t with
  | nil => rfl
  | cons c t ih =>
    have hc : c ≠ '\x1b' := fun e => h (e ▸ List.mem_cons_self)
    rw [printed_cons, read_ground hc, printed_ground hc,
      ih fun hmem => h (List.mem_cons_of_mem c hmem), List.flatMap_cons]

/-- The text leaves no sequence unfinished: a terminal that prints before it prints after it. -/
def Settled (t : Text) : Prop := (State.ground none).read t = .ground none

instance (t : Text) : Decidable (Settled t) := decEq _ _

theorem settled_of_plain (h : '\x1b' ∉ t) : Settled t := read_of_plain h

/-! ## Styles -/

/-- The text prints nothing, and makes a terminal print that may stand in any sequence. -/
def IsReset (t : Text) : Prop := ∀ s : State, s.Aligned → printed s t = [] ∧ s.read t = .ground none

theorem isReset_of_escape (hread : State.escape.read t = .ground none)
    (hprinted : printed .escape t = []) : IsReset ('\x1b' :: t) := by
  intro s h
  rw [printed_cons s, read_cons s '\x1b' t, read_escape h, printed_escape h, hprinted, hread]
  exact ⟨rfl, rfl⟩

theorem isReset_reset : IsReset Style.reset := isReset_of_escape (by decide) (by decide)

theorem isReset_opening (style : Style) : IsReset style.opening :=
  isReset_of_escape (t := '[' :: (Text.ofNat style.parameter ++ ['m']))
    (by cases style <;> decide) (by cases style <;> decide)

/-- Where a style is switched on again, the terminal prints already. -/
theorem reopen_alike (style : Style) (h : s.Aligned) :
    printed s (style.reopen t) = printed s t ∧ s.read (style.reopen t) = s.read t := by
  fun_induction Style.reopen style t generalizing s with
  | case1 => exact ⟨rfl, rfl⟩
  | case2 rest ih =>
    have hrest : '\x1b' :: '[' :: '0' :: 'm' :: rest = Style.reset ++ rest := rfl
    obtain ⟨hreset, hground⟩ := isReset_reset s h
    obtain ⟨hopening, hstill⟩ := isReset_opening style (.ground none) trivial
    obtain ⟨hprinted, hread⟩ := ih (s := .ground none) trivial
    rw [hrest, List.append_assoc]
    simp only [printed_append, read_append, hreset, hground, hopening, hstill, hprinted, hread,
      List.nil_append]
    exact ⟨trivial, trivial⟩
  | case3 c rest hne ih =>
    obtain ⟨hprinted, hread⟩ := ih (aligned_read_char h c)
    rw [printed_cons s, read_cons s c (style.reopen rest), hprinted, hread]
    exact ⟨(printed_cons s c rest).symm, (read_cons s c rest).symm⟩

/-- Wherever the terminal stands, it prints after a text in a style. -/
theorem read_paint (style : Style) (h : s.Aligned) (t : Text) :
    s.read (style.paint true t) = .ground none := by
  show s.read (style.opening ++ style.reopen t ++ Style.reset) = .ground none
  rw [read_append]
  exact (isReset_reset _ (aligned_read h _)).2

/-- Of a text in a style the terminal prints what it prints of the text alone where no sequence has
begun. -/
theorem printed_paint (style : Style) (h : s.Aligned) (t : Text) :
    printed s (style.paint true t) = printed (.ground none) t := by
  obtain ⟨hopening, hground⟩ := isReset_opening style s h
  have haligned : (s.read (style.opening ++ style.reopen t)).Aligned := aligned_read h _
  show printed s (style.opening ++ style.reopen t ++ Style.reset) = printed (.ground none) t
  rw [printed_append, (isReset_reset _ haligned).1, List.append_nil, printed_append, hopening,
    hground, List.nil_append]
  exact (reopen_alike (s := .ground none) style trivial).1

/-! ## Two terminals -/

/-- How much more of one character a terminal in a sequence can print: all bytes after the first. -/
def headStart : Nat := 3

theorem length_tails_le {tails : ByteString} (h : String.utf8EncodeChar c = b :: tails) :
    tails.length ≤ headStart := by
  have hlength := c.utf8Size_le_four
  rw [← String.length_utf8EncodeChar, h, List.length_cons] at hlength
  unfold headStart
  omega

theorem length_execute_le (hc : c.toNat < 0x80) :
    (execute (UInt8.ofNat c.toNat)).length ≤ (print c).length := by
  unfold execute
  split
  · next h =>
    rw [eq_newline_of_byte hc h]
    decide
  · exact Nat.zero_le _

/-- A terminal in a sequence against one that prints, over one character. -/
theorem lag_char (h : s.Aligned) (hground : s ≠ .ground none) (c : Char) :
    (s.read [c] = (State.ground none).read [c] ∧
        (printed s [c]).length ≤ (printed (.ground none) [c]).length + headStart) ∨
      ((State.ground none).read [c] = .ground none ∧
        (printed s [c]).length ≤ (printed (.ground none) [c]).length) := by
  by_cases hc : c = '\x1b'
  · subst hc
    have hnone : (State.ground none).Aligned := trivial
    rw [read_escape h, read_escape hnone, printed_escape h]
    exact .inl ⟨rfl, Nat.zero_le _⟩
  rw [read_ground hc, printed_ground hc, State.read, printed, encode_singleton]
  obtain ⟨hascii, hbytes⟩ | ⟨b, tails, hbytes, hb, htails⟩ := Utf8.encodeChar_cases c
  · have hstep := step_of_sequence (sequence_of_aligned h hground) (UInt8.ofNat c.toNat)
    have hexecuted : (if s.executes then execute (UInt8.ofNat c.toNat) else []).length ≤
        (print c).length := by
      split
      · exact length_execute_le hascii
      · exact Nat.zero_le _
    rw [hbytes, stripFrom, stripFrom, List.append_nil, hstep]
    exact .inr ⟨rfl, hexecuted⟩
  · rw [hbytes]
    obtain ⟨-, hle, hnone | hafter⟩ := wide_cases h hground hb htails
    · rw [hnone]
      exact .inr ⟨rfl, Nat.zero_le _⟩
    · refine .inl ⟨hafter, ?_⟩
      have htail := length_tails_le hbytes
      omega

/-- A terminal that stands anywhere against one that prints, over a text: they come together, and
the first is ahead by little, or the second goes on printing, and the first is not ahead. -/
theorem lag (h : s.Aligned) (t : Text) :
    (s.read t = (State.ground none).read t ∧
        (printed s t).length ≤ (printed (.ground none) t).length + headStart) ∨
      ((State.ground none).read t = .ground none ∧
        (printed s t).length ≤ (printed (.ground none) t).length) := by
  induction t generalizing s with
  | nil => exact .inr ⟨rfl, Nat.le_refl _⟩
  | cons c t ih =>
    by_cases hground : s = .ground none
    · subst hground
      exact .inl ⟨rfl, Nat.le_add_right _ _⟩
    rw [read_cons s, read_cons (.ground none), printed_cons s, printed_cons (.ground none),
      List.length_append, List.length_append]
    rcases lag_char h hground c with ⟨hsame, hle⟩ | ⟨hprints, hle⟩
    · rw [hsame]
      exact .inl ⟨rfl, by omega⟩
    · rw [hprints]
      rcases ih (aligned_read_char h c) with ⟨hsame, hrest⟩ | ⟨hstill, hrest⟩
      · exact .inl ⟨hsame, by omega⟩
      · exact .inr ⟨hstill, by omega⟩

end CompilerTrials.Escape
