import CompilerTrials.Proofs.Utf8
import CompilerTrials.Text.Escape

/-!
# Stripped texts

A terminal reads bytes, but it stands between two characters again after each character of the
text, whatever it takes the bytes for. So a stripped text is made of characters of the text, and of
replacement characters where a device control string ends in the middle of one.

* `Escape.mem_strip`: the characters of a stripped text.
* `Escape.strip_strip`: nothing is left to strip.
-/

namespace CompilerTrials.Escape

open Utf8 (Completes IsTail)

variable {s : State} {b : UInt8} {bs : ByteString} {c d : Char} {t : Text}

/-- The terminal stands between two characters. -/
def State.Aligned : State → Prop
  | .ground (some _) => False
  | _ => True

theorem aligned_ite {p : Prop} [Decidable p] {s s' : State} (h : s.Aligned) (h' : s'.Aligned) :
    (if p then s else s').Aligned := by
  split
  · exact h
  · exact h'

theorem aligned_advance (h : s.Aligned) (b : UInt8) : (s.advance b).Aligned := by
  cases s with
  | ground held => exact h
  | _ =>
    repeat' apply aligned_ite
    all_goals trivial

/-- What stands in the place of a character: nothing, the character, or replacements. -/
def Shows (c : Char) (out : Text) : Prop :=
  ∀ d ∈ out, (d = c ∨ d = Utf8.replacement) ∧ print d = [d]

theorem shows_nil : Shows c [] := fun _ hd => by cases hd

theorem shows_replacement : Shows c [Utf8.replacement] := fun d hd => by
  rw [List.mem_singleton.mp hd]
  exact ⟨.inr rfl, by decide +kernel⟩

theorem shows_print (c : Char) : Shows c (print c) := by
  intro d hd
  unfold print at hd
  split at hd
  · next h =>
    rw [List.mem_singleton.mp hd, h]
    exact ⟨.inl rfl, by decide +kernel⟩
  split at hd
  · cases hd
  · next hfeed hcontrol =>
    rw [List.mem_singleton.mp hd]
    refine ⟨.inl rfl, ?_⟩
    rw [print, if_neg hfeed, if_neg hcontrol]

/-- What the terminal makes of some bytes of a character: it prints a text in its place and stands
between two characters then. -/
def Passes (c : Char) (s : State) (bs : ByteString) : Prop :=
  ∃ out s', (∀ rest, stripFrom s (bs ++ rest) = out ++ stripFrom s' rest) ∧ Shows c out ∧
    s'.Aligned

theorem Passes.nil (h : s.Aligned) : Passes c s [] := ⟨[], s, fun _ => rfl, shows_nil, h⟩

theorem Passes.cons (hshows : Shows c (s.step b).1) (h : Passes c (s.step b).2 bs) :
    Passes c s (b :: bs) := by
  obtain ⟨out, s', hstrip, hout, haligned⟩ := h
  refine ⟨(s.step b).1 ++ out, s', fun rest => ?_, ?_, haligned⟩
  · rw [List.cons_append, stripFrom, hstrip, List.append_assoc]
  · intro d hd
    rcases List.mem_append.mp hd with hd | hd
    · exact hshows d hd
    · exact hout d hd

theorem eq_newline_of_byte (hc : c.toNat < 0x80) (h : UInt8.ofNat c.toNat = 0x0A) : c = '\n' := by
  have hvalue : c.toNat = 0x0A := by
    rw [← Utf8.toNat_byte (n := c.toNat) (by omega), h]
    rfl
  exact Char.toNat_inj.mp hvalue

/-- Of the controls only the line feed is printed. -/
theorem shows_execute (hc : c.toNat < 0x80) : Shows c (execute (UInt8.ofNat c.toNat)) := by
  intro d hd
  unfold execute at hd
  split at hd
  · next h =>
    rw [List.mem_singleton.mp hd, eq_newline_of_byte hc h]
    exact ⟨.inl rfl, by decide +kernel⟩
  · cases hd

theorem shows_ite_nil {p : Prop} [Decidable p] {out : Text} (h : Shows c out) :
    Shows c (if p then out else []) := by
  split
  · exact h
  · exact shows_nil

theorem step_of_sequence (h : ∀ held, s ≠ .ground held) (b : UInt8) :
    s.step b = (if s.executes then execute b else [], s.advance b) := by
  cases s with
  | ground held => exact absurd rfl (h held)
  | _ => rfl

theorem toNat_ne_of_ge {x : UInt8} (hx : x.toNat < 0x80) (hb : 0x80 ≤ b.toNat) : b ≠ x := by
  rintro rfl
  omega

/-- In a sequence, a byte that is not ASCII prints nothing. -/
theorem step_of_high (h : ∀ held, s ≠ .ground held) (hb : 0x80 ≤ b.toNat) :
    s.step b = ([], s.advance b) := by
  have hexecute : execute b = [] := if_neg (toNat_ne_of_ge (by decide) hb)
  rw [step_of_sequence h, hexecute, ite_self]

/-- Where no sequence has begun, a byte that is not the first of a character prints a replacement
at most. -/
theorem step_of_tail (hb : IsTail b) :
    (State.ground none).step b = (if b < 0xA0 then [] else [Utf8.replacement], .ground none) := by
  have hne : b ≠ 0x1B := toNat_ne_of_ge (by decide) hb.1
  simp only [State.step, groundLead, if_neg hne, Utf8.lead_of_isTail hb]

/-- The bytes after the first, whatever the terminal took the first for. -/
theorem passes_tails (h : s.Aligned) (hbs : ∀ b ∈ bs, IsTail b) : Passes c s bs := by
  induction bs generalizing s with
  | nil => exact .nil h
  | cons b bs ih =>
    obtain ⟨hb, hrest⟩ := List.forall_mem_cons.mp hbs
    -- the first byte may have ended a sequence; the others are no characters then
    by_cases hground : s = .ground none
    · subst hground
      refine .cons ?_ ?_
      · rw [step_of_tail hb]
        dsimp only
        split
        · exact shows_nil
        · exact shows_replacement
      · rw [step_of_tail hb]
        exact ih trivial hrest
    · have hsequence : ∀ held, s ≠ .ground held := by
        rintro (_ | p) rfl
        · exact hground rfl
        · exact h
      refine .cons ?_ ?_
      · rw [step_of_high hsequence hb.1]
        exact shows_nil
      · rw [step_of_high hsequence hb.1]
        exact ih (aligned_advance h b) hrest

/-- A character is printed where no sequence has begun. -/
theorem stripFrom_of_completes {held : Option Utf8.Partial} (h : Completes held bs c)
    (hc : c ≠ '\x1b') (rest : ByteString) :
    stripFrom (.ground held) (bs ++ rest) = print c ++ stripFrom (.ground none) rest := by
  have hlead : Utf8.lead 0x1B = .complete '\x1b' := by decide +kernel
  induction h with
  | @last held b c h =>
    cases held with
    | none =>
      have hb : b ≠ 0x1B := by
        rintro rfl
        exact hc (Utf8.Progress.complete.inj (h.symm.trans hlead))
      simp only [Utf8.next] at h
      simp only [List.singleton_append, stripFrom, State.step, groundLead, if_neg hb, h]
    | some p =>
      simp only [Utf8.next] at h
      simp only [List.singleton_append, stripFrom, State.step, h]
  | @more held b p bs c h _ ih =>
    cases held with
    | none =>
      have hb : b ≠ 0x1B := by
        rintro rfl
        cases h.symm.trans hlead
      simp only [Utf8.next] at h
      simp only [List.cons_append, stripFrom, State.step, groundLead, if_neg hb, h]
      exact ih hc
    | some q =>
      simp only [Utf8.next] at h
      simp only [List.cons_append, stripFrom, State.step, h]
      exact ih hc

theorem passes_encode (h : s.Aligned) (c : Char) : Passes c s (String.utf8EncodeChar c) := by
  by_cases hground : s = .ground none
  · subst hground
    by_cases hc : c = '\x1b'
    · subst hc
      exact .cons shows_nil (.nil trivial)
    · exact ⟨print c, .ground none, stripFrom_of_completes (Utf8.completes_encode c) hc,
        shows_print c, trivial⟩
  · have hsequence : ∀ held, s ≠ .ground held := by
      rintro (_ | p) rfl
      · exact hground rfl
      · exact h
    obtain ⟨hc, hbytes⟩ | ⟨b, tails, hbytes, hb, htails⟩ := Utf8.encodeChar_cases c
    · rw [hbytes]
      refine .cons ?_ (.nil ?_)
      · rw [step_of_sequence hsequence]
        exact shows_ite_nil (shows_execute hc)
      · rw [step_of_sequence hsequence]
        exact aligned_advance h _
    · rw [hbytes]
      refine .cons ?_ ?_
      · rw [step_of_high hsequence hb]
        exact shows_nil
      · rw [step_of_high hsequence hb]
        exact passes_tails (aligned_advance h b) htails

/-! ## Texts -/

theorem mem_stripFrom (h : s.Aligned) (hd : d ∈ stripFrom s (Utf8.encode t)) :
    (d ∈ t ∨ d = Utf8.replacement) ∧ print d = [d] := by
  induction t generalizing s with
  | nil => cases hd
  | cons c t ih =>
    obtain ⟨out, s', hstrip, hout, haligned⟩ := passes_encode h c
    rw [Utf8.encode_cons, hstrip] at hd
    rcases List.mem_append.mp hd with hd | hd
    · obtain ⟨hshown, hprint⟩ := hout d hd
      refine ⟨hshown.imp_left fun hc => ?_, hprint⟩
      rw [hc]
      exact List.mem_cons_self
    · obtain ⟨hshown, hprint⟩ := ih haligned hd
      exact ⟨hshown.imp_left (List.mem_cons_of_mem c), hprint⟩

/-- A stripped text is made of characters of the text that are printed, and of replacements. -/
theorem mem_strip (hd : d ∈ strip t) : (d ∈ t ∨ d = Utf8.replacement) ∧ print d = [d] :=
  mem_stripFrom (s := .ground none) trivial hd

theorem strip_of_printed (h : ∀ c ∈ t, print c = [c]) : strip t = t := by
  induction t with
  | nil => rfl
  | cons c t ih =>
    obtain ⟨hprint, hrest⟩ := List.forall_mem_cons.mp h
    have hc : c ≠ '\x1b' := by
      rintro rfl
      revert hprint
      decide +kernel
    have hstrip := stripFrom_of_completes (Utf8.completes_encode c) hc (Utf8.encode t)
    rw [strip, Utf8.encode_cons, hstrip, hprint, ← strip, ih hrest, List.singleton_append]

/-- Nothing is left to strip. -/
theorem strip_strip (t : Text) : strip (strip t) = strip t :=
  strip_of_printed fun _ hc => (mem_strip hc).2

end CompilerTrials.Escape
