import CompilerTrials.Proofs.Coloring

/-!
# Controls in documents

What a terminal prints of details is less than what is left of them when the sequences are taken
out: of the controls below U+0020 only the line feed is printed. So even where there are no
sequences, a tab or a carriage return is missing in a document.

* `Escape.strip_of_plain`: what is left of a text without sequences.
* `JUnit.output_of_plain`: where neither the name nor the command line nor an output holds a
  sequence, a document holds the details without colour, but for their controls.
* `JUnit.not_output_of_plain`: details in which a tab is missing.
-/

namespace CompilerTrials

namespace Escape

variable {c : Char} {t : Text}

/-- The character begins no sequence, nor stands for one. -/
def IsPlain (c : Char) : Prop := c ≠ '\x1b' ∧ ¬ (0x80 ≤ c.toNat ∧ c.toNat < 0xA0)

instance : DecidablePred IsPlain := fun c =>
  inferInstanceAs (Decidable (c ≠ '\x1b' ∧ ¬ (0x80 ≤ c.toNat ∧ c.toNat < 0xA0)))

/-- No control below U+0020, or a line feed. -/
def isKept (c : Char) : Bool := c = '\n' || 0x20 ≤ c.toNat

theorem print_of_plain (h : IsPlain c) : print c = if isKept c then [c] else [] := by
  by_cases hfeed : c = '\n'
  · subst hfeed
    rfl
  · have hcontrol : (c.toNat < 0x20 ∨ 0x80 ≤ c.toNat ∧ c.toNat < 0xA0) ↔ ¬ 0x20 ≤ c.toNat := by
      have hhigh := h.2
      omega
    rw [print, if_neg hfeed]
    simp only [hcontrol, isKept, hfeed, decide_false, Bool.false_or, decide_eq_true_eq, ite_not]

/-- A text without sequences loses its controls, and nothing else. -/
theorem strip_of_plain (h : t.Within IsPlain) : strip t = t.filter isKept := by
  have hescape : '\x1b' ∉ t := fun hmem => (h _ hmem).1 rfl
  rw [strip_eq_printed, printed_of_plain hescape]
  clear hescape
  induction t with
  | nil => rfl
  | cons c t ih =>
    obtain ⟨hc, hrest⟩ := Text.Within.cons_iff.mp h
    rw [List.flatMap_cons, ih hrest, List.filter_cons, print_of_plain hc]
    split <;> rfl

theorem settled_of_within (h : t.Within IsPlain) : Settled t :=
  settled_of_plain fun hmem => (h _ hmem).1 rfl

end Escape

open Escape (IsPlain isKept)

namespace Details

variable {r : TrialResult}

theorem admits_plain : Admits false IsPlain where
  printable c hc := by
    have hescape : c ≠ '\x1b' := by
      rintro rfl
      revert hc
      decide
    exact ⟨hescape, by omega⟩
  newline := by decide
  escape h := nomatch h

theorem settled_indent {contents : Text} (h : contents.Within IsPlain) :
    Escape.Settled (contents.indent captureWidth) := by
  by_cases hne : contents = []
  · subst hne
    rfl
  · refine Escape.settled_of_within ?_
    exact (admits_plain.indent captureWidth hne h).of_subset fun c hc => List.mem_append_left _ hc

/-- Without sequences nothing is left unfinished. -/
theorem settled_of_shows (h : Shows IsPlain r) : Settled r := by
  have hname := Escape.settled_of_within h.name
  unfold Settled
  split
  · trivial
  · exact hname
  · refine ⟨hname, fun i hi => Escape.settled_of_within (h.command i hi), fun run hrun => ?_⟩
    obtain ⟨hstdout, hstderr⟩ := h.output run hrun
    exact ⟨settled_indent hstdout, settled_indent hstderr⟩

end Details

namespace JUnit

variable {r : TrialResult}

/-- Where nothing that the details show holds a sequence, a document holds the details without
colour, but for their controls; so it holds them as they are if they have no controls, and only
then. -/
theorem output_of_plain (h : Details.Shows IsPlain r) (color verbose : Bool) :
    output color verbose r = (Details.ofResult false verbose r).flatten.filter isKept ∧
      (output color verbose r = (Details.ofResult false verbose r).flatten ↔
        ∀ c ∈ (Details.ofResult false verbose r).flatten, isKept c = true) := by
  have hwithin := Details.within_ofResult Details.admits_plain h verbose
  have houtput : output color verbose r =
      (Details.ofResult false verbose r).flatten.filter isKept := by
    have hfalse : output false verbose r = _ := Escape.strip_of_plain hwithin
    cases color with
    | false => exact hfalse
    | true => rw [output_of_settled (Details.settled_of_shows h), hfalse]
  exact ⟨houtput, by rw [houtput, List.filter_eq_self]⟩

namespace Sample

/-- A trial for which the compiler wrote a tab and a carriage return. -/
def table : TrialResult := ran .error "c" "a\tb\r\rc\n".toList .fail

/-- The details of that trial in a document. -/
def tableDetails : Text :=
  Text.unlines ["* Test case: [error::c]... ".toList, "    expected non-zero exit".toList,
    "    exited with 0".toList, "    command: c t".toList,
    "          ------ Compiler: stdout ---------------------------------".toList,
    "          abc".toList, [], "    FAILED.".toList]

end Sample

theorem output_of_plain_sample :
    Details.Shows IsPlain Sample.table ∧ output true false Sample.table = Sample.tableDetails := by
  have hshows : Details.Shows IsPlain Sample.table :=
    ⟨by decide +kernel, by decide +kernel, by decide +kernel⟩
  refine ⟨hshows, (output_of_plain hshows true false).1.trans ?_⟩
  decide +kernel

/-- Without a sequence in it, an output can still lose characters. -/
theorem not_output_of_plain :
    Details.Shows IsPlain Sample.table ∧
      output false false Sample.table ≠ (Details.ofResult false false Sample.table).flatten := by
  refine ⟨⟨?_, ?_, ?_⟩, ?_⟩
  all_goals decide +kernel

end JUnit

end CompilerTrials
