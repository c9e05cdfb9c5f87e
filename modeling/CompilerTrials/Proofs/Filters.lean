import CompilerTrials.Proofs.Utf8
import CompilerTrials.Selection
import Mathlib.Data.List.Basic

/-!
# Filters of a selection

A selection looks at its filters as two sets: how often a filter is given, and in which order, makes
no difference. Without include filters nothing is left out for want of one, so the first of them
narrows a selection, and every further one widens it.

* `Utf8.encode_infix_iff`: to look for a text among bytes is to look for it among characters. No
  character begins within the bytes of another.
* `Selection.Matches`, `Selection.accepts_iff`: when a filter matches a name, and when a name is
  selected.
* `Selection.Narrows`: what is selected by the one is selected by the other.
* `Selection.accepts_of_sets`: which changes of the filters leave a selection as it is, narrow it or
  widen it.
-/

namespace CompilerTrials

/-! ## Parts of a text and of its bytes -/

namespace Utf8

variable {b : UInt8} {bs post : ByteString} {c d : Char} {t u : Text}

/-- A character begins with a byte that is none of those after the first. -/
theorem not_isTail_of_encode (h : String.utf8EncodeChar c = b :: bs) : ¬ IsTail b := by
  intro htail
  have hmalformed : next none b = .malformed := lead_of_isTail htail
  have hcompletes := completes_encode c
  rw [h] at hcompletes
  cases hcompletes with
  | last hlead => cases hmalformed.symm.trans hlead
  | more hlead _ => cases hmalformed.symm.trans hlead

theorem isTail_of_encode (h : String.utf8EncodeChar c = b :: bs) : ∀ x ∈ bs, IsTail x := by
  rcases encodeChar_cases c with ⟨-, hbytes⟩ | ⟨first, tails, hbytes, -, htails⟩
  · rw [hbytes] at h
    obtain ⟨-, rfl⟩ := List.cons.inj h
    intro x hx
    cases hx
  · rw [hbytes] at h
    obtain ⟨-, rfl⟩ := List.cons.inj h
    exact htails

theorem exists_encodeChar (c : Char) : ∃ b bs, String.utf8EncodeChar c = b :: bs :=
  List.exists_cons_of_ne_nil String.utf8EncodeChar_ne_nil

/-- Bytes that begin with a whole character begin with no other. -/
theorem encodeChar_append_inj (h : String.utf8EncodeChar c ++ bs = String.utf8EncodeChar d ++ post) :
    c = d := by
  have hread := congrArg (decodeLossyFrom none) h
  rw [decodeLossyFrom_of_completes (completes_encode c),
    decodeLossyFrom_of_completes (completes_encode d)] at hread
  exact (List.cons.inj hread).1

theorem prefix_of_encode (h : encode t ++ post = encode u) : t <+: u := by
  induction t generalizing u with
  | nil => exact List.nil_prefix
  | cons c t ih =>
    rw [encode_cons, List.append_assoc] at h
    cases u with
    | nil =>
      obtain ⟨b, bs, hbytes⟩ := exists_encodeChar c
      rw [hbytes] at h
      cases h
    | cons d u =>
      rw [encode_cons] at h
      obtain rfl := encodeChar_append_inj h
      have hrest := ih (List.append_cancel_left h)
      exact (List.prefix_cons_inj c).mpr hrest

/-- The bytes of a text stand among those of another only where the text stands in the other. -/
theorem infix_of_encode {pre : ByteString} (h : pre ++ (encode (c :: t) ++ post) = encode u) :
    c :: t <:+: u := by
  obtain ⟨b, bs, hbytes⟩ := exists_encodeChar c
  induction u generalizing pre with
  | nil =>
    rw [encode_cons, hbytes] at h
    exact absurd h (by simp)
  | cons d u ih =>
    cases pre with
    | nil => exact (prefix_of_encode h).isInfix
    | cons x pre =>
      obtain ⟨y, tails, hfirst⟩ := exists_encodeChar d
      rw [encode_cons u, hfirst, List.cons_append, List.cons_append] at h
      obtain ⟨-, hrest⟩ := List.cons.inj h
      rcases List.append_eq_append_iff.mp hrest with ⟨more, htails, hfound⟩ | ⟨more, -, hlater⟩
      · cases more with
        | nil =>
          have hat : ([] : ByteString) ++ (encode (c :: t) ++ post) = encode u := hfound
          exact List.infix_cons (ih hat)
        | cons z more =>
          -- the text would begin with a byte that stands within the character `d`
          rw [encode_cons, hbytes] at hfound
          obtain ⟨rfl, -⟩ := List.cons.inj hfound
          have htail := isTail_of_encode hfirst b (htails ▸ List.mem_append_right _ List.mem_cons_self)
          exact absurd htail (not_isTail_of_encode hbytes)
      · exact List.infix_cons (ih hlater.symm)

theorem encode_infix_iff : encode t <:+: encode u ↔ t <:+: u := by
  constructor
  · rintro ⟨pre, post, h⟩
    cases t with
    | nil => exact List.nil_infix
    | cons c t =>
      rw [List.append_assoc] at h
      exact infix_of_encode h
  · rintro ⟨before, after, rfl⟩
    exact ⟨encode before, encode after, by simp [encode]⟩

end Utf8

namespace Selection

variable {s s' : Selection} {exact : Bool} {filter name : Text} {filters : List Text}

/-! ## Matches -/

/-- An exact filter matches the name that it is; any other matches each name that it stands in. -/
def Matches (exact : Bool) (filter name : Text) : Prop :=
  if exact then filter = name else filter <:+: name

theorem filterMatches_iff : filterMatches exact name filter = true ↔ Matches exact filter name := by
  cases exact with
  | true => exact decide_eq_true_iff
  | false => exact Text.occursIn_iff

theorem matchesAny_iff :
    matchesAny exact name filters = true ↔ ∃ f ∈ filters, Matches exact f name := by
  simp only [matchesAny, List.any_eq_true, filterMatches_iff]

theorem accepts_iff : s.accepts name = true ↔
    (s.included = [] ∨ ∃ f ∈ s.included, Matches s.exact f name) ∧
      ∀ f ∈ s.excluded, ¬ Matches s.exact f name := by
  rw [accepts, Bool.and_eq_true, Bool.or_eq_true, Bool.not_eq_true', ← Bool.not_eq_true,
    List.isEmpty_iff, matchesAny_iff, matchesAny_iff]
  simp only [not_exists, not_and]

theorem matches_empty (name : Text) : Matches false [] name := List.nil_infix

theorem matches_of_exact (h : Matches true filter name) : Matches false filter name := by
  obtain rfl : filter = name := h
  exact List.infix_rfl

/-! ## Narrower and wider selections -/

/-- All that makes a selection no wider than another: it has include filters, and only such as the
other has too, or the other has none; and it has all exclude filters of the other. -/
structure Narrows (s s' : Selection) : Prop where
  exact : s.exact = s'.exact
  included : s'.included = [] ∨ s.included ≠ [] ∧ s.included ⊆ s'.included
  excluded : s'.excluded ⊆ s.excluded

namespace Narrows

theorem accepts (h : s.Narrows s') (hname : s.accepts name = true) : s'.accepts name = true := by
  obtain ⟨hexact, hincluded, hexcluded⟩ := h
  rw [accepts_iff] at hname ⊢
  rw [← hexact]
  obtain ⟨hopen, hfree⟩ := hname
  constructor
  · rcases hincluded with hnone | ⟨hsome, hsub⟩
    · exact .inl hnone
    · obtain ⟨f, hf, hmatches⟩ := hopen.resolve_left hsome
      exact .inr ⟨f, hsub hf, hmatches⟩
  · intro f hf
    exact hfree f (hexcluded hf)

theorem sublist (h : s.Narrows s') (names : List Text) :
    (names.filter s.accepts).Sublist (names.filter s'.accepts) := by
  apply List.monotone_filter_right
  intro name
  exact h.accepts

theorem filter_eq (h : s.Narrows s') (h' : s'.Narrows s) (names : List Text) :
    names.filter s.accepts = names.filter s'.accepts := by
  apply List.filter_congr
  intro name _
  exact Bool.eq_iff_iff.mpr ⟨h.accepts, h'.accepts⟩

/-- Order and repetition of the filters make no selection wider. -/
theorem of_sets (hexact : s.exact = s'.exact) (hincluded : ∀ f, f ∈ s.included ↔ f ∈ s'.included)
    (hexcluded : ∀ f, f ∈ s.excluded ↔ f ∈ s'.excluded) : s.Narrows s' := by
  refine ⟨hexact, ?_, ?_⟩
  · by_cases hnone : s'.included = []
    · exact .inl hnone
    · obtain ⟨f, hf⟩ := List.exists_mem_of_ne_nil _ hnone
      exact .inr ⟨List.ne_nil_of_mem ((hincluded f).mpr hf), fun f hf => (hincluded f).mp hf⟩
  · intro f hf
    exact (hexcluded f).mpr hf

end Narrows

/-- Without exclude filters, exact filters select no name that the same filters do not select
elsewhere in a name. -/
theorem sublist_of_exact (h : s.excluded = []) (names : List Text) :
    (names.filter { s with exact := true }.accepts).Sublist
      (names.filter { s with exact := false }.accepts) := by
  apply List.monotone_filter_right
  intro name hname
  rw [accepts_iff] at hname ⊢
  obtain ⟨hopen, -⟩ := hname
  constructor
  · apply hopen.imp_right
    rintro ⟨f, hf, hmatches⟩
    exact ⟨f, hf, matches_of_exact hmatches⟩
  · intro f hf
    rw [h] at hf
    cases hf

/-- A name is selected if an include filter matches it, or there is none, and no exclude filter
does. So the filters count as sets; an exclude filter more selects no further name, and an include
filter more, where there is one already, loses none; and without exclude filters an exact selection
is part of the one by contained texts. -/
theorem accepts_of_sets (s : Selection) (names : List Text) :
    (∀ name, s.accepts name = true ↔
      (s.included = [] ∨ ∃ f ∈ s.included, Matches s.exact f name) ∧
        ∀ f ∈ s.excluded, ¬ Matches s.exact f name) ∧
    (∀ f name, (Matches true f name ↔ f = name) ∧ (Matches false f name ↔ f <:+: name) ∧
      (f <:+: name ↔ Utf8.encode f <:+: Utf8.encode name)) ∧
    (∀ name, Matches false [] name ∧ (Matches true [] name ↔ name = [])) ∧
    (∀ s' : Selection, s'.exact = s.exact → (∀ f, f ∈ s'.included ↔ f ∈ s.included) →
      (∀ f, f ∈ s'.excluded ↔ f ∈ s.excluded) →
      names.filter s'.accepts = names.filter s.accepts) ∧
    (∀ excluded, s.excluded ⊆ excluded →
      (names.filter { s with excluded }.accepts).Sublist (names.filter s.accepts)) ∧
    (∀ included, s.included ≠ [] → s.included ⊆ included →
      (names.filter s.accepts).Sublist (names.filter { s with included }.accepts)) ∧
    (s.excluded = [] → (names.filter { s with exact := true }.accepts).Sublist
      (names.filter { s with exact := false }.accepts)) := by
  refine ⟨fun name => accepts_iff, ?_, ?_, ?_, ?_, ?_, fun h => sublist_of_exact h names⟩
  · intro f name
    exact ⟨Iff.rfl, Iff.rfl, Utf8.encode_infix_iff.symm⟩
  · intro name
    exact ⟨matches_empty name, eq_comm⟩
  · intro s' hexact hincluded hexcluded
    have hnarrows : s'.Narrows s := .of_sets hexact hincluded hexcluded
    have hwidens : s.Narrows s' :=
      .of_sets hexact.symm (fun f => (hincluded f).symm) (fun f => (hexcluded f).symm)
    exact hnarrows.filter_eq hwidens names
  · intro excluded hsub
    apply Narrows.sublist
    refine ⟨rfl, ?_, hsub⟩
    by_cases hnone : s.included = []
    · exact .inl hnone
    · exact .inr ⟨hnone, List.Subset.refl _⟩
  · intro included hsome hsub
    apply Narrows.sublist
    exact ⟨rfl, .inr ⟨hsome, hsub⟩, List.Subset.refl _⟩

namespace Sample

def listed : List Text :=
  ["success::aaab".toList, "success::naïve".toList, "error::ïa".toList, "error::aab".toList]

def filtered : Selection where
  included := ["aab".toList, "ï".toList]
  excluded := ["error::a".toList]

def whole : Selection := { included := ["success::aaab".toList, "ab".toList] }

end Sample

/-- One name holds its filter behind a part of it, two hold a character of two bytes, and one is
taken out again. -/
theorem accepts_of_sets_sample :
    Sample.listed.filter Sample.filtered.accepts =
        ["success::aaab".toList, "success::naïve".toList, "error::ïa".toList] ∧
      Sample.listed.filter { Sample.filtered with
          included := ["ï".toList, "aab".toList, "ï".toList] }.accepts =
        Sample.listed.filter Sample.filtered.accepts ∧
      (Sample.listed.filter { Sample.filtered with
          excluded := ["naï".toList, "error::a".toList] }.accepts).Sublist
        (Sample.listed.filter Sample.filtered.accepts) ∧
      (Sample.listed.filter Sample.filtered.accepts).Sublist
        (Sample.listed.filter { Sample.filtered with
          included := ["aab".toList, "ï".toList, "s".toList] }.accepts) ∧
      (Sample.listed.filter { Sample.whole with exact := true }.accepts).Sublist
        (Sample.listed.filter { Sample.whole with exact := false }.accepts) := by
  obtain ⟨-, -, -, hsets, hexclude, hinclude, -⟩ := accepts_of_sets Sample.filtered Sample.listed
  obtain ⟨-, -, -, -, -, -, hexact⟩ := accepts_of_sets Sample.whole Sample.listed
  refine ⟨by decide, hsets _ rfl ?_ (fun _ => Iff.rfl), hexclude _ ?_, hinclude _ ?_ ?_, hexact rfl⟩
  · intro f
    simp only [Sample.filtered, List.mem_cons, List.not_mem_nil, or_false]
    constructor
    · rintro (hsecond | hfirst | hsecond)
      · exact .inr hsecond
      · exact .inl hfirst
      · exact .inr hsecond
    · rintro (hfirst | hsecond)
      · exact .inr (.inl hfirst)
      · exact .inl hsecond
  · exact List.subset_cons_self _ _
  · exact List.cons_ne_nil _ _
  · exact List.subset_append_left _ ["s".toList]

end Selection

end CompilerTrials
