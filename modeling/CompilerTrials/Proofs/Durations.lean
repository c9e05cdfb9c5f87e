import CompilerTrials.Report.JUnit
import Mathlib.Algebra.GroupWithZero.Nat
import Mathlib.Algebra.Order.BigOperators.Group.List
import Mathlib.Algebra.Order.Group.Nat
import Mathlib.Data.List.TakeWhile

/-!
# Sums of durations

Durations are added one after the other, and each sum on the way has to be below a limit. As no
duration is negative, the last sum is the largest: a chain of checked additions loses nothing, and
fails only where the whole is too long.

* `Duration.Checked`: the duration of a number of nanoseconds, if that is below a limit.
* `Duration.checked_foldlM`: sums of lists, for any addition that is checked.
* `Duration.checked_total?`, `JUnit.checked_total?`: the total of all runs, and that of a suite of a
  document.
* `JUnit.nanosIn`: the time of the attempted trials of a suite.
* `JUnit.ofResults_of_long`, `JUnit.ofResults_of_overflow`, `JUnit.ofResults_of_held`: the three
  things that can come of the times of the results, and `JUnit.times_cases`: one of them does.
* `JUnit.reached`: the suites that are written; `JUnit.text_draft_eq`: what is written of them.
-/

namespace CompilerTrials

namespace Duration

variable {limit n : Nat} {sum? : Option Duration} {start : Duration}

/-- The duration of `n` nanoseconds if these are below the limit, and none otherwise. -/
inductive Checked (limit n : Nat) : Option Duration → Prop where
  | held {d : Duration} (h : d.toNanos = n) (hlt : n < limit) : Checked limit n (some d)
  | refused (h : limit ≤ n) : Checked limit n none

namespace Checked

theorem eq_none_iff (h : Checked limit n sum?) : sum? = none ↔ limit ≤ n := by
  cases h with
  | held _ hlt => exact iff_of_false (Option.some_ne_none _) (Nat.not_le_of_lt hlt)
  | refused hle => exact iff_of_true rfl hle

theorem exists_of_lt (h : Checked limit n sum?) (hlt : n < limit) :
    ∃ d, sum? = some d ∧ d.toNanos = n := by
  cases h with
  | held hd _ => exact ⟨_, rfl, hd⟩
  | refused hle => exact absurd hlt (Nat.not_lt_of_le hle)

theorem eq_some {d : Duration} (h : Checked limit n sum?) (hd : d.toNanos = n) (hlt : n < limit) :
    sum? = some d := by
  obtain ⟨d', hsum, hd'⟩ := h.exists_of_lt hlt
  rw [hsum, toNanos_inj (hd'.trans hd.symm)]

/-- What is checked depends on the number of nanoseconds alone. -/
theorem unique {sum?' : Option Duration} (h : Checked limit n sum?) (h' : Checked limit n sum?') :
    sum?' = sum? := by
  cases h with
  | held hd hlt => exact h'.eq_some hd hlt
  | refused hle => exact h'.eq_none_iff.mpr hle

end Checked

/-- A chain of checked additions checks the exact sum. -/
theorem checked_foldlM {add? : Duration → Duration → Option Duration}
    (hadd : ∀ a b, Checked limit (a.toNanos + b.toNanos) (add? a b))
    (hstart : start.toNanos < limit) (ds : List Duration) :
    Checked limit (start.toNanos + (ds.map toNanos).sum) (ds.foldlM add? start) := by
  induction ds generalizing start with
  | nil =>
    rw [List.map_nil, List.sum_nil, Nat.add_zero]
    exact .held rfl hstart
  | cons d ds ih =>
    rw [List.foldlM_cons, List.map_cons, List.sum_cons]
    have hfirst := hadd start d
    generalize add? start d = sum? at hfirst ⊢
    cases hfirst with
    | refused hlarge =>
      -- what follows only adds to it
      exact .refused (by omega)
    | @held next hnext hlt =>
      have hrest := ih (hnext.symm ▸ hlt)
      rwa [hnext, Nat.add_assoc] at hrest

theorem checked_add? (a b : Duration) :
    Checked (18446744073709551616 * 1000000000) (a.toNanos + b.toNanos) (a.add? b) := by
  cases hsum : a.add? b with
  | none => exact .refused (add?_eq_none_iff.mp hsum)
  | some c =>
    have hlt : ¬ 18446744073709551616 * 1000000000 ≤ a.toNanos + b.toNanos := by
      rw [← add?_eq_none_iff, hsum]
      exact Option.some_ne_none c
    exact .held (toNanos_of_add? hsum) (Nat.lt_of_not_le hlt)

theorem toNanos_zero : zero.toNanos = 0 := rfl

/-- The total of all runs is exact, or it needs 2^64 seconds. -/
theorem checked_total? (ds : List Duration) :
    Checked (18446744073709551616 * 1000000000) (ds.map toNanos).sum (total? ds) := by
  have hzero : zero.toNanos < 18446744073709551616 * 1000000000 := by decide
  have h := checked_foldlM checked_add? hzero ds
  rwa [toNanos_zero, Nat.zero_add] at h

end Duration

theorem Suite.mem_all (s : Suite) : s ∈ all := by cases s <;> decide

open Duration (Checked)

namespace JUnit

variable {d : Duration} {ds : List Duration} {rs : Results} {s : Suite}

/-- The nanoseconds of some durations. -/
def nanosOf (ds : List Duration) : Nat := (ds.map Duration.toNanos).sum

theorem nanosOf_le_of_sublist {part : List Duration} (h : part.Sublist ds) :
    nanosOf part ≤ nanosOf ds :=
  (h.map Duration.toNanos).sum_le_sum fun n _ => Nat.zero_le n

theorem toNanos_le_nanosOf (h : d ∈ ds) : d.toNanos ≤ nanosOf ds := by
  have hone : nanosOf [d] = d.toNanos := List.sum_singleton
  rw [← hone]
  exact nanosOf_le_of_sublist (List.singleton_sublist.mpr h)

theorem holds_iff (d : Duration) : holds d = true ↔ d.toNanos < secondsLimit * 1000000000 := by
  have hnanos := d.nanos_lt
  unfold holds secondsLimit Duration.toNanos
  rw [decide_eq_true_iff]
  omega

theorem checked_add? (a b : Duration) :
    Checked (secondsLimit * 1000000000) (a.toNanos + b.toNanos) (add? a b) := by
  unfold add?
  have hsum := Duration.checked_add? a b
  generalize a.add? b = sum? at hsum ⊢
  cases hsum with
  | refused hlarge =>
    refine .refused ?_
    unfold secondsLimit
    omega
  | @held c hc _ =>
    by_cases hholds : holds c = true
    · rw [Option.filter_some, if_pos hholds]
      exact .held hc (hc ▸ (holds_iff c).mp hholds)
    · rw [Option.filter_some, if_neg hholds]
      have hlarge := Nat.le_of_not_lt fun hlt => hholds ((holds_iff c).mpr hlt)
      exact .refused (hc ▸ hlarge)

/-- The time of a suite is exact, or it needs 2^63 seconds. -/
theorem checked_total? (ds : List Duration) :
    Checked (secondsLimit * 1000000000) (nanosOf ds) (total? ds) := by
  have hzero : Duration.zero.toNanos < secondsLimit * 1000000000 := by decide
  have h := Duration.checked_foldlM checked_add? hzero ds
  rwa [Duration.toNanos_zero, Nat.zero_add] at h

/-! ## Times of documents -/

/-- The nanoseconds of the attempted trials of a suite. -/
def nanosIn (rs : Results) (s : Suite) : Nat :=
  nanosOf (((rs.ofSuite s).filter (fun r => !r.isSkipped)).map TrialResult.duration)

theorem nanosIn_le (rs : Results) (s : Suite) :
    nanosIn rs s ≤ nanosOf (rs.list.map TrialResult.duration) :=
  nanosOf_le_of_sublist ((List.filter_sublist.trans List.filter_sublist).map TrialResult.duration)

/-- What was left out takes no time. -/
theorem toNanos_time_ofResult (color verbose : Bool) (r : TrialResult) :
    (ofResult color verbose r).time.toNanos = if r.isSkipped then 0 else r.duration.toNanos := by
  unfold ofResult TrialResult.isSkipped
  cases r.verdict with
  | none => rw [Option.isNone_none, if_pos rfl, Duration.toNanos_zero]
  | some v =>
    rw [Option.isNone_some, if_neg Bool.false_ne_true]
    cases v with
    | pass => rfl
    | fail => rfl

theorem nanosOf_times (color verbose : Bool) (l : List TrialResult) :
    nanosOf ((l.map (ofResult color verbose)).map TestCase.time) =
      nanosOf ((l.filter (fun r => !r.isSkipped)).map TrialResult.duration) := by
  unfold nanosOf
  induction l with
  | nil => rfl
  | cons r l ih =>
    rw [List.map_cons, List.map_cons, List.map_cons, List.sum_cons, ih, toNanos_time_ofResult]
    by_cases hskipped : r.isSkipped = true
    · rw [if_pos hskipped, Nat.zero_add, List.filter_cons_of_neg (by simp [hskipped])]
    · rw [if_neg hskipped, List.filter_cons_of_pos (by simp [hskipped]), List.map_cons,
        List.map_cons, List.sum_cons]

/-- The time of a suite is that of its attempted trials, if it can be held. -/
theorem checked_casesOf (color verbose : Bool) (rs : Results) (s : Suite) :
    Checked (secondsLimit * 1000000000) (nanosIn rs s)
      (total? ((casesOf color verbose rs s).map TestCase.time)) := by
  have htotal := checked_total? ((casesOf color verbose rs s).map TestCase.time)
  rwa [casesOf, nanosOf_times] at htotal

theorem suite?_of_overflow (h : secondsLimit * 1000000000 ≤ nanosIn rs s) (color verbose : Bool) :
    suite? s (casesOf color verbose rs s) = none := by
  rw [suite?, (checked_casesOf color verbose rs s).eq_none_iff.mpr h]
  rfl

theorem suite?_of_held (h : nanosIn rs s < secondsLimit * 1000000000)
    (hd : d.toNanos = nanosIn rs s) (color verbose : Bool) :
    suite? s (casesOf color verbose rs s) = some ⟨s.name, d, casesOf color verbose rs s⟩ := by
  rw [suite?, (checked_casesOf color verbose rs s).eq_some hd h]
  rfl

theorem mapM_suites {α : Type} (f : Suite → Option α) :
    Suite.all.mapM f = (f .success).bind fun a => (f .error).bind fun b => some [a, b] := rfl

/-- The document of the results, with these times. -/
def document (color verbose : Bool) (rs : Results) (time : Suite → Duration) : Document :=
  Suite.all.map fun s => ⟨s.name, time s, casesOf color verbose rs s⟩

/-! ### What comes of the times -/

theorem all_holds (h : ∀ r ∈ rs.list, r.duration.secs < secondsLimit) :
    rs.list.all (fun r => holds r.duration) = true := by
  rw [List.all_eq_true]
  intro r hr
  exact decide_eq_true (h r hr)

/-- One time alone is too long. -/
theorem ofResults_of_long (h : ∃ r ∈ rs.list, secondsLimit ≤ r.duration.secs)
    (color verbose : Bool) : ofResults color verbose rs =
      .error (.error (.report "Source value is out of range for the target type".toList)) := by
  obtain ⟨r, hr, hlong⟩ := h
  have hnot : ¬ rs.list.all (fun r => holds r.duration) = true := by
    intro hall
    exact Nat.not_lt_of_le hlong (of_decide_eq_true (List.all_eq_true.mp hall r hr))
  exact if_neg hnot

/-- All times can be held, and those of a suite cannot be added. -/
theorem ofResults_of_overflow (h : ∀ r ∈ rs.list, r.duration.secs < secondsLimit)
    (hsum : secondsLimit * 1000000000 ≤ nanosIn rs s) (color verbose : Bool) :
    ofResults color verbose rs = .error (.overflow .suite) := by
  have hnone := suite?_of_overflow hsum color verbose
  rw [ofResults, if_pos (all_holds h), mapM_suites]
  cases s with
  | success =>
    rw [hnone]
    rfl
  | error =>
    rw [hnone]
    cases suite? .success (casesOf color verbose rs .success) with
    | none => rfl
    | some first => rfl

/-- Each suite has a time that is exact where it can be held. -/
theorem exists_time (rs : Results) : ∃ time : Suite → Duration,
    ∀ s, nanosIn rs s < secondsLimit * 1000000000 → (time s).toNanos = nanosIn rs s := by
  have hexists (s : Suite) : ∃ d : Duration,
      nanosIn rs s < secondsLimit * 1000000000 → d.toNanos = nanosIn rs s := by
    by_cases hsum : nanosIn rs s < secondsLimit * 1000000000
    · obtain ⟨d, -, hd⟩ := (checked_casesOf false false rs s).exists_of_lt hsum
      exact ⟨d, fun _ => hd⟩
    · exact ⟨.zero, fun h => absurd h hsum⟩
  exact Classical.axiomOfChoice hexists

/-- All times can be held and added. -/
theorem ofResults_eq_document (h : ∀ r ∈ rs.list, r.duration.secs < secondsLimit)
    (hsum : ∀ s, nanosIn rs s < secondsLimit * 1000000000) {time : Suite → Duration}
    (htime : ∀ s, (time s).toNanos = nanosIn rs s) (color verbose : Bool) :
    ofResults color verbose rs = .ok (document color verbose rs time) := by
  rw [ofResults, if_pos (all_holds h), mapM_suites, suite?_of_held (hsum .success) (htime .success),
    suite?_of_held (hsum .error) (htime .error)]
  rfl

theorem ofResults_of_held (h : ∀ r ∈ rs.list, r.duration.secs < secondsLimit)
    (hsum : ∀ s, nanosIn rs s < secondsLimit * 1000000000) :
    ∃ time : Suite → Duration, (∀ s, (time s).toNanos = nanosIn rs s) ∧
      ∀ color verbose, ofResults color verbose rs = .ok (document color verbose rs time) := by
  obtain ⟨time, htime⟩ := exists_time rs
  have hexact (s : Suite) : (time s).toNanos = nanosIn rs s := htime s (hsum s)
  exact ⟨time, hexact, ofResults_eq_document h hsum hexact⟩

/-- Which of the three it is. -/
theorem times_cases (rs : Results) :
    (∃ r ∈ rs.list, secondsLimit ≤ r.duration.secs) ∨
      (∀ r ∈ rs.list, r.duration.secs < secondsLimit) ∧
        ((∃ s, secondsLimit * 1000000000 ≤ nanosIn rs s) ∨
          ∀ s, nanosIn rs s < secondsLimit * 1000000000) := by
  by_cases hlong : ∃ r ∈ rs.list, secondsLimit ≤ r.duration.secs
  · exact .inl hlong
  · refine .inr ⟨fun r hr => Nat.lt_of_not_le fun hle => hlong ⟨r, hr, hle⟩, ?_⟩
    by_cases hsum : ∃ s, secondsLimit * 1000000000 ≤ nanosIn rs s
    · exact .inl hsum
    · exact .inr fun s => Nat.lt_of_not_le fun hle => hsum ⟨s, hle⟩

/-! ### What is written -/

/-- Whether the times of a suite can be added. -/
def fits (rs : Results) (s : Suite) : Bool := nanosIn rs s < secondsLimit * 1000000000

/-- The suites that are written: all if there is a document, and those before the first overflow if
there is none. -/
def reached (rs : Results) : List Suite :=
  if rs.list.all (fun r => holds r.duration) then Suite.all.takeWhile (fits rs) else []

/-- Some suites of the results, with these times. -/
def suitesOf (color verbose : Bool) (rs : Results) (time : Suite → Duration) (ss : List Suite) :
    Document :=
  ss.map fun s => ⟨s.name, time s, casesOf color verbose rs s⟩

theorem reached_of_long (h : ∃ r ∈ rs.list, secondsLimit ≤ r.duration.secs) : reached rs = [] := by
  obtain ⟨r, hr, hlong⟩ := h
  refine if_neg fun hall => Nat.not_lt_of_le hlong ?_
  exact of_decide_eq_true (List.all_eq_true.mp hall r hr)

theorem reached_of_short (h : ∀ r ∈ rs.list, r.duration.secs < secondsLimit) :
    reached rs = Suite.all.takeWhile (fits rs) :=
  if_pos (all_holds h)

theorem reached_of_held (h : ∀ r ∈ rs.list, r.duration.secs < secondsLimit)
    (hsum : ∀ s, nanosIn rs s < secondsLimit * 1000000000) : reached rs = Suite.all := by
  rw [reached_of_short h, List.takeWhile_eq_self_iff]
  exact fun s _ => decide_eq_true (hsum s)

theorem reached_of_overflow (h : ∀ r ∈ rs.list, r.duration.secs < secondsLimit)
    (hsum : secondsLimit * 1000000000 ≤ nanosIn rs s) : reached rs ≠ Suite.all := by
  rw [reached_of_short h]
  intro hall
  have hfits : fits rs s = true := List.takeWhile_eq_self_iff.mp hall s s.mem_all
  exact Nat.not_lt_of_le hsum (of_decide_eq_true hfits)

theorem begun_eq {time : Suite → Duration}
    (htime : ∀ s, nanosIn rs s < secondsLimit * 1000000000 → (time s).toNanos = nanosIn rs s)
    (color verbose : Bool) (ss : List Suite) :
    begun color verbose rs ss = suitesOf color verbose rs time (ss.takeWhile (fits rs)) := by
  induction ss with
  | nil => rfl
  | cons s rest ih =>
    rw [begun]
    by_cases hsum : nanosIn rs s < secondsLimit * 1000000000
    · have hfits : fits rs s = true := decide_eq_true hsum
      rw [suite?_of_held hsum (htime s hsum), List.takeWhile_cons_of_pos hfits]
      exact congrArg (_ :: ·) ih
    · have hfits : ¬ fits rs s = true := fun h => hsum (of_decide_eq_true h)
      rw [suite?_of_overflow (Nat.le_of_not_lt hsum), List.takeWhile_cons_of_neg hfits]
      rfl

/-! ### Drafts -/

variable {timestamp : Text} {f : Failure}

theorem draft_of_document {d : Document} (h : ofResults color verbose rs = .ok d) :
    draft color verbose timestamp rs = ⟨[render timestamp d, ['\n']], none⟩ := by
  rw [draft, h]

theorem stop_of_error (h : ofResults color verbose rs = .error f) :
    (draft color verbose timestamp rs).stop = some f := by
  rw [draft, h]
  cases f <;> rfl

/-- The text of a document ends behind the suites that are written, unless these are all. -/
theorem text_draft_eq (timestamp : Text) (rs : Results) :
    ∃ (time : Suite → Duration) (start stop : Text),
      (start = [] ∨ start = opening) ∧ (stop = [] ∨ stop = "</testsuites>".toList ++ ['\n']) ∧
      ∀ color verbose, (draft color verbose timestamp rs).text =
        start ++ renderSuites timestamp 0 (suitesOf color verbose rs time (reached rs)) ++ stop := by
  obtain ⟨time, htime⟩ := exists_time rs
  obtain hlong | ⟨hshort, ⟨s, hsum⟩ | hsum⟩ := times_cases rs
  · refine ⟨time, [], [], .inl rfl, .inl rfl, fun color verbose => ?_⟩
    rw [draft, ofResults_of_long hlong, reached_of_long hlong]
    rfl
  · refine ⟨time, opening, [], .inr rfl, .inl rfl, fun color verbose => ?_⟩
    rw [draft, ofResults_of_overflow hshort hsum, reached_of_short hshort, ← begun_eq htime]
    rfl
  · refine ⟨time, opening, _, .inr rfl, .inr rfl, fun color verbose => ?_⟩
    have hdocument := ofResults_eq_document hshort hsum (fun s => htime s (hsum s)) color verbose
    rw [draft_of_document hdocument, reached_of_held hshort hsum]
    show render timestamp (document color verbose rs time) ++ (['\n'] ++ []) = _
    rw [render, List.append_assoc, List.append_nil]
    rfl

/-- What stops a document does not depend on colour. -/
theorem stop_draft_color (verbose : Bool) (timestamp : Text) (rs : Results) :
    (draft true verbose timestamp rs).stop = (draft false verbose timestamp rs).stop := by
  obtain hlong | ⟨hshort, ⟨s, hsum⟩ | hsum⟩ := times_cases rs
  · rw [stop_of_error (ofResults_of_long hlong true verbose),
      stop_of_error (ofResults_of_long hlong false verbose)]
  · rw [stop_of_error (ofResults_of_overflow hshort hsum true verbose),
      stop_of_error (ofResults_of_overflow hshort hsum false verbose)]
  · obtain ⟨time, -, hdocument⟩ := ofResults_of_held hshort hsum
    rw [draft_of_document (hdocument true verbose), draft_of_document (hdocument false verbose)]

/-- There is a document exactly if all suites are written. -/
theorem stop_draft_eq_none_iff (color verbose : Bool) (timestamp : Text) (rs : Results) :
    (draft color verbose timestamp rs).stop = none ↔ reached rs = Suite.all := by
  obtain hlong | ⟨hshort, ⟨s, hsum⟩ | hsum⟩ := times_cases rs
  · rw [stop_of_error (ofResults_of_long hlong color verbose), reached_of_long hlong]
    exact iff_of_false nofun nofun
  · rw [stop_of_error (ofResults_of_overflow hshort hsum color verbose)]
    exact iff_of_false nofun (reached_of_overflow hshort hsum)
  · obtain ⟨time, -, hdocument⟩ := ofResults_of_held hshort hsum
    rw [draft_of_document (hdocument color verbose), reached_of_held hshort hsum]
    exact iff_of_true rfl rfl

end JUnit

end CompilerTrials
