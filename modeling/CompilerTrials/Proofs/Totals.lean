import CompilerTrials.Proofs.Durations
import CompilerTrials.Report

/-!
# The total of all runs

The total is the exact sum of the durations of all runs, or there is none. A sum is refused on the
way only if the whole is refused, so neither the order of the results matters nor where the
nanoseconds are carried.

* `Results.runNanos`: the nanoseconds of all runs, whatever became of their trials.
* `Results.checked_total?`: the total is checked against this sum.
* `Results.runNanos_of_perm`: what is not a run, and the order, make no difference.
* `Report.outcome_summarised`: the reports that hold the total end well exactly when there is one.
* `Results.total_exact`: when there is a total, which one it is, and what does not change it.
-/

namespace CompilerTrials

open Duration (Checked)

namespace Results

variable {rs rs' : Results} {bare : List TrialResult}

/-- The nanoseconds of all runs, whatever became of their trials. -/
def runNanos (rs : Results) : Nat :=
  ((rs.list.filterMap TrialResult.run).map (fun run => run.duration.toNanos)).sum

/-- A result without a run takes no time. -/
theorem nanosOf_durations (rs : Results) :
    JUnit.nanosOf (rs.list.map TrialResult.duration) = rs.runNanos := by
  unfold runNanos JUnit.nanosOf
  induction rs.list with
  | nil => rfl
  | cons r l ih =>
    rw [List.map_cons, List.map_cons, List.sum_cons, ih, TrialResult.duration]
    cases hrun : r.run with
    | none =>
      rw [List.filterMap_cons_none hrun, Option.map_none, Option.getD_none, Duration.toNanos_zero,
        Nat.zero_add]
    | some run =>
      rw [List.filterMap_cons_some hrun, Option.map_some, Option.getD_some, List.map_cons,
        List.sum_cons]

theorem checked_total? (rs : Results) :
    Checked (18446744073709551616 * 1000000000) rs.runNanos rs.total? := by
  rw [← nanosOf_durations]
  exact Duration.checked_total? _

/-- Neither the order of the results nor a result without a run changes what all runs take. -/
theorem runNanos_of_perm (hbare : ∀ r ∈ bare, r.run = none)
    (h : rs'.list.Perm (bare ++ rs.list)) : rs'.runNanos = rs.runNanos := by
  have hruns : (bare ++ rs.list).filterMap TrialResult.run =
      rs.list.filterMap TrialResult.run := by
    rw [List.filterMap_append, List.filterMap_eq_nil_iff.mpr hbare, List.nil_append]
  have hperm := h.filterMap TrialResult.run
  rw [hruns] at hperm
  exact (hperm.map _).sum_nat

theorem total?_congr (h : rs'.runNanos = rs.runNanos) : rs'.total? = rs.total? :=
  rs.checked_total?.unique (h ▸ rs'.checked_total?)

end Results

/-- A summary stops for want of the total alone. -/
theorem Summary.stop_eq (color : Bool) (rs : Results) : (draft color rs).stop =
    match rs.total? with
    | some _ => none
    | none => some (.overflow .total) := by
  unfold draft
  cases rs.total? with
  | none => rfl
  | some d => rfl

namespace Report

variable {format : ReportFormat}

/-- A report that holds the total stops where its summary does. -/
theorem stop_summarised (hformat : format ≠ .junit) (color verbose : Bool) (timestamp : Text)
    (rs : Results) :
    (draft format color verbose timestamp rs).stop = (Summary.draft color rs).stop := by
  cases format with
  | junit => exact absurd rfl hformat
  | pretty | terse => rfl

/-- What the writing of a report that holds the total comes to depends on the total alone. -/
theorem outcome_summarised (hformat : format ≠ .junit) (color verbose : Bool) (timestamp : Text)
    (rs : Results) :
    ((draft format color verbose timestamp rs).write .working).2 =
      match rs.total? with
      | some _ => .ok ()
      | none => .error (.overflow .total) := by
  simp only [Draft.write, stop_summarised hformat, Summary.stop_eq]
  cases rs.total? with
  | none => rfl
  | some d => rfl

end Report

namespace Results

/-- The total is refused exactly when all runs together take 2^64 seconds or more, and it is their
exact sum otherwise. The reports that hold it stop there in the same cases, and in no others. The
order of the results, and results without a run, make no difference to it. -/
theorem total_exact (rs : Results) :
    (rs.total? = none ↔ 18446744073709551616 * 1000000000 ≤ rs.runNanos) ∧
    (∀ d, rs.total? = some d ↔ d.toNanos = rs.runNanos) ∧
    (∀ (bare : List TrialResult) (rs' : Results), (∀ r ∈ bare, r.run = none) →
      rs'.list.Perm (bare ++ rs.list) → rs'.total? = rs.total?) ∧
    ∀ format ≠ .junit, ∀ color verbose timestamp,
      let outcome := ((Report.draft format color verbose timestamp rs).write .working).2
      (outcome = .error (.overflow .total) ↔
        18446744073709551616 * 1000000000 ≤ rs.runNanos) ∧
      (outcome = .ok () ↔ rs.runNanos < 18446744073709551616 * 1000000000) := by
  have hchecked := rs.checked_total?
  refine ⟨hchecked.eq_none_iff, ?_, ?_, ?_⟩
  · intro d
    constructor
    · intro hd
      rw [hd] at hchecked
      cases hchecked with
      | held hnanos _ => exact hnanos
    · intro hnanos
      refine hchecked.eq_some hnanos ?_
      have hsecs := d.secs_lt
      have hpart := d.nanos_lt
      rw [← hnanos, Duration.toNanos]
      omega
  · intro bare rs' hbare hperm
    exact total?_congr (runNanos_of_perm hbare hperm)
  · intro format hformat color verbose timestamp outcome
    have houtcome : outcome = _ := Report.outcome_summarised hformat color verbose timestamp rs
    rw [houtcome]
    generalize rs.total? = total? at hchecked
    cases hchecked with
    | held _ hlt =>
      refine ⟨iff_of_false ?_ (Nat.not_le_of_lt hlt), iff_of_true rfl hlt⟩
      intro herror
      cases herror
    | refused hle =>
      refine ⟨iff_of_true rfl hle, iff_of_false ?_ (Nat.not_lt_of_le hle)⟩
      intro hok
      cases hok

namespace Sample

/-- A trial whose compiler ran for this long, and of which nothing was judged. -/
def ran (name : String) (d : Duration) : TrialResult where
  trial := ⟨name.toList, .error, [0x74], .module⟩
  run := some ⟨⟨0⟩, [], [], d⟩

/-- The longest time of all in whole seconds, and more than half a second. -/
def long : Duration := ⟨18446744073709551615, 600000000, by decide, by decide⟩

def short : Duration := { Duration.zero with nanos := 400000000, nanos_lt := by decide }

def left : TrialResult := .skipped ⟨"c".toList, .success, [0x74], .module⟩

end Sample

/-- The seconds of two runs can be held; with the second that their nanoseconds amount to they
cannot, in either order. -/
theorem total_exact_carry :
    (Results.mk [Sample.ran "a" Sample.long, Sample.ran "b" Sample.short]).total? = none ∧
      (Results.mk [Sample.ran "b" Sample.short, Sample.left,
        Sample.ran "a" Sample.long]).total? = none ∧
      ((Report.draft .terse false false [] (Results.mk [Sample.ran "a" Sample.long,
        Sample.ran "b" Sample.short])).write .working).2 = .error (.overflow .total) ∧
      (Results.mk [Sample.ran "a" Sample.long]).total? = some Sample.long := by
  have hsum : 18446744073709551616 * 1000000000 ≤
      (Results.mk [Sample.ran "a" Sample.long, Sample.ran "b" Sample.short]).runNanos := by decide
  obtain ⟨hnone, -, hsame, hreport⟩ :=
    total_exact (Results.mk [Sample.ran "a" Sample.long, Sample.ran "b" Sample.short])
  obtain ⟨-, hsome, -⟩ := total_exact (Results.mk [Sample.ran "a" Sample.long])
  have hother := hsame [Sample.left]
    (Results.mk [Sample.ran "b" Sample.short, Sample.left, Sample.ran "a" Sample.long])
    (by simp [Sample.left, TrialResult.skipped]) (by decide)
  exact ⟨hnone.mpr hsum, hother.trans (hnone.mpr hsum),
    (hreport .terse nofun false false []).1.mpr hsum, (hsome Sample.long).mpr (by decide)⟩

end Results

end CompilerTrials
