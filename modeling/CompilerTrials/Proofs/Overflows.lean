import CompilerTrials.Proofs.Coloring

/-!
# Times that a document cannot hold

A document holds times below 2^63 seconds. Each time is looked at before the document is made, and
one that is too long is an error; but the times of a suite are added when it is made, and a sum that
is too long is none. What was left out takes no time in a document, though its time is looked at.

* `Report.stop_draft_junit`: which times stop a document, and how.
* `Report.not_stop_draft_junit`: two times that a document can hold, and their sum.
-/

namespace CompilerTrials

namespace Report

/-- A document fails with an error for one time that is too long. It has no answer at all when each
time can be held and those of a suite cannot be added, and there is a document otherwise, in which
the time of a suite is exact. -/
theorem stop_draft_junit (color verbose : Bool) (timestamp : Text) (rs : Results) :
    ((draft .junit color verbose timestamp rs).stop =
        some (.error (.report "Source value is out of range for the target type".toList)) ↔
      ∃ r ∈ rs.list, JUnit.secondsLimit ≤ r.duration.secs) ∧
    ((draft .junit color verbose timestamp rs).stop = some (.overflow .suite) ↔
      (∀ r ∈ rs.list, r.duration.secs < JUnit.secondsLimit) ∧
        ∃ s, JUnit.secondsLimit * 1000000000 ≤ JUnit.nanosIn rs s) ∧
    ((draft .junit color verbose timestamp rs).stop = none ↔
      (∀ r ∈ rs.list, r.duration.secs < JUnit.secondsLimit) ∧
        ∀ s, JUnit.nanosIn rs s < JUnit.secondsLimit * 1000000000) ∧
    ((draft .junit color verbose timestamp rs).stop = none →
      ∃ time : Suite → Duration, (∀ s, (time s).toNanos = JUnit.nanosIn rs s) ∧
        (draft .junit color verbose timestamp rs).text =
          JUnit.render timestamp (JUnit.document color verbose rs time) ++ ['\n']) := by
  have hdraft : draft .junit color verbose timestamp rs = JUnit.draft color verbose timestamp rs :=
    rfl
  have hdisjoint (hlong : ∃ r ∈ rs.list, JUnit.secondsLimit ≤ r.duration.secs) :
      ¬ ∀ r ∈ rs.list, r.duration.secs < JUnit.secondsLimit := by
    obtain ⟨r, hr, hle⟩ := hlong
    exact fun hshort => Nat.not_lt_of_le hle (hshort r hr)
  rw [hdraft]
  obtain hlong | ⟨hshort, ⟨s, hsum⟩ | hsum⟩ := JUnit.times_cases rs
  · rw [JUnit.stop_of_error (JUnit.ofResults_of_long hlong color verbose)]
    exact ⟨iff_of_true rfl hlong, iff_of_false nofun fun h => hdisjoint hlong h.1,
      iff_of_false nofun fun h => hdisjoint hlong h.1, nofun⟩
  · rw [JUnit.stop_of_error (JUnit.ofResults_of_overflow hshort hsum color verbose)]
    exact ⟨iff_of_false nofun fun hlong => hdisjoint hlong hshort,
      iff_of_true rfl ⟨hshort, s, hsum⟩,
      iff_of_false nofun fun h => Nat.not_lt_of_le hsum (h.2 s), nofun⟩
  · obtain ⟨time, htime, hdocument⟩ := JUnit.ofResults_of_held hshort hsum
    rw [JUnit.draft_of_document (hdocument color verbose)]
    refine ⟨iff_of_false nofun fun hlong => hdisjoint hlong hshort, iff_of_false nofun ?_,
      iff_of_true rfl ⟨hshort, hsum⟩, fun _ => ⟨time, htime, rfl⟩⟩
    rintro ⟨-, s, hle⟩
    exact Nat.not_lt_of_le hle (hsum s)

namespace Sample

/-- A trial that passed, and took this number of seconds. -/
def took (name : String) (secs : Nat) (h : secs < 18446744073709551616) : TrialResult :=
  .ran ⟨name.toList, .success, [0x74], .module⟩ ⟨[0x63], [[0x74]]⟩
    ⟨⟨0⟩, [], [], { Duration.zero with secs, secs_lt := h }⟩ .pass

/-- The longest time that a document can hold, in whole seconds, and one second more. -/
def overlong : Results :=
  ⟨[took "a" 9223372036854775807 (by decide), took "b" 1 (by decide)]⟩

end Sample

/-- Each of two times can be held. Their document is neither made, nor refused with an error. -/
theorem not_stop_draft_junit :
    (∀ r ∈ Sample.overlong.list, JUnit.holds r.duration = true) ∧
      ¬ ((draft .junit false false JUnit.Sample.stamp Sample.overlong).stop = none ∨
        ∃ reason, (draft .junit false false JUnit.Sample.stamp Sample.overlong).stop =
          some (.error (.report reason))) := by
  have hholds : ∀ r ∈ Sample.overlong.list, JUnit.holds r.duration = true := by decide
  have hsum : JUnit.secondsLimit * 1000000000 ≤ JUnit.nanosIn Sample.overlong .success := by
    decide
  have hoverflow : JUnit.ofResults false false Sample.overlong = .error (.overflow .suite) :=
    JUnit.ofResults_of_overflow (fun r hr => of_decide_eq_true (hholds r hr)) hsum false false
  refine ⟨hholds, ?_⟩
  show ¬ ((JUnit.draft false false JUnit.Sample.stamp Sample.overlong).stop = none ∨
    ∃ reason, (JUnit.draft false false JUnit.Sample.stamp Sample.overlong).stop =
      some (.error (.report reason)))
  rw [JUnit.stop_of_error hoverflow]
  rintro (hnone | ⟨reason, herror⟩)
  · exact Option.some_ne_none _ hnone
  · exact Failure.noConfusion (Option.some.inj herror)

end Report

end CompilerTrials
