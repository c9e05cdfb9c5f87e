import CompilerTrials.Proofs.Fidelity

/-!
# Filtered runs

A run with filters against the run without any on the same trials. Filters play no part in what is
listed, in how a trial is handed to the compiler or in what is made of its answer, so all that they
do is to mask results.

* `TrialResult.mask`: the result as a selection leaves it.
* `Session.run_masked`: if the run without filters completes, so does every filtered one. Its
  results are the masked ones, it starts nothing else, and it does not leave with a greater code.

Nothing is said about a run without filters that ends in an error: a filtered one may complete then,
as it starts no compiler where nothing is selected.
-/

namespace CompilerTrials

variable {t : FileTree} {compiler : Compiler} {config : Config} {selection unfiltered : Selection}
variable {c : Trial} {trials : List Trial}

/-- The result as a selection leaves it: only the trial remains of what is not selected. -/
def TrialResult.mask (selection : Selection) (r : TrialResult) : TrialResult :=
  if selection.accepts r.trial.qualifiedName then r else .skipped r.trial

/-- A selection without filters. Whether it is exact makes no difference. -/
structure Selection.Unfiltered (s : Selection) : Prop where
  included : s.included = []
  excluded : s.excluded = []

theorem Selection.Unfiltered.accepts (h : unfiltered.Unfiltered) (name : Text) :
    unfiltered.accepts name = true := by
  simp [Selection.accepts, h.included, h.excluded, Selection.matchesAny]

namespace TrialResult

theorem isFailed_of_mask {r : TrialResult} (h : (r.mask selection).isFailed = true) :
    r.isFailed = true := by
  unfold mask at h
  split at h
  · exact h
  · cases h

end TrialResult

/-- Masking hides failures and adds none. -/
theorem Results.exitCode_mask_le (selection : Selection) (list : List TrialResult) :
    (Results.mk (list.map (TrialResult.mask selection))).exitCode ≤ (Results.mk list).exitCode := by
  have hfailed : (Results.mk (list.map (TrialResult.mask selection))).failed ≤
      (Results.mk list).failed := by
    simp only [failed, List.countP_map]
    exact List.countP_mono_left fun r _ h => TrialResult.isFailed_of_mask h
  simp only [exitCode, allPassed, decide_eq_true_eq]
  split <;> split <;> omega

namespace Session

theorem recorded_eq_mask (h : unfiltered.Unfiltered) (c : Trial) :
    recorded compiler config selection c =
      (recorded compiler config unfiltered c).mask selection := by
  rw [TrialResult.mask, recorded_trial]
  simp only [recorded, if_pos (h.accepts c.qualifiedName)]

/-- Filters block nothing that runs without them. -/
theorem not_blocked_of_unfiltered (h : unfiltered.Unfiltered)
    (hfree : ¬ Blocked t config unfiltered trials) : ¬ Blocked t config selection trials := by
  rintro ⟨⟨c, hc, -⟩, hfault⟩
  exact hfree ⟨⟨c, hc, h.accepts c.qualifiedName⟩, hfault⟩

/-- What is started for the selected trials is started in this order among all. -/
theorem started_sublist (h : unfiltered.Unfiltered) (trials : List Trial) :
    ((trials.map (recorded compiler config selection)).filterMap TrialResult.invocation).Sublist
      ((trials.map (recorded compiler config unfiltered)).filterMap TrialResult.invocation) := by
  have hall : trials.filter (fun c => unfiltered.accepts c.qualifiedName) = trials :=
    List.filter_eq_self.mpr fun c _ => h.accepts c.qualifiedName
  rw [filterMap_invocation_recorded, filterMap_invocation_recorded, hall]
  exact List.filter_sublist.map _

theorem not_blocked_of_ok {rs : Results} (h : (run t compiler config selection).outcome = .ok rs)
    (htrials : (Discovery.all t config.testsDir).outcome = .ok trials) :
    ¬ Blocked t config selection trials := by
  rintro ⟨hselected, fault, hfault⟩
  rw [(run_of_blocked compiler htrials hfault hselected).1] at h
  cases h

/-- A run with filters is the run without them, masked. -/
theorem run_masked (hunfiltered : unfiltered.Unfiltered) (selection : Selection) {rs : Results}
    (h : (run t compiler config unfiltered).outcome = .ok rs) :
    ∃ masked, (run t compiler config selection).outcome = .ok masked ∧
      masked.list = rs.list.map (TrialResult.mask selection) ∧
      (run t compiler config selection).started.Sublist
        (run t compiler config unfiltered).started ∧
      masked.exitCode ≤ rs.exitCode := by
  obtain ⟨trials, hall, rfl, hstarted⟩ := run_of_ok h
  have hfree : ¬ Blocked t config selection trials :=
    not_blocked_of_unfiltered hunfiltered (not_blocked_of_ok h hall)
  obtain ⟨houtcome, hfiltered⟩ := run_of_not_blocked compiler hall hfree
  have hmask : trials.map (recorded compiler config selection) =
      (trials.map (recorded compiler config unfiltered)).map (TrialResult.mask selection) := by
    rw [List.map_map]
    exact List.map_congr_left fun c _ => recorded_eq_mask hunfiltered c
  refine ⟨_, houtcome, hmask, ?_, ?_⟩
  · rw [hfiltered, hstarted]
    exact started_sublist hunfiltered trials
  · rw [hmask]
    exact Results.exitCode_mask_le selection _

namespace Sample

/-- A compiler that accepts everything, so that the trial below `error` fails. -/
def lenient : Compiler := fun _ => ⟨[], [], .exit 0, .zero⟩

def withoutTypo : Selection := { excluded := ["typo".toList] }

end Sample

/-- The only failure is masked. -/
theorem run_masked_sample :
    ∃ rs masked, (run Sample.tree Sample.lenient Sample.setup {}).outcome = .ok rs ∧
      (run Sample.tree Sample.lenient Sample.setup Sample.withoutTypo).outcome = .ok masked ∧
      masked.list = rs.list.map (TrialResult.mask Sample.withoutTypo) ∧
      masked.list.map TrialResult.isSkipped = [false, true] ∧
      masked.exitCode = 0 ∧ rs.exitCode = 1 := by
  have hfree : ¬ Blocked Sample.tree Sample.setup {} [Sample.accepted, Sample.rejected] := by
    rintro ⟨-, fault, hfault⟩
    cases Sample.launchFault_none.symm.trans hfault
  obtain ⟨houtcome, -⟩ := run_of_not_blocked Sample.lenient Sample.outcome_both hfree
  obtain ⟨⟨list⟩, hmasked, hlist, -, -⟩ := run_masked ⟨rfl, rfl⟩ Sample.withoutTypo houtcome
  refine ⟨_, _, houtcome, hmasked, hlist, ?_⟩
  obtain rfl := hlist
  decide +kernel

end Session

end CompilerTrials
