import CompilerTrials.Proofs.Naming
import Mathlib.Data.List.TakeWhile

/-!
# Targets of trials

What is compiled for a trial is its directory, or a file in it. A path is inside one entry of a
directory at most (`Path.Inside.name_eq`): the entry is what stands in front of the next slash. That
holds for the suites below the tests directory as well as for the trials below a suite, so the target
of a trial tells both of them (`Discovery.eq_of_target`).

* `Discovery.nodup_all`: no trial is listed twice.
* `Session.started_sublist_ofTrial`: a run starts some of the invocations of its trials, in order.
* `Session.targets_distinct`: no two trials have one target, and no run compiles a target twice.
-/

namespace CompilerTrials

variable {t : FileTree} {compiler : Compiler} {config : Config} {selection : Selection}
variable {suite : Suite} {c d : Trial} {trials : List Trial} {testsDir : ByteString}

/-! ## Inside a directory -/

namespace Path

variable {dir p q base : ByteString} {m n : Name}

/-- The path of the directory, or of something in it. -/
def Inside (dir p : ByteString) : Prop := p = dir ∨ ∃ q, p = dir ++ slash :: q

namespace Inside

theorem isPrefix (h : Inside dir p) : dir <+: p := by
  rcases h with rfl | ⟨q, rfl⟩
  · exact List.prefix_refl p
  · exact List.prefix_append dir (slash :: q)

theorem trans (h : Inside dir p) (h' : Inside p q) : Inside dir q := by
  rcases h' with rfl | ⟨r, rfl⟩
  · exact h
  · rcases h with rfl | ⟨r', rfl⟩
    · exact .inr ⟨r, rfl⟩
    · exact .inr ⟨r' ++ slash :: r, by rw [List.append_assoc, List.cons_append]⟩

/-- What is in front of the directory is in front of all that is inside. -/
theorem exists_append (h : Inside (base ++ dir) p) : ∃ r, p = base ++ r ∧ Inside dir r := by
  rcases h with rfl | ⟨q, rfl⟩
  · exact ⟨dir, rfl, .inl rfl⟩
  · exact ⟨dir ++ slash :: q, List.append_assoc .., .inr ⟨q, rfl⟩⟩

theorem takeWhile_eq (h : Inside n.bytes p) : p.takeWhile (fun b => b ≠ slash) = n.bytes := by
  have hname : ∀ b ∈ n.bytes, decide (b ≠ slash) = true := by
    intro b hb
    apply decide_eq_true
    rintro rfl
    exact n.slash_not_mem hb
  rcases h with rfl | ⟨q, rfl⟩
  · exact List.takeWhile_eq_self_iff.mpr hname
  · rw [List.takeWhile_append_of_pos hname]
    simp

/-- A path is inside one entry of a directory at most. -/
theorem name_eq (hm : Inside (base ++ m.bytes) p) (hn : Inside (base ++ n.bytes) p) : m = n := by
  obtain ⟨r, rfl, hr⟩ := hm.exists_append
  obtain ⟨r', hsame, hr'⟩ := hn.exists_append
  obtain rfl : r = r' := List.append_cancel_left hsame
  exact Name.ext_bytes (hr.takeWhile_eq.symm.trans hr'.takeWhile_eq)

end Inside

/-- The path, with a slash behind it if it needs one before a name. -/
def opened (p : ByteString) : ByteString := if isOpen p then p else p ++ [slash]

theorem join_eq_opened (hq : isAbsolute q = false) (p : ByteString) : join p q = opened p ++ q := by
  unfold join opened
  rw [hq, if_neg Bool.false_ne_true]
  split
  · rfl
  · exact (List.append_assoc p [slash] q).symm

theorem inside_below (p : ByteString) (n : Name) : Inside p (p ++ slash :: n.bytes) :=
  .inr ⟨n.bytes, rfl⟩

end Path

open CompilerTrials.Path (Inside)

/-! ## Suites and trials -/

theorem Suite.entry_injective {s s' : Suite} (h : s.entry = s'.entry) : s = s' := by
  cases s <;> cases s'
  · rfl
  · cases congrArg Name.bytes h
  · cases congrArg Name.bytes h
  · rfl

theorem Suite.dir_eq (s : Suite) (testsDir : ByteString) :
    s.dir testsDir = Path.opened testsDir ++ s.entry.bytes :=
  Path.join_eq_opened (Path.isAbsolute_of_not_mem s.entry.slash_not_mem) testsDir

/-- A trial compiles its directory or a file in it. -/
theorem Trial.inside_target (t : FileTree) (suite : Suite) (root : ByteString) (e : Name) :
    Inside (root ++ Path.slash :: e.bytes) (Trial.below t suite root e).target := by
  rw [Trial.target_below]
  split
  · exact .inl rfl
  · exact .inr ⟨_, rfl⟩

namespace Discovery

/-- The target of a trial is inside the directory of its suite. -/
theorem inside_dir_target (h : (all t testsDir).outcome = .ok trials) (hc : c ∈ trials) :
    Inside (c.suite.dir testsDir) c.target := by
  obtain ⟨suite, -, e, -, rfl⟩ := mem_all h hc
  exact (Path.inside_below _ e).trans (Trial.inside_target t suite _ e)

/-- The target of a trial tells the trial. -/
theorem eq_of_target (h : (all t testsDir).outcome = .ok trials) (hc : c ∈ trials)
    (hd : d ∈ trials) (htarget : c.target = d.target) : c = d := by
  have hsuite : Inside (c.suite.dir testsDir) c.target := inside_dir_target h hc
  have hsuite' : Inside (d.suite.dir testsDir) c.target := htarget ▸ inside_dir_target h hd
  obtain ⟨suite, -, e, -, rfl⟩ := mem_all h hc
  obtain ⟨suite', -, e', -, rfl⟩ := mem_all h hd
  -- first the suite, which is the next name below the tests directory
  rw [Suite.dir_eq] at hsuite hsuite'
  obtain rfl : suite = suite' := Suite.entry_injective (hsuite.name_eq hsuite')
  -- then the entry, which is the next name below the suite
  have hentry := Trial.inside_target t suite (suite.dir testsDir) e
  have hentry' := Trial.inside_target t suite (suite.dir testsDir) e'
  rw [← htarget, List.append_cons] at hentry'
  rw [List.append_cons] at hentry
  rw [hentry.name_eq hentry']

/-! ## No trial twice -/

theorem nodup_ofSuite (h : (ofSuite t testsDir suite).outcome = .ok trials) : trials.Nodup := by
  obtain ⟨loc, hlistable⟩ := listable_of_ok h
  rw [ofSuite_of_listable hlistable] at h
  obtain rfl := Except.ok.inj h
  obtain ⟨names, hstrict, -, htrials⟩ := lists_of_listable hlistable
  rw [htrials]
  apply (nodup_of_ascending hstrict).map
  intro e e' heq
  exact Path.below_injective (congrArg Trial.path heq)

theorem nodup_all (h : (all t testsDir).outcome = .ok trials) : trials.Nodup := by
  obtain ⟨accepted, rejected, haccepted, hrejected, rfl⟩ := all_of_ok h
  apply (nodup_ofSuite haccepted).append (nodup_ofSuite hrejected)
  intro c hc hc'
  have hsuite := (suite_of_mem haccepted hc).symm.trans (suite_of_mem hrejected hc')
  cases hsuite

end Discovery

namespace Session

theorem getLast?_ofTrial (config : Config) (c : Trial) :
    (Invocation.ofTrial config c).args.getLast? = some c.target :=
  List.getLast?_concat

/-- A run starts some of the invocations of its trials, in their order. -/
theorem started_sublist_ofTrial (h : (Discovery.all t config.testsDir).outcome = .ok trials)
    (compiler : Compiler) (selection : Selection) :
    (run t compiler config selection).started.Sublist
      (trials.map (Invocation.ofTrial config)) := by
  by_cases hblocked : Blocked t config selection trials
  · obtain ⟨hselected, fault, hfault⟩ := hblocked
    rw [(run_of_blocked compiler h hfault hselected).2]
    exact List.nil_sublist _
  · rw [(run_of_not_blocked compiler h hblocked).2, filterMap_invocation_recorded]
    exact List.filter_sublist.map _

/-- The targets of all trials, the last arguments of their invocations, differ, and each is below
the directory of its suite. So trials in different directories are handed over differently, whatever
the texts of their names, and no run compiles a target twice. -/
theorem targets_distinct (h : (Discovery.all t config.testsDir).outcome = .ok trials) :
    (trials.map fun c => (Invocation.ofTrial config c).args.getLast?).Nodup ∧
    (∀ c ∈ trials, ∃ target, (Invocation.ofTrial config c).args.getLast? = some target ∧
      Path.join config.testsDir (Utf8.encode c.suite.name) <+: target) ∧
    (∀ c ∈ trials, ∀ d ∈ trials, c.path ≠ d.path →
      (Invocation.ofTrial config c).vector ≠ (Invocation.ofTrial config d).vector) ∧
    ∀ compiler selection,
      ((run t compiler config selection).started.map fun i => i.args.getLast?).Nodup := by
  have hlast : (trials.map fun c => (Invocation.ofTrial config c).args.getLast?).Nodup := by
    apply (Discovery.nodup_all h).map_on
    intro c hc d hd htarget
    rw [getLast?_ofTrial, getLast?_ofTrial] at htarget
    exact Discovery.eq_of_target h hc hd (Option.some.inj htarget)
  refine ⟨hlast, ?_, ?_, ?_⟩
  · intro c hc
    exact ⟨c.target, getLast?_ofTrial config c, (Discovery.inside_dir_target h hc).isPrefix⟩
  · intro c hc d hd hpath hvector
    have hargs : (Invocation.ofTrial config c).args = (Invocation.ofTrial config d).args :=
      (List.cons.inj hvector).2
    have htarget := congrArg List.getLast? hargs
    rw [getLast?_ofTrial, getLast?_ofTrial] at htarget
    obtain rfl := Discovery.eq_of_target h hc hd (Option.some.inj htarget)
    exact hpath rfl
  · intro compiler selection
    have hsublist := (started_sublist_ofTrial h compiler selection).map fun i => i.args.getLast?
    rw [List.map_map] at hsublist
    exact hlast.sublist hsublist

/-- Two trials of one name are compiled as two. -/
theorem targets_distinct_twins :
    (Discovery.all Sample.twins Sample.setup.testsDir).outcome =
        .ok [Sample.blurred Sample.first, Sample.blurred Sample.second] ∧
      (Sample.blurred Sample.first).qualifiedName = (Sample.blurred Sample.second).qualifiedName ∧
      (Invocation.ofTrial Sample.setup (Sample.blurred Sample.first)).vector ≠
        (Invocation.ofTrial Sample.setup (Sample.blurred Sample.second)).vector := by
  obtain ⟨-, -, hvector, -⟩ := targets_distinct Sample.outcome_twins
  refine ⟨Sample.outcome_twins, rfl, ?_⟩
  apply hvector _ List.mem_cons_self _ (List.mem_cons_of_mem _ List.mem_cons_self)
  decide

end Session

end CompilerTrials
