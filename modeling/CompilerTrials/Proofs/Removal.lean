import CompilerTrials.Proofs.Listing

/-!
# Listings without an entry

What becomes of the trials of a suite when an entry `x` that leads to no directory is taken out of
its directory. Such an entry yields no trial, but it is not always ignored:

* a link that fails to resolve for another reason than a missing target ends the listing
  (`Discovery.error_of_broken`), and without the link the listing goes on;
* a look-up of another entry, or of a marker, may lead through `x`.

Main statement: `Discovery.ofSuite_erase_iff` says exactly when the listing stays the same. That it
does not always is shown by a link through a regular file (`Discovery.not_ofSuite_erase`).
-/

namespace CompilerTrials.Discovery

variable {t : FileTree} {suite : Suite} {root testsDir : ByteString} {loc : Location}
variable {x : Name} {node : Node} {y z : Name × Node}

/-! ## The tree without the entry -/

theorem isDir_false_of_not_leadsToDir (hx : (x, node) ∈ t.entries loc)
    (hdir : ¬ LeadsToDir t root loc (x, node)) : t.isDir (x :: loc) = false := by
  have hnode := FileTree.mem_entries.mp hx
  cases node with
  | dir => exact absurd ⟨x :: loc, rfl, by simp [FileTree.isDir, hnode]⟩ hdir
  | file mode => simp [FileTree.isDir, hnode]
  | link target => simp [FileTree.isDir, hnode]

theorem entries_erase (t : FileTree) (x : Name) (loc : Location) :
    (t.erase (x :: loc)).entries loc = (t.entries loc).filter (fun y => y.1 ≠ x) := by
  simp only [FileTree.entries, FileTree.erase, List.filterMap_filter, List.filter_filterMap]
  refine List.filterMap_congr fun stored _ => ?_
  obtain ⟨place, kept⟩ := stored
  cases place with
  | nil => simp [FileTree.entryIn]
  | cons name parent =>
    by_cases hparent : parent = loc
    · subst hparent
      by_cases hname : name = x <;> simp [FileTree.entryIn, hname, Option.filter]
    · simp [FileTree.entryIn, hparent]

/-- The entries of a directory but for the one that is named `x`, by the bytes of their names. -/
def otherEntries (t : FileTree) (x : Name) (loc : Location) : List (Name × Node) :=
  (sortedEntries t loc).filter (fun y => y.1 ≠ x)

theorem mem_otherEntries : y ∈ otherEntries t x loc ↔ y ∈ t.entries loc ∧ y.1 ≠ x := by
  simp [otherEntries, mem_sortedEntries]

theorem sortedEntries_erase (t : FileTree) (x : Name) (loc : Location) :
    sortedEntries (t.erase (x :: loc)) loc = otherEntries t x loc := by
  refine eq_of_strict_of_perm (sortedEntries_strict _ loc)
    ((sortedEntries_strict t loc).filter _) ?_
  refine (sortedEntries_perm _ loc).trans ?_
  rw [entries_erase]
  exact ((sortedEntries_perm t loc).filter _).symm

/-- A look-up that ends or fails without `x` does so with `x`, unless it finds nothing. -/
theorem resolve_of_erase (hgone : t.isDir (x :: loc) = false) {path : ByteString}
    {answer : Except Fault Location} (h : (t.erase (x :: loc)).resolve path = answer)
    (hmissing : answer ≠ .error .notFound) : t.resolve path = answer := by
  rcases FileTree.resolve_erase hgone path with hsame | hnone
  · exact hsame.symm.trans h
  · exact absurd (h.symm.trans hnone) hmissing

/-- A fault that an entry makes without `x` is one that it makes with `x`. -/
theorem finding_error_of_erase (hopen : Path.isOpen root = false)
    (hgone : t.isDir (x :: loc) = false) {e : Error}
    (h : finding (t.erase (x :: loc)) suite root loc y = .error e) :
    finding t suite root loc y = .error e := by
  obtain ⟨n, stored⟩ := y
  cases stored with
  | file mode => cases h
  | dir => cases h
  | link target =>
    cases hresolve : (t.erase (x :: loc)).resolve (root ++ Path.slash :: n.bytes) with
    | ok place =>
      by_cases hplace : place = loc
      · subst hplace
        have hbefore := resolve_of_erase hgone hresolve (by simp)
        rw [finding_of_loop hopen ⟨⟨target, rfl⟩, hresolve⟩] at h
        rwa [finding_of_loop hopen ⟨⟨target, rfl⟩, hbefore⟩]
      · simp only [finding, inspect, Path.join_name hopen, hresolve, if_neg hplace] at h
        split at h <;> cases h
    | error fault =>
      by_cases hfault : fault = .notFound
      · subst hfault
        simp only [finding, inspect, Path.join_name hopen, hresolve] at h
        cases h
      · have hbefore := resolve_of_erase hgone hresolve (by simpa using hfault)
        rw [finding_of_fault hopen rfl hresolve hfault] at h
        rwa [finding_of_fault hopen rfl hbefore hfault]

theorem found_erase (hopen : Path.isOpen root = false) (hgone : t.isDir (x :: loc) = false)
    (h : ∃ found, finding t suite root loc y = .ok found) :
    ∃ found, finding (t.erase (x :: loc)) suite root loc y = .ok found := by
  cases hafter : finding (t.erase (x :: loc)) suite root loc y with
  | ok found => exact ⟨found, rfl⟩
  | error e =>
    obtain ⟨found, hfound⟩ := h
    rw [finding_error_of_erase hopen hgone hafter] at hfound
    cases hfound

/-- Entries that make the same error are one entry. -/
theorem eq_of_finding_error (hopen : Path.isOpen root = false) {e : Error}
    (hy : finding t suite root loc y = .error e) (hz : finding t suite root loc z = .error e) :
    y.1 = z.1 := by
  rcases finding_error hopen hy with rfl | ⟨fault, rfl⟩
  · rcases finding_error hopen hz with h | ⟨fault', h⟩
    · have hpath := (IoFault.ancestor.inj (Error.discovery.inj h).2).1
      exact Path.below_injective hpath
    · cases h
  · rcases finding_error hopen hz with h | ⟨fault', h⟩
    · cases h
    · have hpath := (IoFault.listing.inj (Error.discovery.inj h).2).1
      exact Path.below_injective hpath

/-- Entries that yield the same trial are one entry. -/
theorem eq_of_yield {u : FileTree} {c : Trial} (hopen : Path.isOpen root = false)
    (hy : yield t suite root loc y = some c) (hz : yield u suite root loc z = some c) :
    y.1 = z.1 := by
  have hbelow := finding_some hopen (finding_of_yield hy)
  rw [finding_some hopen (finding_of_yield hz)] at hbelow
  exact (Path.below_injective (congrArg Trial.path hbelow)).symm

/-! ## When the listing stays the same -/

/-- Nothing else fails, and all else is found to be the same without `x`. -/
def AllAlike (t : FileTree) (suite : Suite) (root : ByteString) (loc : Location) (x : Name) :
    Prop :=
  ∀ y ∈ t.entries loc, y.1 ≠ x → ∃ found, finding t suite root loc y = .ok found ∧
    finding (t.erase (x :: loc)) suite root loc y = .ok found

/-- Something else is the first entry to fail, and it fails in the same way without `x`. -/
def FailsAlike (t : FileTree) (suite : Suite) (root : ByteString) (loc : Location) (x : Name) :
    Prop :=
  ∃ y ∈ t.entries loc, y.1 ≠ x ∧
    (∀ z ∈ t.entries loc, z.1.bytes < y.1.bytes →
      ∃ found, finding t suite root loc z = .ok found) ∧
    ∃ e, finding t suite root loc y = .error e ∧
      finding (t.erase (x :: loc)) suite root loc y = .error e

theorem ofSuite_erase (hdir : t.isDir loc = true) (hgone : t.isDir (x :: loc) = false)
    (hroot : (t.erase (x :: loc)).resolve (suite.dir testsDir) = .ok loc) :
    ofSuite (t.erase (x :: loc)) testsDir suite =
      survey (t.erase (x :: loc)) suite (suite.dir testsDir) loc (otherEntries t x loc) := by
  rw [ofSuite_of_isDir hroot ((FileTree.isDir_erase hgone loc).trans hdir), sortedEntries_erase]

theorem survey_erase_of_allAlike (hopen : Path.isOpen root = false) (hdir : t.isDir loc = true)
    (hx : (x, node) ∈ t.entries loc) (hnot : ¬ LeadsToDir t root loc (x, node))
    (hbroken : ¬ IsBroken t root (x, node)) (halike : AllAlike t suite root loc x) :
    (survey (t.erase (x :: loc)) suite root loc (otherEntries t x loc)).outcome =
      (survey t suite root loc (sortedEntries t loc)).outcome := by
  have hself : ∀ y ∈ sortedEntries t loc, y.1 = x → finding t suite root loc y = .ok none := by
    intro y hy hname
    obtain rfl : y = (x, node) := entry_ext (mem_sortedEntries.mp hy) hx hname
    exact finding_of_other suite hopen hdir hx hnot hbroken
  have hafter : ∀ y ∈ otherEntries t x loc,
      ∃ found, finding (t.erase (x :: loc)) suite root loc y = .ok found := by
    intro y hy
    obtain ⟨hmem, hname⟩ := mem_otherEntries.mp hy
    obtain ⟨found, -, hfound⟩ := halike y hmem hname
    exact ⟨found, hfound⟩
  have hbefore : ∀ y ∈ sortedEntries t loc, ∃ found, finding t suite root loc y = .ok found := by
    intro y hy
    by_cases hname : y.1 = x
    · exact ⟨none, hself y hy hname⟩
    · obtain ⟨found, hfound, -⟩ := halike y (mem_sortedEntries.mp hy) hname
      exact ⟨found, hfound⟩
  rw [survey_of_found hafter, survey_of_found hbefore, otherEntries, List.filterMap_filter]
  congr 1
  refine List.filterMap_congr fun y hy => ?_
  by_cases hname : y.1 = x
  · simp [hname, yield, hself y hy hname]
  · obtain ⟨found, hfound, hfound'⟩ := halike y (mem_sortedEntries.mp hy) hname
    simp [hname, yield, hfound, hfound']

theorem survey_erase_of_failsAlike (hopen : Path.isOpen root = false)
    (hgone : t.isDir (x :: loc) = false) (halike : FailsAlike t suite root loc x) :
    (survey (t.erase (x :: loc)) suite root loc (otherEntries t x loc)).outcome =
      (survey t suite root loc (sortedEntries t loc)).outcome := by
  obtain ⟨y, hy, hname, hfirst, e, hbefore, hafter⟩ := halike
  obtain ⟨before, after, hsplit⟩ := List.append_of_mem (mem_sortedEntries.mpr hy)
  have hstrict := sortedEntries_strict t loc
  rw [otherEntries]
  rw [hsplit] at hstrict ⊢
  have hfound : ∀ z ∈ before, ∃ found, finding t suite root loc z = .ok found := by
    intro z hz
    have hmem : z ∈ sortedEntries t loc := by simp [hsplit, hz]
    have hlt := (List.pairwise_append.mp hstrict).2.2 z hz y List.mem_cons_self
    exact hfirst z (mem_sortedEntries.mp hmem) hlt
  rw [survey_of_fault hfound hbefore, List.filter_append,
    List.filter_cons_of_pos (by simpa using hname)]
  refine survey_of_fault (fun z hz => ?_) hafter
  exact found_erase hopen hgone (hfound z (List.mem_filter.mp hz).1)

/-- Where the trials are the same without `x`, every other entry yields what it did: no entry yields
the trial of another. -/
theorem yield_erase_of_lists (hopen : Path.isOpen root = false)
    (hlists : (otherEntries t x loc).filterMap (yield (t.erase (x :: loc)) suite root loc) =
      (sortedEntries t loc).filterMap (yield t suite root loc))
    (hy : y ∈ t.entries loc) (hname : y.1 ≠ x) :
    yield (t.erase (x :: loc)) suite root loc y = yield t suite root loc y := by
  refine Option.ext fun c => ⟨fun hc => ?_, fun hc => ?_⟩
  · have hmem := List.mem_filterMap.mpr ⟨y, mem_otherEntries.mpr ⟨hy, hname⟩, hc⟩
    rw [hlists] at hmem
    obtain ⟨z, hz, hzc⟩ := List.mem_filterMap.mp hmem
    obtain rfl := entry_ext (mem_sortedEntries.mp hz) hy (eq_of_yield hopen hzc hc)
    exact hzc
  · have hmem := List.mem_filterMap.mpr ⟨y, mem_sortedEntries.mpr hy, hc⟩
    rw [← hlists] at hmem
    obtain ⟨z, hz, hzc⟩ := List.mem_filterMap.mp hmem
    obtain rfl := entry_ext (mem_otherEntries.mp hz).1 hy (eq_of_yield hopen hzc hc)
    exact hzc

/-- Where the same error ends the listing without `x`, the same entry makes it. -/
theorem failsAlike_of_fault (hopen : Path.isOpen root = false)
    (hgone : t.isDir (x :: loc) = false) {before after : List (Name × Node)} {e : Error}
    (hsplit : sortedEntries t loc = before ++ y :: after)
    (hbefore : ∀ z ∈ before, ∃ found, finding t suite root loc z = .ok found)
    (hy : finding t suite root loc y = .error e)
    (h : (survey (t.erase (x :: loc)) suite root loc (otherEntries t x loc)).outcome = .error e) :
    FailsAlike t suite root loc x := by
  rcases found_or_fault (t.erase (x :: loc)) suite root loc (otherEntries t x loc) with
    hfound | ⟨before', z, after', e', hsplit', hbefore', hz⟩
  · rw [survey_of_found hfound] at h
    cases h
  · rw [hsplit', survey_of_fault hbefore' hz] at h
    obtain rfl := Except.error.inj h
    have hzmem : z ∈ otherEntries t x loc := by simp [hsplit']
    obtain ⟨hzentry, hzname⟩ := mem_otherEntries.mp hzmem
    have hyentry : y ∈ t.entries loc := mem_sortedEntries.mp (by simp [hsplit])
    have hsame := eq_of_finding_error hopen hy (finding_error_of_erase hopen hgone hz)
    obtain rfl := entry_ext hyentry hzentry hsame
    refine ⟨y, hyentry, hzname, fun w hw hlt => ?_, e', hy, hz⟩
    exact hbefore w
      (mem_before_of_lt (sortedEntries_strict t loc) hsplit (mem_sortedEntries.mpr hw) hlt)

theorem alike_of_survey_erase (hopen : Path.isOpen root = false) (hdir : t.isDir loc = true)
    (hgone : t.isDir (x :: loc) = false) (hx : (x, node) ∈ t.entries loc)
    (h : (survey (t.erase (x :: loc)) suite root loc (otherEntries t x loc)).outcome =
      (survey t suite root loc (sortedEntries t loc)).outcome) :
    (¬ IsBroken t root (x, node) ∧ AllAlike t suite root loc x) ∨
      FailsAlike t suite root loc x := by
  rcases found_or_fault t suite root loc (sortedEntries t loc) with
    hall | ⟨before, y, after, e, hsplit, hbefore, hy⟩
  · have hself := hall (x, node) (mem_sortedEntries.mpr hx)
    have hafter : ∀ z ∈ otherEntries t x loc,
        ∃ found, finding (t.erase (x :: loc)) suite root loc z = .ok found := by
      intro z hz
      have hmem := mem_sortedEntries.mpr (mem_otherEntries.mp hz).1
      exact found_erase hopen hgone (hall z hmem)
    rw [survey_of_found hafter, survey_of_found hall] at h
    refine .inl ⟨((finding_isOk_iff suite hopen hdir hx).mp hself).1, fun y hy hname => ?_⟩
    have hbefore := finding_eq_yield (hall y (mem_sortedEntries.mpr hy))
    have hyield := yield_erase_of_lists hopen (Except.ok.inj h) hy hname
    refine ⟨_, hbefore, ?_⟩
    rw [← hyield]
    exact finding_eq_yield (hafter y (mem_otherEntries.mpr ⟨hy, hname⟩))
  · have herror : (survey t suite root loc (before ++ y :: after)).outcome = .error e :=
      survey_of_fault hbefore hy
    rw [hsplit, herror] at h
    exact .inr (failsAlike_of_fault hopen hgone hsplit hbefore hy h)

/-- A broken link ends the listing. -/
theorem error_of_broken (hroot : t.resolve (suite.dir testsDir) = .ok loc)
    (hdir : t.isDir loc = true) (hy : y ∈ t.entries loc)
    (hbroken : IsBroken t (suite.dir testsDir) y) :
    ∃ e, (ofSuite t testsDir suite).outcome = .error e := by
  refine exists_error_of_fault hdir hroot hy fun hfound => ?_
  exact ((finding_isOk_iff suite (suite.isOpen_dir testsDir) hdir hy).mp hfound).1 hbroken

/-- A listing that finds its directory does not say that the directory is missing. -/
theorem outcome_ne_missing (hroot : t.resolve (suite.dir testsDir) = .ok loc)
    (hdir : t.isDir loc = true) :
    (ofSuite t testsDir suite).outcome ≠
      .error (.discovery (suite.dir testsDir) (.listing (suite.dir testsDir) .notFound)) := by
  intro h
  rw [ofSuite_of_isDir hroot hdir] at h
  rcases found_or_fault t suite (suite.dir testsDir) loc (sortedEntries t loc) with
    hall | ⟨before, y, after, e, hsplit, hbefore, hy⟩
  · rw [survey_of_found hall] at h
    cases h
  · rw [hsplit, survey_of_fault hbefore hy] at h
    rcases finding_error (suite.isOpen_dir testsDir) hy with rfl | ⟨fault, rfl⟩
    · cases h
    · have hpath := (IoFault.listing.inj (Error.discovery.inj (Except.error.inj h)).2).1
      have hlength := congrArg List.length hpath
      simp at hlength

/-! ## A suite with a stray link -/

namespace Crowded

def basic : Name := ⟨Utf8.encode "basic".toList, by decide⟩

def note : Name := ⟨Utf8.encode "note".toList, by decide⟩

def stray : Name := ⟨Utf8.encode "stray".toList, by decide⟩

/-- The link goes on from the file `note`, as if that were a directory. -/
def strayLink : Node := .link (Utf8.encode "note/y".toList)

/-- A suite with a trial, a file and the link. -/
def tree : FileTree where
  nodes :=
    [([Suite.success.entry], .dir), ([basic, Suite.success.entry], .dir),
      ([note, Suite.success.entry], .file .plain), ([stray, Suite.success.entry], strayLink)]
  nodup := by decide
  workingDir := []

/-- The suite without the link. -/
def calm : FileTree := tree.erase [stray, Suite.success.entry]

theorem resolve_root : tree.resolve (Suite.success.dir Path.here) = .ok [Suite.success.entry] := by
  decide +kernel

theorem resolve_stray :
    tree.resolve (Suite.success.dir Path.here ++ Path.slash :: stray.bytes) =
      .error .notDirectory := by
  decide +kernel

theorem stray_mem : (stray, strayLink) ∈ tree.entries [Suite.success.entry] := by decide +kernel

theorem calm_resolve_root :
    calm.resolve (Suite.success.dir Path.here) = .ok [Suite.success.entry] := by
  decide +kernel

theorem calm_entries :
    calm.entries [Suite.success.entry] = [(basic, .dir), (note, .file .plain)] := by
  decide +kernel

theorem outcome_isError : ∃ e, (ofSuite tree Path.here .success).outcome = .error e :=
  error_of_broken resolve_root (by decide) stray_mem
    ⟨⟨_, rfl⟩, .notDirectory, resolve_stray, by decide⟩

theorem calm_outcome_isOk : (ofSuite calm Path.here .success).outcome.isOk = true := by
  rw [ofSuite_of_sorted calm_resolve_root (by decide) (by rw [calm_entries]; decide)]
  decide +kernel

end Crowded

/-! ## The listing without the entry -/

/-- Without an entry that leads to no directory the listing is the same exactly when the directory
of the suite is still found and either the entry is not broken and all else is found to be the
same, or another entry fails first, and does so still. A broken entry ends the listing; one that is
not broken yields nothing. -/
theorem ofSuite_erase_iff (hroot : t.resolve (suite.dir testsDir) = .ok loc)
    (hdir : t.isDir loc = true) (hx : (x, node) ∈ t.entries loc)
    (hnot : ¬ LeadsToDir t (suite.dir testsDir) loc (x, node)) :
    (IsBroken t (suite.dir testsDir) (x, node) →
      ∃ e, (ofSuite t testsDir suite).outcome = .error e) ∧
    (¬ IsBroken t (suite.dir testsDir) (x, node) →
      finding t suite (suite.dir testsDir) loc (x, node) = .ok none) ∧
    ((ofSuite (t.erase (x :: loc)) testsDir suite).outcome = (ofSuite t testsDir suite).outcome ↔
      (t.erase (x :: loc)).resolve (suite.dir testsDir) = .ok loc ∧
        ((¬ IsBroken t (suite.dir testsDir) (x, node) ∧
            AllAlike t suite (suite.dir testsDir) loc x) ∨
          FailsAlike t suite (suite.dir testsDir) loc x)) := by
  have hopen := suite.isOpen_dir testsDir
  have hgone := isDir_false_of_not_leadsToDir hx hnot
  refine ⟨error_of_broken hroot hdir hx, finding_of_other suite hopen hdir hx hnot, ?_⟩
  rcases FileTree.resolve_erase hgone (suite.dir testsDir) with hsame | hmissing
  · have hroot' := hsame.trans hroot
    rw [ofSuite_erase hdir hgone hroot', ofSuite_of_isDir hroot hdir]
    constructor
    · intro h
      exact ⟨hroot', alike_of_survey_erase hopen hdir hgone hx h⟩
    · rintro ⟨-, ⟨hbroken, halike⟩ | halike⟩
      · exact survey_erase_of_allAlike hopen hdir hx hnot hbroken halike
      · exact survey_erase_of_failsAlike hopen hgone halike
  · constructor
    · intro h
      refine absurd h.symm ?_
      simp only [ofSuite, hmissing]
      exact outcome_ne_missing hroot hdir
    · rintro ⟨hroot', -⟩
      rw [hmissing] at hroot'
      cases hroot'

/-- A file is ignored where no other entry leads through it. -/
theorem ofSuite_erase_note :
    (ofSuite (Crowded.calm.erase [Crowded.note, Suite.success.entry]) Path.here .success).outcome =
      (ofSuite Crowded.calm Path.here .success).outcome := by
  have hmem : (Crowded.note, .file .plain) ∈ Crowded.calm.entries [Suite.success.entry] := by
    rw [Crowded.calm_entries]
    decide
  refine (ofSuite_erase_iff Crowded.calm_resolve_root (by decide) hmem ?_).2.2.mpr
    ⟨by decide +kernel, .inl ⟨?_, ?_⟩⟩
  · rintro ⟨target, htarget, hplace⟩
    cases htarget
    revert hplace
    decide +kernel
  · rintro ⟨⟨target, hlink⟩, -⟩
    cases hlink
  · intro y hy hname
    rw [Crowded.calm_entries] at hy
    rcases List.mem_cons.mp hy with rfl | hrest
    · exact ⟨some (Trial.below Crowded.calm .success (Suite.success.dir Path.here) Crowded.basic),
        by decide +kernel, by decide +kernel⟩
    · obtain rfl := List.mem_singleton.mp hrest
      exact absurd rfl hname

/-- A link that goes through a file is not ignored. -/
theorem not_ofSuite_erase :
    ¬ ∀ (t : FileTree) (testsDir : ByteString) (suite : Suite) (loc : Location) (x : Name)
        (node : Node), t.resolve (suite.dir testsDir) = .ok loc → t.isDir loc = true →
        (x, node) ∈ t.entries loc → ¬ LeadsToDir t (suite.dir testsDir) loc (x, node) →
        (ofSuite (t.erase (x :: loc)) testsDir suite).outcome =
          (ofSuite t testsDir suite).outcome := by
  intro h
  have hnot : ¬ LeadsToDir Crowded.tree (Suite.success.dir Path.here) [Suite.success.entry]
      (Crowded.stray, Crowded.strayLink) := by
    rintro ⟨target, htarget, -⟩
    cases Crowded.resolve_stray.symm.trans htarget
  have hsame : (ofSuite Crowded.calm Path.here .success).outcome =
      (ofSuite Crowded.tree Path.here .success).outcome :=
    h Crowded.tree Path.here .success [Suite.success.entry] Crowded.stray Crowded.strayLink
      Crowded.resolve_root (by decide) Crowded.stray_mem hnot
  obtain ⟨e, herror⟩ := Crowded.outcome_isError
  have hok := Crowded.calm_outcome_isOk
  rw [hsame, herror] at hok
  cases hok

end CompilerTrials.Discovery
