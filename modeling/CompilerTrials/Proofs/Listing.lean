import CompilerTrials.Proofs.Lookups
import CompilerTrials.Discovery
import Mathlib.Data.List.Basic

/-!
# What a listing finds

The trials of a suite, said without the walk over its entries. An entry leads somewhere
(`Discovery.leadsTo`): a link to where its path resolves, everything else to itself. Only links can
make a listing fail, and only in two ways (`Discovery.IsBroken`, `Discovery.IsLoop`).

* `Discovery.finding_of_dir`, `Discovery.finding_of_other`, `Discovery.finding_of_fault`,
  `Discovery.finding_of_loop`: what one entry is found to be.
* `Discovery.survey_of_found`, `Discovery.survey_of_fault`: a survey keeps what it finds, up to the
  first fault.
* `Discovery.sortedEntries_strict`, `Discovery.sortedEntries_of_perm`: the entries are surveyed by
  strictly ascending names, in whichever order the tree stores them.
* `Discovery.ofSuite_listing`: when the trials of a suite can be listed, and what the list is.
-/

namespace CompilerTrials.Discovery

variable {t u : FileTree} {suite : Suite} {root : ByteString} {loc : Location}
variable {entry : Name × Node} {entries : List (Name × Node)}

/-! ## Where an entry leads -/

/-- Where an entry of the directory `root`, which is at `loc`, leads. -/
def leadsTo (t : FileTree) (root : ByteString) (loc : Location) (entry : Name × Node) :
    Except Fault Location :=
  match entry.2 with
  | .link _ => t.resolve (root ++ Path.slash :: entry.1.bytes)
  | _ => .ok (entry.1 :: loc)

/-- The entry is a directory, or a link to one. -/
def LeadsToDir (t : FileTree) (root : ByteString) (loc : Location) (entry : Name × Node) : Prop :=
  ∃ target, leadsTo t root loc entry = .ok target ∧ t.isDir target = true

/-- The entry is a link that fails to lead anywhere, though nothing on its way is missing. -/
def IsBroken (t : FileTree) (root : ByteString) (entry : Name × Node) : Prop :=
  (∃ target, entry.2 = .link target) ∧
    ∃ fault, t.resolve (root ++ Path.slash :: entry.1.bytes) = .error fault ∧ fault ≠ .notFound

/-- The entry is a link back to the directory that holds it. -/
def IsLoop (t : FileTree) (root : ByteString) (loc : Location) (entry : Name × Node) : Prop :=
  (∃ target, entry.2 = .link target) ∧
    t.resolve (root ++ Path.slash :: entry.1.bytes) = .ok loc

/-- For paths that are short enough to be looked up, an entry leads where its path resolves. -/
theorem leadsTo_eq_resolve (hopen : Path.isOpen root = false) (hroot : t.resolve root = .ok loc)
    (hdir : t.isDir loc = true) (hentry : entry ∈ t.entries loc)
    (hlength : (root ++ Path.slash :: entry.1.bytes).length < FileTree.pathLimit) :
    leadsTo t root loc entry = t.resolve (root ++ Path.slash :: entry.1.bytes) := by
  obtain ⟨e, node⟩ := entry
  have hnode := FileTree.mem_entries.mp hentry
  cases node with
  | link target => rfl
  | file mode =>
    exact (FileTree.resolve_below hopen hroot hdir hnode (fun _ h => by cases h) hlength).symm
  | dir =>
    exact (FileTree.resolve_below hopen hroot hdir hnode (fun _ h => by cases h) hlength).symm

/-! ## One entry -/

/-- What one entry is found to be. -/
def finding (t : FileTree) (suite : Suite) (root : ByteString) (loc : Location)
    (entry : Name × Node) : Except Error (Option Trial) :=
  (inspect t suite root loc entry).outcome

/-- The error that an entry makes names the directory and the path of the entry. -/
theorem finding_error (hopen : Path.isOpen root = false) {e : Error}
    (h : finding t suite root loc entry = .error e) :
    e = .discovery root (.ancestor (root ++ Path.slash :: entry.1.bytes) root) ∨
      ∃ fault, e = .discovery root (.listing (root ++ Path.slash :: entry.1.bytes) fault) := by
  simp only [finding, inspect, Path.join_name hopen] at h
  split at h
  · cases h
  · cases h
  · split at h
    · split at h
      · cases h
        exact .inl rfl
      · split at h <;> cases h
    · cases h
    · cases h
      exact .inr ⟨_, rfl⟩

theorem finding_of_loop (hopen : Path.isOpen root = false) (h : IsLoop t root loc entry) :
    finding t suite root loc entry =
      .error (.discovery root (.ancestor (root ++ Path.slash :: entry.1.bytes) root)) := by
  obtain ⟨⟨target, hlink⟩, hresolve⟩ := h
  simp [finding, inspect, Path.join_name hopen, hlink, hresolve, Transcript.fail]

theorem finding_of_fault (hopen : Path.isOpen root = false) {target : ByteString} {fault : Fault}
    (hlink : entry.2 = .link target)
    (hresolve : t.resolve (root ++ Path.slash :: entry.1.bytes) = .error fault)
    (hfault : fault ≠ .notFound) :
    finding t suite root loc entry =
      .error (.discovery root (.listing (root ++ Path.slash :: entry.1.bytes) fault)) := by
  simp only [finding, inspect, Path.join_name hopen, hlink, hresolve]
  cases fault <;> first | exact absurd rfl hfault | rfl

theorem finding_of_dir (suite : Suite) (hopen : Path.isOpen root = false)
    (hentry : entry ∈ t.entries loc) (hdir : LeadsToDir t root loc entry)
    (hloop : ¬ IsLoop t root loc entry) :
    finding t suite root loc entry = .ok (some (Trial.below t suite root entry.1)) := by
  obtain ⟨e, node⟩ := entry
  obtain ⟨place, hleads, hplace⟩ := hdir
  have hnode := FileTree.mem_entries.mp hentry
  cases node with
  | file mode =>
    cases hleads
    simp [FileTree.isDir, hnode] at hplace
  | dir =>
    simp only [finding, inspect, Path.join_name hopen, Trial.ofPath_below]
    rfl
  | link target =>
    have hresolve : t.resolve (root ++ Path.slash :: e.bytes) = .ok place := hleads
    have hne : place ≠ loc := fun h => hloop ⟨⟨target, rfl⟩, h ▸ hresolve⟩
    simp only [finding, inspect, Path.join_name hopen, hresolve, if_neg hne, hplace,
      Trial.ofPath_below]
    rfl

theorem finding_of_other (suite : Suite) (hopen : Path.isOpen root = false)
    (hdirLoc : t.isDir loc = true) (hentry : entry ∈ t.entries loc)
    (hdir : ¬ LeadsToDir t root loc entry) (hbroken : ¬ IsBroken t root entry) :
    finding t suite root loc entry = .ok none := by
  obtain ⟨e, node⟩ := entry
  have hnode := FileTree.mem_entries.mp hentry
  cases node with
  | file mode => rfl
  | dir => exact absurd ⟨e :: loc, rfl, by simp [FileTree.isDir, hnode]⟩ hdir
  | link target =>
    simp only [finding, inspect, Path.join_name hopen]
    cases hresolve : t.resolve (root ++ Path.slash :: e.bytes) with
    | ok place =>
      have hplace : ¬ t.isDir place = true := fun h => hdir ⟨place, hresolve, h⟩
      have hne : place ≠ loc := fun h => hplace (h ▸ hdirLoc)
      simp only [if_neg hne, if_neg hplace]
      rfl
    | error fault =>
      by_cases hfault : fault = .notFound
      · subst hfault
        rfl
      · exact absurd ⟨⟨target, rfl⟩, fault, hresolve, hfault⟩ hbroken

/-- What an entry is found to be, if it is a trial. -/
theorem finding_some (hopen : Path.isOpen root = false) {c : Trial}
    (h : finding t suite root loc entry = .ok (some c)) : c = Trial.below t suite root entry.1 := by
  simp only [finding, inspect, Path.join_name hopen, Trial.ofPath_below] at h
  split at h
  · cases h
    rfl
  · cases h
  · split at h
    · split at h
      · cases h
      · split at h
        · cases h
          rfl
        · cases h
    · cases h
    · cases h

/-- An entry makes no fault exactly when it is neither broken nor a loop. -/
theorem finding_isOk_iff (suite : Suite) (hopen : Path.isOpen root = false)
    (hdirLoc : t.isDir loc = true) (hentry : entry ∈ t.entries loc) :
    (∃ found, finding t suite root loc entry = .ok found) ↔
      ¬ IsBroken t root entry ∧ ¬ IsLoop t root loc entry := by
  constructor
  · rintro ⟨found, hfound⟩
    refine ⟨?_, fun hloop => ?_⟩
    · rintro ⟨⟨target, hlink⟩, fault, hresolve, hfault⟩
      rw [finding_of_fault hopen hlink hresolve hfault] at hfound
      cases hfound
    · rw [finding_of_loop hopen hloop] at hfound
      cases hfound
  · rintro ⟨hbroken, hloop⟩
    by_cases hdir : LeadsToDir t root loc entry
    · exact ⟨_, finding_of_dir suite hopen hentry hdir hloop⟩
    · exact ⟨_, finding_of_other suite hopen hdirLoc hentry hdir hbroken⟩

/-! ## All entries -/

/-- The trial in what an entry leads to, if that is a directory. -/
def yield (t : FileTree) (suite : Suite) (root : ByteString) (loc : Location)
    (entry : Name × Node) : Option Trial :=
  match finding t suite root loc entry with
  | .ok found => found
  | .error _ => none

theorem finding_eq_yield (h : ∃ found, finding t suite root loc entry = .ok found) :
    finding t suite root loc entry = .ok (yield t suite root loc entry) := by
  obtain ⟨found, hfound⟩ := h
  simp only [yield, hfound]

theorem finding_of_yield {c : Trial} (h : yield t suite root loc entry = some c) :
    finding t suite root loc entry = .ok (some c) := by
  unfold yield at h
  split at h
  · rename_i hfound
    rw [hfound, h]
  · cases h

theorem outcome_survey_cons (t : FileTree) (suite : Suite) (root : ByteString) (loc : Location)
    (entry : Name × Node) (rest : List (Name × Node)) :
    (survey t suite root loc (entry :: rest)).outcome =
      finding t suite root loc entry >>= fun found =>
        (survey t suite root loc rest).outcome >>= fun later => .ok (found.toList ++ later) := by
  simp [survey, finding, Transcript.done]

theorem survey_of_found
    (h : ∀ entry ∈ entries, ∃ found, finding t suite root loc entry = .ok found) :
    (survey t suite root loc entries).outcome =
      .ok (entries.filterMap (yield t suite root loc)) := by
  induction entries with
  | nil => rfl
  | cons entry rest ih =>
    have hrest := ih (fun e he => h e (List.mem_cons_of_mem _ he))
    rw [outcome_survey_cons, finding_eq_yield (h entry List.mem_cons_self), hrest]
    cases hyield : yield t suite root loc entry <;>
      simp [hyield, bind, Except.bind]

/-- The first fault ends a survey. -/
theorem survey_of_fault {before after : List (Name × Node)} {e : Error}
    (hbefore : ∀ entry ∈ before, ∃ found, finding t suite root loc entry = .ok found)
    (h : finding t suite root loc entry = .error e) :
    (survey t suite root loc (before ++ entry :: after)).outcome = .error e := by
  induction before with
  | nil =>
    rw [List.nil_append, outcome_survey_cons, h]
    rfl
  | cons first rest ih =>
    have hrest := ih (fun e he => hbefore e (List.mem_cons_of_mem _ he))
    rw [List.cons_append, outcome_survey_cons,
      finding_eq_yield (hbefore first List.mem_cons_self), hrest]
    rfl

/-- Either nothing fails, or some entry is the first to fail. -/
theorem found_or_fault (t : FileTree) (suite : Suite) (root : ByteString) (loc : Location)
    (entries : List (Name × Node)) :
    (∀ entry ∈ entries, ∃ found, finding t suite root loc entry = .ok found) ∨
      ∃ before entry after e, entries = before ++ entry :: after ∧
        (∀ other ∈ before, ∃ found, finding t suite root loc other = .ok found) ∧
        finding t suite root loc entry = .error e := by
  induction entries with
  | nil => exact .inl (by simp)
  | cons first rest ih =>
    cases hfirst : finding t suite root loc first with
    | error e => exact .inr ⟨[], first, rest, e, rfl, by simp, hfirst⟩
    | ok found =>
      rcases ih with hall | ⟨before, entry, after, e, rfl, hbefore, hentry⟩
      · refine .inl fun entry hentry => ?_
        rcases List.mem_cons.mp hentry with rfl | hmem
        · exact ⟨found, hfirst⟩
        · exact hall entry hmem
      · refine .inr ⟨first :: before, entry, after, e, rfl, fun other hother => ?_, hentry⟩
        rcases List.mem_cons.mp hother with rfl | hmem
        · exact ⟨found, hfirst⟩
        · exact hbefore other hmem

/-! ## The order of the entries -/

/-- No two entries of a directory share a name. -/
theorem entries_pairwise_ne (t : FileTree) (loc : Location) :
    (t.entries loc).Pairwise (fun a b => a.1 ≠ b.1) := by
  have hkeys : t.nodes.Pairwise (fun p q => p.1 ≠ q.1) := List.pairwise_map.mp t.nodup
  refine hkeys.filterMap _ ?_
  rintro ⟨place, node⟩ ⟨place', node'⟩ hne ⟨e, n⟩ he ⟨e', n'⟩ he' heq
  cases place with
  | nil => simp [FileTree.entryIn] at he
  | cons name parent =>
    cases place' with
    | nil => simp [FileTree.entryIn] at he'
    | cons name' parent' =>
      simp only [FileTree.entryIn, Option.ite_none_right_eq_some, Option.some.injEq,
        Prod.mk.injEq] at he he'
      obtain ⟨hparent, hname, -⟩ := he
      obtain ⟨hparent', hname', -⟩ := he'
      apply hne
      rw [hparent, hparent', hname, hname']
      exact congrArg (· :: loc) heq

theorem entry_ext {other : Name × Node} (h : entry ∈ t.entries loc) (h' : other ∈ t.entries loc)
    (hname : entry.1 = other.1) : entry = other := by
  have hnode := FileTree.mem_entries.mp h
  rw [hname, FileTree.mem_entries.mp h'] at hnode
  exact Prod.ext hname (Option.some.inj hnode).symm

theorem sortedEntries_perm (t : FileTree) (loc : Location) :
    (sortedEntries t loc).Perm (t.entries loc) := List.mergeSort_perm _ _

/-- What stands before an entry is less, and what is less stands before it. -/
theorem mem_before_of_lt {l before after : List (Name × Node)} {other : Name × Node}
    (hstrict : l.Pairwise (fun a b => a.1.bytes < b.1.bytes))
    (hsplit : l = before ++ entry :: after) (hother : other ∈ l)
    (hlt : other.1.bytes < entry.1.bytes) : other ∈ before := by
  subst hsplit
  rcases List.mem_append.mp hother with hmem | hmem
  · exact hmem
  · rcases List.mem_cons.mp hmem with rfl | hafter
    · exact absurd hlt (List.lt_irrefl _)
    · have hrest := (List.pairwise_append.mp hstrict).2.1
      exact absurd hlt (List.lt_asymm ((List.pairwise_cons.mp hrest).1 other hafter))

theorem mem_sortedEntries : entry ∈ sortedEntries t loc ↔ entry ∈ t.entries loc :=
  (sortedEntries_perm t loc).mem_iff

theorem sortedEntries_strict (t : FileTree) (loc : Location) :
    (sortedEntries t loc).Pairwise (fun a b => a.1.bytes < b.1.bytes) := by
  have hle : (sortedEntries t loc).Pairwise (fun a b => a.1.bytes ≤ b.1.bytes) := by
    have hsorted := @List.pairwise_mergeSort (Name × Node) (fun a b => a.1.bytes ≤ b.1.bytes)
      (fun a b c hab hbc => by
        simpa using Std.le_trans (of_decide_eq_true hab) (of_decide_eq_true hbc))
      (fun a b => by simpa using Std.le_total (a := a.1.bytes) (b := b.1.bytes)) (t.entries loc)
    simpa only [sortedEntries, decide_eq_true_eq] using hsorted
  have hne : (sortedEntries t loc).Pairwise (fun a b => a.1 ≠ b.1) :=
    ((sortedEntries_perm t loc).pairwise_iff (fun h => h.symm)).mpr (entries_pairwise_ne t loc)
  exact (List.pairwise_and_iff.mpr ⟨hle, hne⟩).imp
    (fun h => Std.lt_of_le_of_ne h.1 (fun heq => h.2 (Name.ext_bytes heq)))

/-- A strictly ascending list is settled by its members. -/
theorem eq_of_strict_of_perm {l l' : List (Name × Node)}
    (hl : l.Pairwise (fun a b => a.1.bytes < b.1.bytes))
    (hl' : l'.Pairwise (fun a b => a.1.bytes < b.1.bytes)) (h : l.Perm l') : l = l' :=
  List.Perm.eq_of_pairwise (fun _ _ _ _ hab hba => absurd hba (List.lt_asymm hab)) hl hl' h

theorem sortedEntries_of_perm (h : t.nodes.Perm u.nodes) (loc : Location) :
    sortedEntries u loc = sortedEntries t loc := by
  refine eq_of_strict_of_perm (sortedEntries_strict u loc) (sortedEntries_strict t loc) ?_
  have hentries : (u.entries loc).Perm (t.entries loc) := (h.symm).filterMap _
  exact ((sortedEntries_perm u loc).trans hentries).trans (sortedEntries_perm t loc).symm

theorem ofPath_congr (hresolve : ∀ path, u.resolve path = t.resolve path) (suite : Suite)
    (path : ByteString) : Trial.ofPath u suite path = Trial.ofPath t suite path := by
  have hmarker := FileTree.resolves_congr (hresolve (Path.join path (Utf8.encode markerFile)))
  simp only [Trial.ofPath, TrialKind.detect, hmarker]

theorem inspect_congr (hresolve : ∀ path, u.resolve path = t.resolve path)
    (hdir : ∀ place, u.isDir place = t.isDir place) (suite : Suite) (root : ByteString)
    (loc : Location) (entry : Name × Node) :
    inspect u suite root loc entry = inspect t suite root loc entry := by
  simp only [inspect, hresolve, hdir, ofPath_congr hresolve]

theorem survey_congr (hresolve : ∀ path, u.resolve path = t.resolve path)
    (hdir : ∀ place, u.isDir place = t.isDir place) (suite : Suite) (root : ByteString)
    (loc : Location) (entries : List (Name × Node)) :
    survey u suite root loc entries = survey t suite root loc entries := by
  induction entries with
  | nil => rfl
  | cons entry rest ih => simp only [survey, inspect_congr hresolve hdir, ih]

/-- What is said and found does not depend on the order in which the nodes are stored. -/
theorem ofSuite_of_perm (h : t.nodes.Perm u.nodes) (hwork : u.workingDir = t.workingDir)
    (testsDir : ByteString) (suite : Suite) :
    ofSuite u testsDir suite = ofSuite t testsDir suite := by
  have hresolve := FileTree.resolve_of_perm h hwork
  have hdir := FileTree.isDir_congr (FileTree.node?_of_perm h)
  simp only [ofSuite, hresolve, hdir, sortedEntries_of_perm h, survey_congr hresolve hdir]

/-! ## The trials of a suite -/

/-- The directory at the path `root`, which is `loc`, can be listed. -/
structure Listable (t : FileTree) (root : ByteString) (loc : Location) : Prop where
  resolves : t.resolve root = .ok loc
  isDir : t.isDir loc = true
  none_broken : ∀ entry ∈ t.entries loc, ¬ IsBroken t root entry
  none_loops : ∀ entry ∈ t.entries loc, ¬ IsLoop t root loc entry

/-- No name occurs twice among ascending ones. -/
theorem nodup_of_ascending {names : List Name}
    (h : names.Pairwise (fun a b => a.bytes < b.bytes)) : names.Nodup := by
  apply h.imp
  rintro e _ hlt rfl
  exact List.lt_irrefl _ hlt

/-- The trials are those of the entries that lead to directories, one for each, by strictly
ascending bytes of their names. -/
def Lists (t : FileTree) (suite : Suite) (root : ByteString) (loc : Location)
    (trials : List Trial) : Prop :=
  ∃ names : List Name, names.Pairwise (fun a b => a.bytes < b.bytes) ∧
    (∀ e, e ∈ names ↔ ∃ node, (e, node) ∈ t.entries loc ∧ LeadsToDir t root loc (e, node)) ∧
    trials = names.map (Trial.below t suite root)

theorem Listable.found (hopen : Path.isOpen root = false) (h : Listable t root loc)
    (suite : Suite) (hentry : entry ∈ t.entries loc) :
    ∃ found, finding t suite root loc entry = .ok found :=
  (finding_isOk_iff suite hopen h.isDir hentry).mpr
    ⟨h.none_broken entry hentry, h.none_loops entry hentry⟩

theorem ofSuite_of_isDir {testsDir : ByteString} (hroot : t.resolve (suite.dir testsDir) = .ok loc)
    (hdir : t.isDir loc = true) :
    ofSuite t testsDir suite = survey t suite (suite.dir testsDir) loc (sortedEntries t loc) := by
  simp only [ofSuite, hroot, hdir, if_true]

/-- Entries that are stored in order are surveyed as they stand. -/
theorem ofSuite_of_sorted {testsDir : ByteString} (hroot : t.resolve (suite.dir testsDir) = .ok loc)
    (hdir : t.isDir loc = true)
    (hsorted : (t.entries loc).Pairwise (fun a b => a.1.bytes ≤ b.1.bytes)) :
    ofSuite t testsDir suite = survey t suite (suite.dir testsDir) loc (t.entries loc) := by
  rw [ofSuite_of_isDir hroot hdir, sortedEntries,
    List.mergeSort_of_pairwise (by simpa using hsorted)]

/-- The trials of a directory that can be listed. -/
theorem ofSuite_of_listable {testsDir : ByteString}
    (h : Listable t (suite.dir testsDir) loc) :
    (ofSuite t testsDir suite).outcome =
      .ok ((sortedEntries t loc).filterMap (yield t suite (suite.dir testsDir) loc)) := by
  rw [ofSuite_of_isDir h.resolves h.isDir]
  exact survey_of_found fun entry hentry =>
    h.found (suite.isOpen_dir testsDir) suite (mem_sortedEntries.mp hentry)

/-- Where an entry breaks the listing, it ends in an error. -/
theorem exists_error_of_fault {testsDir : ByteString} (hdir : t.isDir loc = true)
    (hroot : t.resolve (suite.dir testsDir) = .ok loc) (hentry : entry ∈ t.entries loc)
    (hfault : ¬ ∃ found, finding t suite (suite.dir testsDir) loc entry = .ok found) :
    ∃ e, (ofSuite t testsDir suite).outcome = .error e := by
  rw [ofSuite_of_isDir hroot hdir]
  rcases found_or_fault t suite (suite.dir testsDir) loc (sortedEntries t loc) with
    hall | ⟨before, first, after, e, hsplit, hbefore, hfirst⟩
  · exact absurd (hall entry (mem_sortedEntries.mpr hentry)) hfault
  · rw [hsplit]
    exact ⟨e, survey_of_fault hbefore hfirst⟩

theorem listable_of_ok {testsDir : ByteString} {trials : List Trial}
    (h : (ofSuite t testsDir suite).outcome = .ok trials) :
    ∃ loc, Listable t (suite.dir testsDir) loc := by
  have hopen := suite.isOpen_dir testsDir
  cases hroot : t.resolve (suite.dir testsDir) with
  | error fault =>
    simp only [ofSuite, hroot, Transcript.fail] at h
    cases h
  | ok loc =>
    by_cases hdir : t.isDir loc = true
    · have hfound : ∀ entry ∈ t.entries loc,
          ¬ IsBroken t (suite.dir testsDir) entry ∧ ¬ IsLoop t (suite.dir testsDir) loc entry := by
        intro entry hentry
        rw [← finding_isOk_iff suite hopen hdir hentry]
        refine Classical.byContradiction fun hfault => ?_
        obtain ⟨e, he⟩ := exists_error_of_fault hdir hroot hentry hfault
        rw [he] at h
        cases h
      exact ⟨loc, hroot, hdir, fun entry hentry => (hfound entry hentry).1,
        fun entry hentry => (hfound entry hentry).2⟩
    · simp only [ofSuite, hroot, if_neg hdir, Transcript.fail] at h
      cases h

theorem error_of_ofSuite {testsDir : ByteString} {e : Error}
    (h : (ofSuite t testsDir suite).outcome = .error e) :
    ∃ source, e = .discovery (suite.dir testsDir) source := by
  simp only [ofSuite] at h
  split at h
  · cases h
    exact ⟨_, rfl⟩
  · rename_i loc _
    split at h
    · rcases found_or_fault t suite (suite.dir testsDir) loc (sortedEntries t loc) with
        hall | ⟨before, first, after, e', hsplit, hbefore, hfirst⟩
      · rw [survey_of_found hall] at h
        cases h
      · rw [hsplit, survey_of_fault hbefore hfirst] at h
        cases h
        rcases finding_error (suite.isOpen_dir testsDir) hfirst with rfl | ⟨fault, rfl⟩
        · exact ⟨_, rfl⟩
        · exact ⟨_, rfl⟩
    · cases h
      exact ⟨_, rfl⟩

/-- What is listed are the trials of the entries that lead to directories. -/
theorem yield_of_listable {testsDir : ByteString} (h : Listable t (suite.dir testsDir) loc)
    (hentry : entry ∈ t.entries loc) {c : Trial} :
    yield t suite (suite.dir testsDir) loc entry = some c ↔
      LeadsToDir t (suite.dir testsDir) loc entry ∧
        c = Trial.below t suite (suite.dir testsDir) entry.1 := by
  have hopen := suite.isOpen_dir testsDir
  by_cases hdir : LeadsToDir t (suite.dir testsDir) loc entry
  · have hfound := finding_of_dir suite hopen hentry hdir (h.none_loops entry hentry)
    simp [yield, hfound, hdir, eq_comm]
  · have hfound := finding_of_other suite hopen h.isDir hentry hdir
      (h.none_broken entry hentry)
    simp [yield, hfound, hdir]

theorem lists_of_listable {testsDir : ByteString} (h : Listable t (suite.dir testsDir) loc) :
    Lists t suite (suite.dir testsDir) loc
      ((sortedEntries t loc).filterMap (yield t suite (suite.dir testsDir) loc)) := by
  let nameOf (entry : Name × Node) : Option Name :=
    (yield t suite (suite.dir testsDir) loc entry).map (fun _ => entry.1)
  have hname : ∀ entry e, nameOf entry = some e → entry.1 = e := by
    intro entry e he
    obtain ⟨_, _, hfst⟩ := Option.map_eq_some_iff.mp he
    exact hfst
  refine ⟨(sortedEntries t loc).filterMap nameOf, ?_, fun e => ?_, ?_⟩
  · refine (sortedEntries_strict t loc).filterMap _ fun a b hab e he e' he' => ?_
    rw [← hname a e he, ← hname b e' he']
    exact hab
  · constructor
    · intro he
      obtain ⟨⟨e', node⟩, hentry, hsome⟩ := List.mem_filterMap.mp he
      obtain rfl : e' = e := hname _ _ hsome
      obtain ⟨c, hc, -⟩ := Option.map_eq_some_iff.mp hsome
      have hmem := mem_sortedEntries.mp hentry
      exact ⟨node, hmem, ((yield_of_listable h hmem).mp hc).1⟩
    · rintro ⟨node, hmem, hdir⟩
      have hc := (yield_of_listable h hmem).mpr ⟨hdir, rfl⟩
      exact List.mem_filterMap.mpr
        ⟨(e, node), mem_sortedEntries.mpr hmem, Option.map_eq_some_iff.mpr ⟨_, hc, rfl⟩⟩
  · rw [List.map_filterMap]
    refine List.filterMap_congr fun entry hentry => ?_
    have hmem := mem_sortedEntries.mp hentry
    cases hc : yield t suite (suite.dir testsDir) loc entry with
    | none => simp [nameOf, hc]
    | some c => simp [nameOf, hc, ((yield_of_listable h hmem).mp hc).2]

/-- Listing a suite comes out well exactly when its directory resolves, no link in it is broken and
none leads back to it. The list then has one trial for each entry that leads to a directory, and
none for any other entry. Else the error names the directory of the suite. All this is the same
for any order in which the tree stores its nodes. -/
theorem ofSuite_listing (t : FileTree) (testsDir : ByteString) (suite : Suite) :
    ((∃ trials, (ofSuite t testsDir suite).outcome = .ok trials) ↔
      ∃ loc, Listable t (suite.dir testsDir) loc) ∧
    (∀ loc trials, t.resolve (suite.dir testsDir) = .ok loc →
      (ofSuite t testsDir suite).outcome = .ok trials →
      Lists t suite (suite.dir testsDir) loc trials) ∧
    (∀ e, (ofSuite t testsDir suite).outcome = .error e →
      ∃ source, e = .discovery (suite.dir testsDir) source) ∧
    ∀ u : FileTree, t.nodes.Perm u.nodes → u.workingDir = t.workingDir →
      (ofSuite u testsDir suite).outcome = (ofSuite t testsDir suite).outcome := by
  refine ⟨⟨fun ⟨trials, h⟩ => listable_of_ok h, fun ⟨loc, h⟩ => ⟨_, ofSuite_of_listable h⟩⟩,
    fun loc trials hroot h => ?_, fun e h => error_of_ofSuite h, fun u hperm hwork => ?_⟩
  · obtain ⟨place, hlistable⟩ := listable_of_ok h
    obtain rfl : place = loc := by
      rw [hlistable.resolves] at hroot
      exact Except.ok.inj hroot
    rw [ofSuite_of_listable hlistable] at h
    obtain rfl := Except.ok.inj h
    exact lists_of_listable hlistable
  · rw [ofSuite_of_perm hperm hwork]

end CompilerTrials.Discovery
