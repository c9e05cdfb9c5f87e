import CompilerTrials.Proofs.Previews
import CompilerTrials.Proofs.Masking
import CompilerTrials.Proofs.Utf8
import Mathlib.Data.List.Nodup

/-!
# Names of trials

A trial has the name of its directory as a text. Directories below one suite have different names,
but names that are not UTF-8 can have the same text, and then so have the trials.

* `Trial.qualifiedName_inj`: qualified names tell the suites apart.
* `Discovery.TellsApart`: the texts of their names tell the directories below a suite apart.
* `Discovery.tellsApart_of_encoded`: they do where all names are UTF-8.
* `Discovery.nodup_names_iff`: the qualified names of all trials differ exactly when the texts tell
  the directories below each suite apart.
* `Session.names_unique_iff`: a name selects every trial that has it, so it selects one trial alone
  exactly then.
* `Session.not_names_unique`: two directories whose trials have the same name.
-/

namespace CompilerTrials

variable {t : FileTree} {config : Config} {suite : Suite} {c d : Trial} {trials : List Trial}
variable {testsDir root : ByteString} {loc : Location}

/-! ## Qualified names -/

theorem Trial.qualifiedName_inj :
    c.qualifiedName = d.qualifiedName ↔ c.suite = d.suite ∧ c.name = d.name := by
  obtain ⟨name, suite, path, kind⟩ := c
  obtain ⟨name', suite', path', kind'⟩ := d
  constructor
  · intro h
    cases suite <;> cases suite'
    · exact ⟨rfl, List.append_cancel_left h⟩
    -- the names of the suites begin with different letters
    · cases h
    · cases h
    · exact ⟨rfl, List.append_cancel_left h⟩
  · rintro ⟨rfl, rfl⟩
    rfl

namespace Discovery

/-- Directories below the suite that have the same text as their name are the same. -/
def TellsApart (t : FileTree) (testsDir : ByteString) (suite : Suite) : Prop :=
  ∀ loc, t.resolve (suite.dir testsDir) = .ok loc →
    ∀ entry ∈ t.entries loc, ∀ other ∈ t.entries loc,
      LeadsToDir t (suite.dir testsDir) loc entry → LeadsToDir t (suite.dir testsDir) loc other →
      Utf8.decodeLossy entry.1.bytes = Utf8.decodeLossy other.1.bytes → entry.1 = other.1

/-- Names that are UTF-8 differ as texts if they differ. -/
theorem tellsApart_of_encoded
    (h : ∀ loc, t.resolve (suite.dir testsDir) = .ok loc →
      ∀ entry ∈ t.entries loc, ∃ text, entry.1.bytes = Utf8.encode text) :
    TellsApart t testsDir suite := by
  intro loc hroot entry hentry other hother _ _ htext
  obtain ⟨text, hbytes⟩ := h loc hroot entry hentry
  obtain ⟨text', hbytes'⟩ := h loc hroot other hother
  rw [hbytes, hbytes', Utf8.decodeLossy_encode, Utf8.decodeLossy_encode] at htext
  exact Name.ext_bytes (by rw [hbytes, hbytes', htext])

theorem qualifiedName_below (t : FileTree) (suite : Suite) (root : ByteString) (e e' : Name) :
    (Trial.below t suite root e).qualifiedName = (Trial.below t suite root e').qualifiedName ↔
      Utf8.decodeLossy e.bytes = Utf8.decodeLossy e'.bytes :=
  Trial.qualifiedName_inj.trans (and_iff_right rfl)

/-- The names of the trials of one suite. -/
theorem nodup_names_ofSuite_iff (h : (ofSuite t testsDir suite).outcome = .ok trials) :
    (trials.map Trial.qualifiedName).Nodup ↔ TellsApart t testsDir suite := by
  obtain ⟨loc, hlistable⟩ := listable_of_ok h
  rw [ofSuite_of_listable hlistable] at h
  obtain rfl := Except.ok.inj h
  obtain ⟨names, hstrict, hmem, htrials⟩ := lists_of_listable hlistable
  rw [htrials, List.map_map, List.nodup_map_iff_inj_on (nodup_of_ascending hstrict)]
  constructor
  · intro hinj place hroot entry hentry other hother hdir hdir' htext
    obtain rfl : loc = place := Except.ok.inj (hlistable.resolves.symm.trans hroot)
    exact hinj _ ((hmem _).mpr ⟨_, hentry, hdir⟩) _ ((hmem _).mpr ⟨_, hother, hdir'⟩)
      ((qualifiedName_below ..).mpr htext)
  · intro hapart e he e' he' hname
    obtain ⟨node, hentry, hdir⟩ := (hmem e).mp he
    obtain ⟨node', hentry', hdir'⟩ := (hmem e').mp he'
    exact hapart loc hlistable.resolves _ hentry _ hentry' hdir hdir'
      ((qualifiedName_below ..).mp hname)

/-- The names of all trials. -/
theorem nodup_names_iff (h : (all t testsDir).outcome = .ok trials) :
    (trials.map Trial.qualifiedName).Nodup ↔ ∀ suite, TellsApart t testsDir suite := by
  obtain ⟨accepted, rejected, haccepted, hrejected, rfl⟩ := all_of_ok h
  have hdisjoint : ∀ q ∈ accepted.map Trial.qualifiedName,
      ∀ q' ∈ rejected.map Trial.qualifiedName, q ≠ q' := by
    intro q hq q' hq' heq
    obtain ⟨c, hc, rfl⟩ := List.mem_map.mp hq
    obtain ⟨d, hd, rfl⟩ := List.mem_map.mp hq'
    have hsuite := (Trial.qualifiedName_inj.mp heq).1
    rw [suite_of_mem haccepted hc, suite_of_mem hrejected hd] at hsuite
    cases hsuite
  rw [List.map_append, List.nodup_append, nodup_names_ofSuite_iff haccepted,
    nodup_names_ofSuite_iff hrejected]
  constructor
  · rintro ⟨hsuccess, herror, -⟩ suite
    cases suite with
    | success => exact hsuccess
    | error => exact herror
  · intro hall
    exact ⟨hall .success, hall .error, hdisjoint⟩

end Discovery

/-! ## Selecting by name -/

/-- The selection of what has exactly this name. -/
def Selection.only (q : Text) : Selection := { included := [q], exact := true }

theorem Selection.accepts_only (q name : Text) : (only q).accepts name = decide (name = q) := by
  simp [only, accepts, matchesAny, filterMatches, eq_comm]

namespace Session

/-- Listing by an exact name gives that name once for each trial that has it. -/
theorem outcome_list_only (h : (Discovery.all t config.testsDir).outcome = .ok trials)
    (q : Text) : (list t config (.only q)).outcome =
      .ok (List.replicate ((trials.map Trial.qualifiedName).count q) q) := by
  have haccepts : (Selection.only q).accepts = fun name => decide (name = q) :=
    funext fun name => Selection.accepts_only q name
  rw [outcome_list, h, haccepts]
  exact congrArg Except.ok (List.filter_eq q)

/-- A name is listed once by itself exactly when no other trial has it. -/
theorem nodup_iff_list_only (h : (Discovery.all t config.testsDir).outcome = .ok trials) :
    (trials.map Trial.qualifiedName).Nodup ↔
      ∀ q ∈ trials.map Trial.qualifiedName, (list t config (.only q)).outcome = .ok [q] := by
  rw [List.nodup_iff_count_eq_one]
  refine forall₂_congr fun q _ => ?_
  rw [outcome_list_only h, Except.ok.injEq, ← List.replicate_one, List.replicate_left_inj]

/-- Where both suites can be listed, a listing without filters gives the names of all trials, and
one by an exact name gives that name once for each trial that has it. So the names of the trials
differ, and each selects one trial alone, exactly when the texts of their names tell the directories
below each suite apart. -/
theorem names_unique_iff (h : (Discovery.all t config.testsDir).outcome = .ok trials) :
    (∀ unfiltered : Selection, unfiltered.Unfiltered →
      (list t config unfiltered).outcome = .ok (trials.map Trial.qualifiedName)) ∧
    (∀ q, (list t config (.only q)).outcome =
      .ok (List.replicate ((trials.map Trial.qualifiedName).count q) q)) ∧
    ((trials.map Trial.qualifiedName).Nodup ↔
      ∀ suite, Discovery.TellsApart t config.testsDir suite) ∧
    ((∀ q ∈ trials.map Trial.qualifiedName, (list t config (.only q)).outcome = .ok [q]) ↔
      ∀ suite, Discovery.TellsApart t config.testsDir suite) := by
  have hnodup := Discovery.nodup_names_iff h
  refine ⟨fun unfiltered hnone => ?_, outcome_list_only h, hnodup,
    (nodup_iff_list_only h).symm.trans hnodup⟩
  have hkept : (trials.map Trial.qualifiedName).filter unfiltered.accepts =
      trials.map Trial.qualifiedName :=
    List.filter_eq_self.mpr fun name _ => hnone.accepts name
  rw [outcome_list, h]
  exact congrArg Except.ok hkept

/-! ### Two trees -/

namespace Sample

theorem tellsApart_tree (suite : Suite) :
    Discovery.TellsApart tree setup.testsDir suite := by
  apply Discovery.tellsApart_of_encoded
  intro loc hroot entry hentry
  have hplace : tree.resolve (suite.dir setup.testsDir) = .ok [suite.entry] := by
    cases suite <;> decide +kernel
  obtain rfl : [suite.entry] = loc := Except.ok.inj (hplace.symm.trans hroot)
  cases suite with
  | success =>
    obtain rfl := List.mem_singleton.mp hentry
    exact ⟨"hello".toList, rfl⟩
  | error =>
    obtain rfl := List.mem_singleton.mp hentry
    exact ⟨"typo".toList, rfl⟩

/-- Two names of one byte that is no character. -/
def first : Name := ⟨[0xFE], by decide⟩

def second : Name := ⟨[0xFF], by decide⟩

/-- Two trials below `success`, whose directories have different names. -/
def twins : FileTree where
  nodes :=
    [([Suite.success.entry], .dir), ([first, Suite.success.entry], .dir),
      ([second, Suite.success.entry], .dir), ([Suite.error.entry], .dir)]
  nodup := by decide
  workingDir := []

/-- The trial in a directory of such a name. -/
def blurred (e : Name) : Trial :=
  ⟨['\uFFFD'], .success, Utf8.encode "./success/".toList ++ e.bytes, .singleFile⟩

/-- The name that both trials have. -/
def shared : Text := "success::\uFFFD".toList

theorem outcome_twins :
    (Discovery.all twins setup.testsDir).outcome = .ok [blurred first, blurred second] := by
  have hsuccess : twins.resolve (Suite.success.dir setup.testsDir) = .ok [Suite.success.entry] := by
    decide +kernel
  have herror : twins.resolve (Suite.error.dir setup.testsDir) = .ok [Suite.error.entry] := by
    decide +kernel
  rw [Discovery.outcome_all, Discovery.ofSuite_of_sorted hsuccess (by decide) (by decide +kernel),
    Discovery.ofSuite_of_sorted herror (by decide) (by decide +kernel)]
  decide +kernel

end Sample

/-- Each trial of this tree is listed alone by its name. -/
theorem names_unique_sample :
    (Discovery.all Sample.tree Sample.setup.testsDir).outcome =
        .ok [Sample.accepted, Sample.rejected] ∧
      ["success::hello".toList, "error::typo".toList].Nodup ∧
      (list Sample.tree Sample.setup (.only "error::typo".toList)).outcome =
        .ok ["error::typo".toList] := by
  obtain ⟨-, -, hnodup, honly⟩ := names_unique_iff Sample.outcome_both
  refine ⟨Sample.outcome_both, hnodup.mpr Sample.tellsApart_tree, ?_⟩
  exact honly.mpr Sample.tellsApart_tree _ (by decide)

/-- Two directories that differ in name can hold trials that do not. -/
theorem not_names_unique :
    (∃ trials, (Discovery.all Sample.twins Sample.setup.testsDir).outcome = .ok trials ∧
      ¬ (trials.map Trial.qualifiedName).Nodup) ∧
    (list Sample.twins Sample.setup {}).outcome = .ok [Sample.shared, Sample.shared] ∧
    (list Sample.twins Sample.setup (.only Sample.shared)).outcome =
      .ok [Sample.shared, Sample.shared] := by
  refine ⟨⟨_, Sample.outcome_twins, by decide⟩, ?_, ?_⟩
  · rw [outcome_list, Sample.outcome_twins]
    rfl
  · rw [outcome_list, Sample.outcome_twins]
    rfl

end Session

end CompilerTrials
