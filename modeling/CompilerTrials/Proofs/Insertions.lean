import CompilerTrials.Invocation
import CompilerTrials.Proofs.Variables

/-!
# The infrastructure between other arguments

The flag of the infrastructure has its value attached, or none. It can stand at every place of a
command line but one behind two dashes and one where a setting waits for its value, and what stands
there before and behind it is read as it was without it.

* `CommandLine.Awaits`: a setting waits for its value behind these arguments.
* `CommandLine.exists_items_of_append`: every other place lies between two items.
* `Given.told`: what is given, with this infrastructure; `Given.foldlM_give_told` and
  `Given.addVariables_told` say that all else is given, and stands in, as before.
* `CommandLine.read_insert`: an item that gives an infrastructure, at such a place.
* `CommandLine.read_insert_infrastructure`: both ways to spell the flag, and what the compiler is
  told then.
-/

namespace CompilerTrials

open Argument (dash equals)

open CommandLine

/-! ## Places between arguments -/

theorem Setting.mem_all (s : Setting) : s ∈ Setting.all := by
  cases s <;> decide

namespace CommandLine

variable {args first later : List ByteString} {items : List Item}
variable {rest : Option (List ByteString)}

/-- The last argument names a setting that takes the next argument as its value. -/
def Awaits (args : List ByteString) : Prop :=
  ∃ s ∈ Setting.all, s ≠ .infrastructure ∧ args.getLast? = some (spellLong s.longName)

instance (args : List ByteString) : Decidable (Awaits args) := List.decidableBEx _ _

theorem Awaits.cons (h : Awaits args) (bytes : ByteString) : Awaits (bytes :: args) := by
  obtain ⟨s, hmem, hs, hlast⟩ := h
  refine ⟨s, hmem, hs, ?_⟩
  rw [List.getLast?_cons, hlast, Option.getD_some]

/-- An item is one argument, or a setting and the value that it waits for. -/
theorem spelled_cases (item : Item) :
    (∃ bytes, item.spelled = [bytes]) ∨
      ∃ s v, s ≠ .infrastructure ∧ item.spelled = [spellLong (Setting.longName s), v] := by
  cases item with
  | separate s hs v hv => exact .inr ⟨s, v, hs, rfl⟩
  | switch s => exact .inl ⟨_, rfl⟩
  | shortVerbose => exact .inl ⟨_, rfl⟩
  | attached s v => exact .inl ⟨_, rfl⟩
  | bareInfrastructure => exact .inl ⟨_, rfl⟩
  | filter v hv => exact .inl ⟨_, rfl⟩

/-- Where no setting waits for its value, and before two dashes, a place is between two items. -/
theorem exists_items_of_append (hmore : [dash, dash] ∉ first) (hawaits : ¬ Awaits first)
    (h : items.flatMap Item.spelled ++ Line.spelledRest rest = first ++ later) :
    ∃ before after, before ++ after = items ∧ before.flatMap Item.spelled = first ∧
      after.flatMap Item.spelled ++ Line.spelledRest rest = later := by
  induction items generalizing first with
  | nil =>
    cases first with
    | nil => exact ⟨[], [], rfl, rfl, h⟩
    | cons bytes first =>
      exfalso
      cases rest with
      | none => cases h
      | some filters =>
        obtain ⟨hdashes, -⟩ := List.cons.inj h
        apply hmore
        rw [← hdashes]
        exact List.mem_cons_self
  | cons item items ih =>
    cases first with
    | nil => exact ⟨[], item :: items, rfl, rfl, h⟩
    | cons bytes first =>
      have hmore' : [dash, dash] ∉ first := fun hmem => hmore (List.mem_cons_of_mem _ hmem)
      have hawaits' : ¬ Awaits first := fun hlast => hawaits (hlast.cons bytes)
      rw [List.flatMap_cons, List.append_assoc] at h
      obtain ⟨bytes', hspelled⟩ | ⟨s, v, hs, hspelled⟩ := spelled_cases item
      · rw [hspelled] at h
        obtain ⟨rfl, htail⟩ := List.cons.inj h
        obtain ⟨before, after, rfl, rfl, hlater⟩ := ih hmore' hawaits' htail
        refine ⟨item :: before, after, rfl, ?_, hlater⟩
        rw [List.flatMap_cons, hspelled, List.singleton_append]
      · rw [hspelled] at h
        obtain ⟨rfl, htail⟩ := List.cons.inj h
        cases first with
        | nil => exact absurd ⟨s, s.mem_all, hs, rfl⟩ hawaits
        | cons value first =>
          have hmore'' : [dash, dash] ∉ first := fun hmem => hmore' (List.mem_cons_of_mem _ hmem)
          have hawaits'' : ¬ Awaits first := fun hlast => hawaits' (hlast.cons value)
          obtain ⟨rfl, hrest⟩ := List.cons.inj htail
          obtain ⟨before, after, rfl, rfl, hlater⟩ := ih hmore'' hawaits'' hrest
          refine ⟨item :: before, after, rfl, ?_, hlater⟩
          rw [List.flatMap_cons, hspelled]
          rfl

end CommandLine

/-! ## All but the infrastructure -/

namespace Given

variable {env : Environment} {g g' : Given} {s : Setting} {v dir : ByteString}
variable {x : Option ByteString} {gift : Gift} {gifts : List Gift} {o : Options}

/-- What is given, with this infrastructure. -/
def told (g : Given) (dir : ByteString) : Given := { g with infrastructure := some dir }

theorem has_told (hs : s ≠ .infrastructure) (g : Given) (dir : ByteString) :
    (g.told dir).has s = g.has s := by
  cases s with
  | infrastructure => exact absurd rfl hs
  | compilerPath | testsPath | format | skip => rfl

theorem put_told (hs : s ≠ .infrastructure) (h : g.put s v = .ok g') (dir : ByteString) :
    (g.told dir).put s v = .ok (g'.told dir) := by
  cases s with
  | infrastructure => exact absurd rfl hs
  | compilerPath | testsPath | skip =>
    obtain ⟨w, hw, ⟨⟩⟩ := bind_eq_ok_iff.mp h
    exact bind_eq_ok_iff.mpr ⟨w, hw, rfl⟩
  | format =>
    obtain ⟨w, hw, h⟩ := bind_eq_ok_iff.mp h
    obtain ⟨f, hf, ⟨⟩⟩ := bind_eq_ok_iff.mp h
    exact bind_eq_ok_iff.mpr ⟨w, hw, bind_eq_ok_iff.mpr ⟨f, hf, rfl⟩⟩

/-- A gift that is no infrastructure is accepted as before. -/
theorem give_told (hgift : gift.parameter? ≠ some (.setting .infrastructure))
    (h : g.give gift = .ok g') (dir : ByteString) :
    (g.told dir).give gift = .ok (g'.told dir) := by
  cases gift with
  | on s =>
    obtain ⟨hoff, rfl⟩ := turnOn_eq_ok_iff.mp h
    apply turnOn_eq_ok_iff.mpr
    cases s <;> exact ⟨hoff, rfl⟩
  | value s v =>
    have hs : s ≠ .infrastructure := by
      rintro rfl
      exact hgift rfl
    obtain ⟨hfree, hput⟩ := set_eq_ok_iff.mp h
    exact set_eq_ok_iff.mpr ⟨(has_told hs g dir).trans hfree, put_told hs hput dir⟩
  | filter v =>
    obtain ⟨ts, hts, rfl⟩ := addFilters_eq_ok_iff.mp h
    exact addFilters_eq_ok_iff.mpr ⟨ts, hts, rfl⟩

theorem foldlM_give_told
    (hgifts : ∀ gift ∈ gifts, gift.parameter? ≠ some (.setting .infrastructure))
    (h : gifts.foldlM give g = .ok g') (dir : ByteString) :
    gifts.foldlM give (g.told dir) = .ok (g'.told dir) := by
  induction gifts generalizing g with
  | nil =>
    obtain ⟨⟩ := h
    rfl
  | cons gift gifts ih =>
    obtain ⟨hgift, hrest⟩ := List.forall_mem_cons.mp hgifts
    obtain ⟨g₁, hfirst, hlater⟩ := bind_eq_ok_iff.mp h
    exact bind_eq_ok_iff.mpr ⟨g₁.told dir, give_told hgift hfirst dir, ih hrest hlater⟩

/-- Where none is given yet, an infrastructure is accepted. -/
theorem give_infrastructure (hfree : g.has .infrastructure = false) (hdir : dir ≠ []) :
    g.give (.value .infrastructure dir) = .ok (g.told dir) := by
  apply set_eq_ok_iff.mpr
  refine ⟨hfree, bind_eq_ok_iff.mpr ⟨dir, ?_, rfl⟩⟩
  exact nonempty_eq_ok_iff.mpr ⟨hdir, rfl⟩

/-- Gifts that are no infrastructure leave none behind. -/
theorem has_infrastructure_of_foldlM
    (hgifts : ∀ gift ∈ gifts, gift.parameter? ≠ some (.setting .infrastructure))
    (h : gifts.foldlM give {} = .ok g) : g.has .infrastructure = false := by
  have hnone : gifts.filterMap (Gift.valueOf .infrastructure) = [] := by
    apply List.filterMap_eq_nil_iff.mpr
    intro gift hmem
    cases gift with
    | value s v =>
      apply if_neg
      rintro rfl
      exact hgifts _ hmem rfl
    | on s | filter v => rfl
  have hvalues := (foldlM_give_eq_ok_iff.mp h).values .infrastructure
  rw [hnone] at hvalues
  apply Bool.eq_false_iff.mpr
  intro hhas
  exact (has_iff.mp hhas).2 hvalues

/-! ### Variables -/

theorem standIn_told (h : g.standIn s x = .ok g') (dir : ByteString) :
    (g.told dir).standIn s x = .ok (g'.told dir) := by
  cases x with
  | none =>
    obtain ⟨⟩ := h
    rfl
  | some v =>
    by_cases hs : s = .infrastructure
    · -- the variable is hidden now, whatever it stood in for
      subst hs
      have hsame : g'.told dir = g.told dir := by
        simp only [standIn] at h
        split at h
        · obtain ⟨⟩ := h
          rfl
        · obtain ⟨w, -, ⟨⟩⟩ := bind_eq_ok_iff.mp h
          rfl
      rw [hsame]
      rfl
    · have hhas := has_told hs g dir
      by_cases hgiven : g.has s = true
      · rw [standIn, if_pos hgiven] at h
        obtain ⟨⟩ := h
        exact if_pos (hhas.trans hgiven)
      · rw [standIn, if_neg hgiven] at h
        rw [standIn, hhas, if_neg hgiven]
        exact put_told hs h dir

/-- The verbose variable turns its switch on or leaves all as it is, whatever the infrastructure. -/
theorem standInVerbose_cases (h : g.standInVerbose x = .ok g') :
    (g' = g ∨ g' = { g with verbose := true }) ∧
      ∀ dir, (g.told dir).standInVerbose x = .ok (g'.told dir) := by
  cases x with
  | none =>
    obtain ⟨⟩ := h
    exact ⟨.inl rfl, fun dir => rfl⟩
  | some v =>
    by_cases hon : g.verbose = true
    · rw [standInVerbose, if_pos hon] at h
      obtain ⟨⟩ := h
      exact ⟨.inl rfl, fun dir => if_pos hon⟩
    · rw [standInVerbose, if_neg hon] at h
      by_cases htrue : v = Utf8.encode "true".toList
      · rw [if_pos htrue] at h
        obtain ⟨⟩ := h
        exact ⟨.inr rfl, fun dir => (if_neg hon).trans (if_pos htrue)⟩
      · rw [if_neg htrue] at h
        by_cases hfalse : v = Utf8.encode "false".toList
        · rw [if_pos hfalse] at h
          obtain ⟨⟩ := h
          exact ⟨.inl rfl, fun dir =>
            (if_neg hon).trans ((if_neg htrue).trans (if_pos hfalse))⟩
        · rw [if_neg hfalse] at h
          split at h
          · cases h
          · cases h

/-- The variables stand in as before. -/
theorem addVariables_told (h : g.addVariables env = .ok g') (dir : ByteString) :
    (g.told dir).addVariables env = .ok (g'.told dir) := by
  unfold addVariables at h ⊢
  obtain ⟨g₁, hcompiler, h⟩ := bind_eq_ok_iff.mp h
  obtain ⟨g₂, htests, h⟩ := bind_eq_ok_iff.mp h
  obtain ⟨g₃, hinfrastructure, hverbose⟩ := bind_eq_ok_iff.mp h
  exact bind_eq_ok_iff.mpr ⟨_, standIn_told hcompiler dir,
    bind_eq_ok_iff.mpr ⟨_, standIn_told htests dir,
      bind_eq_ok_iff.mpr ⟨_, standIn_told hinfrastructure dir,
        (standInVerbose_cases hverbose).2 dir⟩⟩⟩

/-- Only its own variable stands in for the infrastructure. -/
theorem has_infrastructure_of_addVariables (henv : env.infrastructure = none)
    (h : g.addVariables env = .ok g') : g'.has .infrastructure = g.has .infrastructure := by
  unfold addVariables at h
  obtain ⟨g₁, hcompiler, h⟩ := bind_eq_ok_iff.mp h
  obtain ⟨g₂, htests, h⟩ := bind_eq_ok_iff.mp h
  obtain ⟨g₃, hinfrastructure, hverbose⟩ := bind_eq_ok_iff.mp h
  rw [henv] at hinfrastructure
  obtain ⟨⟩ := hinfrastructure
  have hsame : g'.has .infrastructure = g₂.has .infrastructure := by
    rcases (standInVerbose_cases hverbose).1 with rfl | rfl
    · rfl
    · rfl
  rw [hsame, has_of_standIn htests (by decide), has_of_standIn hcompiler (by decide)]

theorem options_told (h : g.options = .ok o) (dir : ByteString) :
    (g.told dir).options = .ok { o with infrastructure := some dir } := by
  rw [options] at h ⊢
  have hpath : (g.told dir).compilerPath = g.compilerPath := rfl
  rw [hpath]
  cases hcompiler : g.compilerPath with
  | none =>
    rw [hcompiler] at h
    cases h
  | some path =>
    rw [hcompiler] at h
    obtain ⟨⟩ := h
    rfl

theorem infrastructure_of_options (h : g.options = .ok o) :
    o.infrastructure = g.infrastructure := by
  rw [options] at h
  split at h
  · cases h
  · obtain ⟨⟩ := h
    rfl

end Given

/-! ## Command lines -/

namespace CommandLine

variable {env : Environment} {args first later : List ByteString} {g : Given} {o : Options}
variable {dir : ByteString}

/-- At a place between two items, an item that gives an infrastructure adds that to what the
arguments give, if they give none. -/
theorem given_insert (item : Item) (hitem : item.gift = .value .infrastructure dir)
    (hdir : dir ≠ []) (hgiven : given (first ++ later) = .ok g)
    (hnames : ¬ Names (first ++ later) (.setting .infrastructure))
    (hmore : [dash, dash] ∉ first) (hawaits : ¬ Awaits first) :
    given (first ++ item.spelled ++ later) = .ok (g.told dir) := by
  obtain ⟨⟨items, rest⟩, hspelled, hgifts⟩ := given_eq_ok_iff.mp hgiven
  have hnone : ∀ gift ∈ Line.gifts ⟨items, rest⟩,
      gift.parameter? ≠ some (.setting .infrastructure) := by
    intro gift hmem hparameter
    apply hnames
    rw [← hspelled]
    exact (names_spelled _).mpr ⟨gift, hmem, hparameter⟩
  obtain ⟨before, after, rfl, hfirst, hlater⟩ := exists_items_of_append hmore hawaits hspelled
  have hsplit : Line.gifts ⟨before ++ after, rest⟩ =
      before.map Item.gift ++ Line.gifts ⟨after, rest⟩ := by
    rw [Line.gifts, Line.gifts, List.map_append, List.append_assoc]
  rw [hsplit] at hnone hgifts
  rw [List.foldlM_append] at hgifts
  obtain ⟨g₁, hbefore, hafter⟩ := bind_eq_ok_iff.mp hgifts
  have hfree : g₁.has .infrastructure = false := Given.has_infrastructure_of_foldlM
    (fun gift hmem => hnone gift (List.mem_append_left _ hmem)) hbefore
  have htold := Given.foldlM_give_told
    (fun gift hmem => hnone gift (List.mem_append_right _ hmem)) hafter dir
  have hinserted : Line.gifts ⟨before ++ item :: after, rest⟩ =
      before.map Item.gift ++ item.gift :: Line.gifts ⟨after, rest⟩ := by
    rw [Line.gifts, Line.gifts, List.map_append, List.map_cons, List.append_assoc,
      List.cons_append]
  refine given_eq_ok_iff.mpr ⟨⟨before ++ item :: after, rest⟩, ?_, ?_⟩
  · rw [Line.spelled, List.flatMap_append, List.flatMap_cons, hfirst, ← hlater]
    simp only [List.append_assoc]
  · rw [hinserted, List.foldlM_append, hitem]
    refine bind_eq_ok_iff.mpr ⟨g₁, hbefore, ?_⟩
    exact bind_eq_ok_iff.mpr ⟨g₁.told dir, Given.give_infrastructure hfree hdir, htold⟩

/-- The options are the same but for the infrastructure, whatever its variable says. -/
theorem read_insert (item : Item) (hitem : item.gift = .value .infrastructure dir)
    (hdir : dir ≠ []) (hread : read env (first ++ later) = .ok (.run o))
    (hnames : ¬ Names (first ++ later) (.setting .infrastructure))
    (hmore : [dash, dash] ∉ first) (hawaits : ¬ Awaits first) :
    read env (first ++ item.spelled ++ later) =
      .ok (.run { o with infrastructure := some dir }) := by
  obtain ⟨g, hgiven, g', hvariables, hoptions⟩ := read_eq_run_iff.mp hread
  apply read_eq_run_iff.mpr
  exact ⟨g.told dir, given_insert item hitem hdir hgiven hnames hmore hawaits, g'.told dir,
    Given.addVariables_told hvariables dir, Given.options_told hoptions dir⟩

/-- Without the variable and without the flag there is no infrastructure. -/
theorem infrastructure_of_read (hread : read env args = .ok (.run o))
    (hnames : ¬ Names args (.setting .infrastructure)) (henv : env.infrastructure = none) :
    o.infrastructure = none := by
  obtain ⟨g, hgiven, g', hvariables, hoptions⟩ := read_eq_run_iff.mp hread
  have hfree : g'.has .infrastructure = false := by
    rw [Given.has_infrastructure_of_addVariables henv hvariables]
    apply Bool.eq_false_iff.mpr
    intro hhas
    exact hnames ((names_setting_iff hgiven (by decide)).mpr hhas)
  rw [Given.infrastructure_of_options hoptions]
  exact Option.isNone_iff_eq_none.mp (Option.isSome_eq_false_iff.mp hfree)

/-- A flag of the infrastructure can be put into every command line that has none, at every place
before two dashes where no setting waits for its value. With a value attached it names that
directory, and without one the default; nothing else is read otherwise than before, and the compiler
is told of the directory by two arguments in front of the others. -/
theorem read_insert_infrastructure (hread : read env (first ++ later) = .ok (.run o))
    (hnames : ¬ Names (first ++ later) (.setting .infrastructure))
    (hmore : [dash, dash] ∉ first) (hawaits : ¬ Awaits first) :
    read env (first ++ [spellLong Setting.infrastructure.longName] ++ later) =
        .ok (.run { o with infrastructure := some defaultInfrastructureDir }) ∧
    (∀ dir ≠ [],
      read env (first ++ [spellLong Setting.infrastructure.longName ++ equals :: dir] ++ later) =
        .ok (.run { o with infrastructure := some dir })) ∧
    (env.infrastructure = none → ∀ dir c,
      Invocation.ofTrial { o with infrastructure := some dir }.config c =
        { Invocation.ofTrial o.config c with
          args := Utf8.encode infrastructureFlag :: dir ::
            (Invocation.ofTrial o.config c).args }) := by
  refine ⟨?_, ?_, ?_⟩
  · have hdefault : defaultInfrastructureDir ≠ [] := by decide
    exact read_insert .bareInfrastructure rfl hdefault hread hnames hmore hawaits
  · intro dir hdir
    exact read_insert (.attached .infrastructure dir) rfl hdir hread hnames hmore hawaits
  · intro henv dir c
    have hnone := infrastructure_of_read hread hnames henv
    simp only [Invocation.ofTrial, Options.config, hnone]
    rfl

namespace Sample

/-- The compiler by its variable, and no other variable. -/
def compilerOnly : Environment where
  compilerPath := some (Utf8.encode "cc".toList)

/-- A setting with its value, and a filter. -/
def opening : List ByteString := ["--skip", "slow", "a"].map (fun s => Utf8.encode s.toList)

/-- A filter, and behind two dashes one that looks like the flag. -/
def closing : List ByteString :=
  ["b", "--", "--infrastructure"].map (fun s => Utf8.encode s.toList)

def selected : Options where
  compilerPath := Utf8.encode "cc".toList
  excluded := ["slow".toList]
  included := ["a".toList, "b".toList, "--infrastructure".toList]

def trial : Trial := ⟨"t".toList, .success, Utf8.encode "success/t".toList, .module⟩

end Sample

/-- Put behind the first filter, the flag leaves the second one a filter, and the compiler gets two
arguments more. -/
theorem read_insert_infrastructure_filters :
    read Sample.compilerOnly (Sample.opening ++ Sample.closing) = .ok (.run Sample.selected) ∧
      ¬ Names (Sample.opening ++ Sample.closing) (.setting .infrastructure) ∧
      [dash, dash] ∉ Sample.opening ∧ ¬ Awaits Sample.opening ∧
      read Sample.compilerOnly
          (Sample.opening ++ [Utf8.encode "--infrastructure".toList] ++ Sample.closing) =
        .ok (.run { Sample.selected with infrastructure := some defaultInfrastructureDir }) ∧
      read Sample.compilerOnly
          (Sample.opening ++ [Utf8.encode "--infrastructure=lib".toList] ++ Sample.closing) =
        .ok (.run
          { Sample.selected with infrastructure := some (Utf8.encode "lib".toList) }) ∧
      (Invocation.ofTrial { Sample.selected with
          infrastructure := some (Utf8.encode "lib".toList) }.config Sample.trial).args =
        ["--infrastructure", "lib", "success/t"].map
          (fun s => Utf8.encode s.toList) := by
  have hread : read Sample.compilerOnly (Sample.opening ++ Sample.closing) =
      .ok (.run Sample.selected) := by decide +kernel
  have hnames : ¬ Names (Sample.opening ++ Sample.closing) (.setting .infrastructure) := by
    decide +kernel
  have hmore : [dash, dash] ∉ Sample.opening := by decide
  have hawaits : ¬ Awaits Sample.opening := by decide +kernel
  have hdir : Utf8.encode "lib".toList ≠ [] := by decide
  obtain ⟨hbare, hattached, htold⟩ := read_insert_infrastructure hread hnames hmore hawaits
  refine ⟨hread, hnames, hmore, hawaits, hbare, hattached _ hdir, ?_⟩
  rw [htold rfl]
  rfl

end CommandLine

end CompilerTrials
