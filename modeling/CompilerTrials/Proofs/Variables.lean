import CompilerTrials.Proofs.Joining
import Mathlib.Control.Monad.Basic

/-!
# Variables in the place of arguments

A variable stands in for a parameter that the arguments do not name. That is the same as one more
argument in front of them. A variable whose parameter is named is not looked at.

* `CommandLine.Names`: the arguments name the parameter.
* `CommandLine.names_spelled`: a line names what it gives.
* `Environment.exposed`, `Environment.Usable`: the variables whose parameters are not named, and
  those that have values that can be taken.
* `Environment.preface`: the arguments that say what the variables say.
* `Given.addVariables_eq_foldlM`: the variables are given behind all else.
* `Given.addVariables_eq_ok_iff`: as they have nothing in common with it, they can as well be given
  first.
* `CommandLine.read_eq_run_iff_preface`: variables are arguments in front, and those whose
  parameters are named make no difference.
-/

namespace CompilerTrials

open Argument (dash equals)

open CommandLine

/-! ## What arguments name -/

/-- Whether the argument names the parameter, with a value or without one. A cluster names all whose
short names are in it. -/
def Parameter.isNamedBy (p : Parameter) : Argument → Bool
  | .long name _ => name = Utf8.encode p.longName
  | .cluster names => p.short?.any (Utf8.split names).1.contains
  | .terminator | .plain _ => false

namespace CommandLine

variable {p p' : Parameter} {s : Setting} {args : List ByteString} {g : Given} {l : Line}

/-- One of the arguments before two dashes names the parameter. -/
def Names (args : List ByteString) (p : Parameter) : Prop :=
  ∃ a ∈ (args.map Argument.ofBytes).takeWhile (· ≠ .terminator), p.isNamedBy a = true

instance (args : List ByteString) (p : Parameter) : Decidable (Names args p) :=
  List.decidableBEx _ _

theorem encode_longName_inj : Utf8.encode p.longName = Utf8.encode p'.longName ↔ p = p' := by
  constructor
  · intro h
    have hname : Parameter.ofLong? (Utf8.encode p.longName) = some p := ofLong?_eq_some_iff.mpr rfl
    exact Option.some.inj (hname.symm.trans (ofLong?_eq_some_iff.mpr h))
  · rintro rfl
    rfl

theorem isNamedBy_long {value : Option ByteString} :
    p.isNamedBy (.long (Utf8.encode p'.longName) value) = true ↔ some p' = some p := by
  rw [Parameter.isNamedBy, Option.some.injEq]
  exact decide_eq_true_iff.trans encode_longName_inj

theorem isNamedBy_verbose :
    p.isNamedBy (.cluster (Utf8.encode ['v'])) = true ↔ some (.switch .verbose) = some p := by
  have hsplit : Utf8.split (Utf8.encode ['v']) = (['v'], []) := by decide +kernel
  rw [Parameter.isNamedBy, hsplit]
  rcases p with s | s | i
  · cases s <;> decide
  · cases s <;> decide
  · cases i <;> decide

/-! ### Items -/

/-- What the arguments of an item say by themselves. -/
def Item.arguments : Item → List Argument
  | switch s => [.long (Utf8.encode (Parameter.switch s).longName) none]
  | shortVerbose => [.cluster (Utf8.encode ['v'])]
  | attached s v => [.long (Utf8.encode (Parameter.setting s).longName) (some v)]
  | separate s _ v _ => [.long (Utf8.encode (Parameter.setting s).longName) none, .plain v]
  | bareInfrastructure =>
    [.long (Utf8.encode (Parameter.setting .infrastructure).longName) none]
  | filter v _ => [.plain v]

theorem map_ofBytes_spelled (item : Item) :
    item.spelled.map Argument.ofBytes = item.arguments := by
  cases item with
  | switch s => exact congrArg ([·]) (ofBytes_spellLong (.switch s))
  | shortVerbose =>
    have hbytes : Argument.ofBytes (dash :: Utf8.encode ['v']) = .cluster (Utf8.encode ['v']) := by
      decide +kernel
    exact congrArg ([·]) hbytes
  | attached s v => exact congrArg ([·]) (ofBytes_attached (.setting s) v)
  | separate s hs v hv =>
    have hname := ofBytes_spellLong (.setting s)
    have hvalue := Argument.ofBytes_of_isPlain hv
    exact List.cons_eq_cons.mpr ⟨hname, congrArg ([·]) hvalue⟩
  | bareInfrastructure => exact congrArg ([·]) (ofBytes_spellLong (.setting .infrastructure))
  | filter v hv => exact congrArg ([·]) (Argument.ofBytes_of_isPlain hv)

theorem Item.terminator_not_mem_arguments (item : Item) : .terminator ∉ item.arguments := by
  cases item <;> simp [Item.arguments]

/-- The parameter that a gift is for. -/
def Gift.parameter? : Gift → Option Parameter
  | on s => some (.switch s)
  | value s _ => some (.setting s)
  | filter _ => none

/-- The arguments of an item name what it gives, and nothing else. -/
theorem any_isNamedBy_iff (item : Item) :
    item.arguments.any p.isNamedBy = true ↔ item.gift.parameter? = some p := by
  have hone (a : Argument) : [a].any p.isNamedBy = p.isNamedBy a := Bool.or_false _
  cases item with
  | switch s =>
    rw [Item.arguments, hone]
    exact isNamedBy_long
  | shortVerbose =>
    rw [Item.arguments, hone]
    exact isNamedBy_verbose
  | attached s v =>
    rw [Item.arguments, hone]
    exact isNamedBy_long
  | separate s hs v hv =>
    have hplain : p.isNamedBy (.plain v) = false := rfl
    rw [Item.arguments, List.any_cons, hone, hplain, Bool.or_false]
    exact isNamedBy_long
  | bareInfrastructure =>
    rw [Item.arguments, hone]
    exact isNamedBy_long
  | filter v hv =>
    rw [Item.arguments, hone]
    exact iff_of_false Bool.false_ne_true nofun

/-- The arguments of a line name what it gives. -/
theorem names_spelled (l : Line) :
    Names l.spelled p ↔ ∃ gift ∈ l.gifts, gift.parameter? = some p := by
  obtain ⟨items, rest⟩ := l
  have hitems : (items.flatMap Item.spelled).map Argument.ofBytes =
      items.flatMap Item.arguments := by
    rw [List.map_flatMap]
    exact congrArg (items.flatMap ·) (funext map_ofBytes_spelled)
  have hmore : ∀ a ∈ items.flatMap Item.arguments, decide (a ≠ .terminator) = true := by
    intro a ha
    obtain ⟨item, -, hmem⟩ := List.mem_flatMap.mp ha
    exact decide_eq_true fun h => item.terminator_not_mem_arguments (h ▸ hmem)
  have hrest : ((Line.spelledRest rest).map Argument.ofBytes).takeWhile (· ≠ .terminator) = [] := by
    cases rest with
    | none => rfl
    | some filters => rfl
  unfold Names
  rw [Line.spelled, List.map_append, hitems, List.takeWhile_append_of_pos hmore, hrest,
    List.append_nil]
  constructor
  · rintro ⟨a, ha, hnamed⟩
    obtain ⟨item, hitem, hmem⟩ := List.mem_flatMap.mp ha
    exact ⟨item.gift, List.mem_append_left _ (List.mem_map_of_mem hitem),
      (any_isNamedBy_iff item).mp (List.any_eq_true.mpr ⟨a, hmem, hnamed⟩)⟩
  · rintro ⟨gift, hgift, hparameter⟩
    rcases List.mem_append.mp hgift with hgift | hgift
    · obtain ⟨item, hitem, rfl⟩ := List.mem_map.mp hgift
      obtain ⟨a, hmem, hnamed⟩ := List.any_eq_true.mp ((any_isNamedBy_iff item).mpr hparameter)
      exact ⟨a, List.mem_flatMap.mpr ⟨item, hitem, hmem⟩, hnamed⟩
    · obtain ⟨v, -, rfl⟩ := List.mem_map.mp hgift
      cases hparameter

end CommandLine

/-! ## Variables -/

namespace Environment

/-- The variables whose parameters the arguments do not name. -/
def exposed (env : Environment) (args : List ByteString) : Environment where
  compilerPath := if Names args (.setting .compilerPath) then none else env.compilerPath
  testsPath := if Names args (.setting .testsPath) then none else env.testsPath
  infrastructure := if Names args (.setting .infrastructure) then none else env.infrastructure
  verbose := if Names args (.switch .verbose) then none else env.verbose

/-- All variables have values that can stand in for arguments. -/
structure Usable (e : Environment) : Prop where
  compilerPath : e.compilerPath ≠ some []
  testsPath : e.testsPath ≠ some []
  infrastructure : e.infrastructure ≠ some []
  verbose : ∀ v ∈ e.verbose, v = Utf8.encode "true".toList ∨ v = Utf8.encode "false".toList

/-- The items that say what the variables say. -/
def preface (e : Environment) : List Item :=
  e.compilerPath.toList.map (.attached .compilerPath) ++
    e.testsPath.toList.map (.attached .testsPath) ++
    e.infrastructure.toList.map (.attached .infrastructure) ++
    if e.verbose = some (Utf8.encode "true".toList) then [.switch .verbose] else []

/-- What the preface gives. -/
def given (e : Environment) : Given where
  compilerPath := e.compilerPath
  testsPath := e.testsPath
  infrastructure := e.infrastructure
  verbose := e.verbose = some (Utf8.encode "true".toList)

/-- The variables that stand in for what is not given. -/
def beside (env : Environment) (g : Given) : Environment where
  compilerPath := if g.has .compilerPath then none else env.compilerPath
  testsPath := if g.has .testsPath then none else env.testsPath
  infrastructure := if g.has .infrastructure then none else env.infrastructure
  verbose := if g.isOn .verbose then none else env.verbose

end Environment

namespace CommandLine

variable {env : Environment} {args : List ByteString} {g : Given} {s : Setting}

theorem names_setting_iff (h : given args = .ok g) (hs : s ≠ .skip) :
    Names args (.setting s) ↔ g.has s = true := by
  obtain ⟨l, rfl, hgifts⟩ := given_eq_ok_iff.mp h
  have hextends := Given.foldlM_give_eq_ok_iff.mp hgifts
  have hvalues : g.values s = l.values s := by
    rw [hextends.values s]
    cases s <;> rfl
  rw [names_spelled, Given.has_iff, and_iff_right hs, hvalues]
  constructor
  · rintro ⟨gift, hmem, hparameter⟩
    cases gift with
    | value s' v =>
      cases hparameter
      exact List.ne_nil_of_mem (Line.mem_values_iff.mpr hmem)
    | on s' | filter v => cases hparameter
  · intro hne
    obtain ⟨v, hv⟩ := List.exists_mem_of_ne_nil _ hne
    exact ⟨_, Line.mem_values_iff.mp hv, rfl⟩

theorem names_switch_iff (h : given args = .ok g) (s : Switch) :
    Names args (.switch s) ↔ g.isOn s = true := by
  obtain ⟨l, rfl, hgifts⟩ := given_eq_ok_iff.mp h
  have hextends := Given.foldlM_give_eq_ok_iff.mp hgifts
  have hcount : (g.isOn s).toNat = l.gifts.count (.on s) := by
    rw [hextends.switches s]
    cases s <;> exact Nat.zero_add _
  have hon : .on s ∈ l.gifts ↔ g.isOn s = true := by
    rw [← List.count_pos_iff, ← hcount]
    cases g.isOn s <;> decide
  rw [names_spelled, ← hon]
  constructor
  · rintro ⟨gift, hmem, hparameter⟩
    cases gift with
    | on s' =>
      cases hparameter
      exact hmem
    | value s' v | filter v => cases hparameter
  · exact fun hmem => ⟨_, hmem, rfl⟩

theorem exposed_eq_beside (h : given args = .ok g) (env : Environment) :
    env.exposed args = env.beside g := by
  have hcompiler := names_setting_iff h (s := .compilerPath) (by decide)
  have htests := names_setting_iff h (s := .testsPath) (by decide)
  have hinfrastructure := names_setting_iff h (s := .infrastructure) (by decide)
  have hverbose := names_switch_iff h .verbose
  simp only [Environment.exposed, Environment.beside, hcompiler, htests, hinfrastructure, hverbose]

end CommandLine

namespace Given

variable {env env' e : Environment} {b g g' g₁ : Given} {s s' : Setting} {x : Option ByteString}
variable {gifts : List Gift}

/-! ### One variable -/

/-- A variable whose parameter is given is not looked at. -/
theorem standIn_hidden (g : Given) (s : Setting) (x : Option ByteString) :
    g.standIn s (if g.has s then none else x) = g.standIn s x := by
  by_cases hhas : g.has s = true
  · rw [if_pos hhas]
    cases x with
    | none => rfl
    | some v => exact (if_pos hhas).symm
  · rw [if_neg hhas]

theorem standInVerbose_hidden (g : Given) (x : Option ByteString) :
    g.standInVerbose (if g.isOn .verbose then none else x) = g.standInVerbose x := by
  by_cases hon : g.isOn .verbose = true
  · rw [if_pos hon]
    cases x with
    | none => rfl
    | some v => exact (if_pos hon).symm
  · rw [if_neg hon]

/-- A variable whose parameter is not given is given in its place. -/
theorem standIn_eq_foldlM (h : x ≠ none → g.has s = false) :
    g.standIn s x = (x.toList.map (.value s)).foldlM give g := by
  cases x with
  | none => rfl
  | some v =>
    have hfree := h nofun
    rw [Option.toList_some, List.map_singleton, List.foldlM_cons]
    simp [standIn, give, set, hfree]

theorem standInVerbose_eq_foldlM (h : x ≠ none → g.isOn .verbose = false)
    (hx : ∀ v ∈ x, v = Utf8.encode "true".toList ∨ v = Utf8.encode "false".toList) :
    g.standInVerbose x =
      (if x = some (Utf8.encode "true".toList) then [Gift.on .verbose] else []).foldlM give g := by
  cases x with
  | none => rfl
  | some v =>
    have hoff : g.isOn .verbose = false := h nofun
    have hverbose : ¬ g.verbose = true := Bool.eq_false_iff.mp hoff
    have hne : Utf8.encode "false".toList ≠ Utf8.encode "true".toList := by decide
    rcases hx v rfl with rfl | rfl
    · have hon : give g (.on .verbose) = .ok { g with verbose := true } :=
        turnOn_eq_ok_iff.mpr ⟨hoff, rfl⟩
      rw [if_pos rfl, List.foldlM_cons, hon, standInVerbose, if_neg hverbose, if_pos rfl]
      rfl
    · rw [if_neg fun h => hne (Option.some.inj h), standInVerbose, if_neg hverbose, if_neg hne,
        if_pos rfl]
      rfl

theorem extends_of_standIn (h : g.standIn s x = .ok g₁) :
    ∃ vs : List ByteString, g.Extends (vs.map (.value s)) g₁ := by
  have hnone : g.Extends [] g := foldlM_give_eq_ok_iff.mp rfl
  cases x with
  | none =>
    obtain ⟨⟩ := h
    exact ⟨[], hnone⟩
  | some v =>
    simp only [standIn] at h
    split at h
    · obtain ⟨⟩ := h
      exact ⟨[], hnone⟩
    · next hfree => exact ⟨[v], extends_of_put (Bool.eq_false_iff.mpr hfree) h⟩

/-- Nothing but the values of the setting changes. -/
theorem has_of_standIn (h : g.standIn s x = .ok g₁) (hne : s ≠ s') : g₁.has s' = g.has s' := by
  obtain ⟨vs, hextends⟩ := extends_of_standIn h
  have hother : (vs.map (Gift.value s)).filterMap (Gift.valueOf s') = [] := by
    rw [List.filterMap_map, List.filterMap_eq_nil_iff]
    exact fun v _ => if_neg hne
  have hvalues : g₁.values s' = g.values s' := by
    rw [hextends.values s', hother, List.append_nil]
  rw [Bool.eq_iff_iff, has_iff, has_iff, hvalues]

theorem isOn_of_standIn (h : g.standIn s x = .ok g₁) (s' : Switch) : g₁.isOn s' = g.isOn s' := by
  obtain ⟨vs, hextends⟩ := extends_of_standIn h
  have hother : (vs.map (Gift.value s)).count (.on s') = 0 := by
    refine List.count_eq_zero_of_not_mem fun hmem => ?_
    obtain ⟨v, -, ⟨⟩⟩ := List.mem_map.mp hmem
  have hswitches := hextends.switches s'
  rw [hother, Nat.add_zero] at hswitches
  cases hon : g₁.isOn s' <;> cases hon' : g.isOn s' <;> simp_all

/-! ### All variables -/

theorem bind_congr_ok {α β : Type} {y : Except UsageError α} {f f' : α → Except UsageError β}
    (h : ∀ a, y = .ok a → f a = f' a) : y >>= f = y >>= f' := by
  cases y with
  | error e => rfl
  | ok a => exact h a rfl

/-- The variables are taken one after the other, and none changes what the others are taken for. -/
theorem addVariables_eq {first second third fourth : Given → Except UsageError Given}
    (h₁ : g.standIn .compilerPath env.compilerPath = first g)
    (h₂ : ∀ g₁ : Given, g₁.has .testsPath = g.has .testsPath →
      g₁.standIn .testsPath env.testsPath = second g₁)
    (h₃ : ∀ g₂ : Given, g₂.has .infrastructure = g.has .infrastructure →
      g₂.standIn .infrastructure env.infrastructure = third g₂)
    (h₄ : ∀ g₃ : Given, g₃.isOn .verbose = g.isOn .verbose →
      g₃.standInVerbose env.verbose = fourth g₃) :
    g.addVariables env =
      first g >>= fun g₁ => second g₁ >>= fun g₂ => third g₂ >>= fourth := by
  unfold addVariables
  rw [← h₁]
  -- What is given has changed at each step, but not in what the next variable is taken for.
  refine bind_congr_ok fun g₁ hread₁ => ?_
  rw [← h₂ g₁ (has_of_standIn hread₁ (by decide))]
  refine bind_congr_ok fun g₂ hread₂ => ?_
  have hhas : g₂.has .infrastructure = g.has .infrastructure :=
    (has_of_standIn hread₂ (by decide)).trans (has_of_standIn hread₁ (by decide))
  rw [← h₃ g₂ hhas]
  refine bind_congr_ok fun g₃ hread₃ => ?_
  exact h₄ g₃ ((isOn_of_standIn hread₃ .verbose).trans
    ((isOn_of_standIn hread₂ .verbose).trans (isOn_of_standIn hread₁ .verbose)))

/-- Only the variables that stand in for what is not given count. -/
theorem addVariables_beside (g : Given) (env : Environment) :
    g.addVariables (env.beside g) = g.addVariables env := by
  symm
  apply addVariables_eq
  · exact (standIn_hidden g _ _).symm
  · intro g₁ hhas
    rw [Environment.beside, ← hhas]
    exact (standIn_hidden g₁ _ _).symm
  · intro g₂ hhas
    rw [Environment.beside, ← hhas]
    exact (standIn_hidden g₂ _ _).symm
  · intro g₃ hon
    rw [Environment.beside, ← hon]
    exact (standInVerbose_hidden g₃ _).symm

/-- The variables that stand in for what is not given are given behind it. -/
theorem addVariables_eq_foldlM (h : (env.beside g).Usable) :
    g.addVariables env = ((env.beside g).preface.map Item.gift).foldlM give g := by
  have hfree {α : Type} {x : Option α} {given : Bool}
      (hsome : (if given = true then none else x) ≠ none) : given = false := by
    cases given with
    | true => exact absurd rfl hsome
    | false => rfl
  unfold Environment.preface
  simp only [List.map_append, List.map_map, List.foldlM_append, bind_assoc]
  rw [← addVariables_beside]
  apply addVariables_eq
  · exact standIn_eq_foldlM hfree
  · intro g₁ hhas
    exact standIn_eq_foldlM fun hsome => hhas.trans (hfree hsome)
  · intro g₂ hhas
    exact standIn_eq_foldlM fun hsome => hhas.trans (hfree hsome)
  · intro g₃ hon
    have hoff : (env.beside g).verbose ≠ none → g₃.isOn .verbose = false := fun hsome =>
      hon.trans (hfree hsome)
    rw [apply_ite (List.map Item.gift)]
    exact standInVerbose_eq_foldlM hoff h.verbose

/-! ### The preface -/

theorem filterMap_valueOf (s s' : Setting) (x : Option ByteString) :
    (x.toList.map (Gift.value s')).filterMap (Gift.valueOf s) = if s' = s then x.toList else [] := by
  cases x with
  | none => exact (ite_self _).symm
  | some v => by_cases hs : s' = s <;> simp [Gift.valueOf, hs]

theorem count_on_values (s : Switch) (s' : Setting) (x : Option ByteString) :
    (x.toList.map (Gift.value s')).count (.on s) = 0 := by
  cases x <;> simp

theorem filterMap_filterOf (s' : Setting) (x : Option ByteString) :
    (x.toList.map (Gift.value s')).filterMap Gift.filterOf = [] := by
  cases x <;> simp [Gift.filterOf]

theorem map_gift_preface (e : Environment) : e.preface.map Item.gift =
    e.compilerPath.toList.map (.value .compilerPath) ++
      e.testsPath.toList.map (.value .testsPath) ++
      e.infrastructure.toList.map (.value .infrastructure) ++
      if e.verbose = some (Utf8.encode "true".toList) then [.on .verbose] else [] := by
  unfold Environment.preface
  rw [List.map_append, List.map_append, List.map_append, List.map_map, List.map_map, List.map_map,
    apply_ite (List.map Item.gift)]
  rfl

/-- Usable variables can be given as arguments. -/
theorem extends_preface (h : e.Usable) : Extends {} (e.preface.map Item.gift) e.given := by
  rw [map_gift_preface]
  constructor
  · intro s
    have hswitch : (if e.verbose = some (Utf8.encode "true".toList) then [Gift.on .verbose]
        else []).filterMap (Gift.valueOf s) = [] := by split <;> rfl
    rw [List.filterMap_append, List.filterMap_append, List.filterMap_append, filterMap_valueOf,
      filterMap_valueOf, filterMap_valueOf, hswitch]
    cases s <;> simp [Environment.given, values]
  · intro s
    rw [List.count_append, List.count_append, List.count_append, count_on_values,
      count_on_values, count_on_values]
    by_cases hverbose : e.verbose = some (Utf8.encode "true".toList)
    · rw [if_pos hverbose]
      cases s <;> simp [Environment.given, isOn, hverbose]
    · rw [if_neg hverbose]
      cases s <;> simp only [Environment.given, isOn, hverbose, decide_false] <;> rfl
  · have hswitch : (if e.verbose = some (Utf8.encode "true".toList) then [Gift.on .verbose]
        else []).filterMap Gift.filterOf = [] := by split <;> rfl
    rw [List.filterMap_append, List.filterMap_append, List.filterMap_append, filterMap_filterOf,
      filterMap_filterOf, filterMap_filterOf, hswitch]
    rfl
  · intro s v hmem
    have hvalue {s' : Setting} {x : Option ByteString}
        (hmem : Gift.value s v ∈ x.toList.map (.value s')) : s' = s ∧ x = some v := by
      obtain ⟨v', hv', heq⟩ := List.mem_map.mp hmem
      obtain ⟨hs, rfl⟩ := Gift.value.inj heq
      exact ⟨hs, Option.mem_toList.mp hv'⟩
    simp only [List.mem_append] at hmem
    rcases hmem with ((hmem | hmem) | hmem) | hmem
    · obtain ⟨rfl, hv⟩ := hvalue hmem
      exact fun hnil => h.compilerPath (hnil ▸ hv)
    · obtain ⟨rfl, hv⟩ := hvalue hmem
      exact fun hnil => h.testsPath (hnil ▸ hv)
    · obtain ⟨rfl, hv⟩ := hvalue hmem
      exact fun hnil => h.infrastructure (hnil ▸ hv)
    · split at hmem
      · cases List.mem_singleton.mp hmem
      · cases hmem

/-- The variables and what is given have nothing in common, so they can as well be given first. -/
theorem addVariables_eq_ok_iff (h : (env.beside g).Usable) :
    g.addVariables env = .ok g' ↔ (env.beside g).given.Joins g g' := by
  have hapart (s : Setting) : (env.beside g).given.values s = [] ∨ g.values s = [] := by
    by_cases hhas : g.has s = true
    · left
      cases s <;> simp [Environment.given, Environment.beside, values, hhas]
    · rw [has_iff] at hhas
      by_cases hs : s = .skip
      · rw [hs]
        exact .inl rfl
      · exact .inr (Decidable.byContradiction fun hne => hhas ⟨hs, hne⟩)
  have hfilters : (env.beside g).given.included = [] := rfl
  rw [addVariables_eq_foldlM h, foldlM_give_eq_ok_iff, extends_iff_joins (extends_preface h)]
  constructor
  · intro hjoins
    exact hjoins.comm (fun s => (hapart s).symm) (.inr hfilters)
  · intro hjoins
    exact hjoins.comm hapart (.inl hfilters)

end Given

namespace CommandLine

variable {env e : Environment} {args : List ByteString} {b g g' : Given} {o : Options}

theorem read_eq_run_iff : read env args = .ok (.run o) ↔
    ∃ g, given args = .ok g ∧ ∃ g', g.addVariables env = .ok g' ∧ g'.options = .ok o := by
  rw [read]
  cases given args with
  | error stop => cases stop <;> simp
  | ok g =>
    constructor
    · intro h
      obtain ⟨g', hvariables, h⟩ := bind_eq_ok_iff.mp h
      obtain ⟨o', hoptions, ⟨⟩⟩ := bind_eq_ok_iff.mp h
      exact ⟨g, rfl, g', hvariables, hoptions⟩
    · rintro ⟨_, ⟨⟩, g', hvariables, hoptions⟩
      exact bind_eq_ok_iff.mpr ⟨g', hvariables, bind_eq_ok_iff.mpr ⟨o, hoptions, rfl⟩⟩

theorem given_preface_iff (h : e.Usable) :
    given (e.preface.flatMap Item.spelled ++ args) = .ok g' ↔ Reading.Leads e.given args g' := by
  have hgive := Given.foldlM_give_eq_ok_iff.mpr (Given.extends_preface h)
  obtain ⟨r, hready, hfinish⟩ :=
    Reading.finish_items e.preface (Reading.ready_given.mpr rfl) hgive
  exact (congrArg (· = .ok g') (hfinish args)).to_iff.trans (Reading.finish_eq_ok_iff hready)

/-- Arguments are read behind the variables that stand in for them as the variables are added. -/
theorem leads_iff_addVariables (hgiven : given args = .ok g) (h : (env.beside g).Usable) :
    Reading.Leads (env.beside g).given args g' ↔ g.addVariables env = .ok g' := by
  rw [Given.addVariables_eq_ok_iff h]
  constructor
  · rintro ⟨l, hl, hgifts⟩
    -- The same line gives by itself what it adds behind the variables.
    obtain ⟨g₀, hg₀⟩ := (Given.below_of_none _).exists_foldlM hgifts
    obtain rfl : g₀ = g := Except.ok.inj ((given_eq_ok_iff.mpr ⟨l, hl, hg₀⟩).symm.trans hgiven)
    exact (Given.extends_iff_joins (Given.foldlM_give_eq_ok_iff.mp hg₀)).mp
      (Given.foldlM_give_eq_ok_iff.mp hgifts)
  · intro hjoins
    obtain ⟨l, hl, hgifts⟩ := given_eq_ok_iff.mp hgiven
    have hextends := Given.foldlM_give_eq_ok_iff.mp hgifts
    exact ⟨l, hl, Given.foldlM_give_eq_ok_iff.mpr ((Given.extends_iff_joins hextends).mpr hjoins)⟩

/-- Where the variables that the arguments leave have values that can be taken, a command line asks
for a run with the same options as the one with these variables as arguments in front. A variable
whose parameter is named is not looked at, whatever it is. -/
theorem read_eq_run_iff_preface (env : Environment) (args : List ByteString) :
    ((env.exposed args).Usable → ∀ o,
      read env args = .ok (.run o) ↔
        read {} ((env.exposed args).preface.flatMap Item.spelled ++ args) = .ok (.run o)) ∧
    ∀ env' : Environment, env'.exposed args = env.exposed args → read env' args = read env args := by
  constructor
  · intro husable o
    rw [read_eq_run_iff, read_eq_run_iff_options none none]
    simp only [given_preface_iff husable]
    constructor
    · rintro ⟨g, hgiven, g', hvariables, hoptions⟩
      rw [exposed_eq_beside hgiven] at husable ⊢
      exact ⟨g', (leads_iff_addVariables hgiven husable).mpr hvariables, hoptions⟩
    · rintro ⟨g', hleads, hoptions⟩
      obtain ⟨g, hgiven⟩ := exists_given_of_leads hleads
      rw [exposed_eq_beside hgiven] at husable hleads
      exact ⟨g, hgiven, g', (leads_iff_addVariables hgiven husable).mp hleads, hoptions⟩
  · intro env' hexposed
    unfold read
    cases hgiven : given args with
    | error stop => cases stop <;> rfl
    | ok g =>
      rw [exposed_eq_beside hgiven, exposed_eq_beside hgiven] at hexposed
      have hvariables : g.addVariables env' = g.addVariables env := by
        rw [← Given.addVariables_beside, hexposed, Given.addVariables_beside]
      simp only [hvariables]

namespace Sample

/-- A variable for the compiler, and two that could not be taken. -/
def environment : Environment where
  compilerPath := some (Utf8.encode "cc".toList)
  infrastructure := some []
  verbose := some (Utf8.encode "maybe".toList)

/-- Arguments that name the parameters of those two. -/
def arguments : List ByteString :=
  [Utf8.encode "-v".toList, Utf8.encode "--infrastructure".toList, Utf8.encode "a".toList]

def request : Request :=
  .run
    { compilerPath := Utf8.encode "cc".toList
      infrastructure := some defaultInfrastructureDir
      verbose := true
      included := ["a".toList] }

end Sample

/-- One variable is an argument in front, and the others are not looked at. -/
theorem read_eq_run_iff_preface_sample :
    (Sample.environment.exposed Sample.arguments).Usable ∧
      read {} (Utf8.encode "--compiler-path=cc".toList :: Sample.arguments) = .ok Sample.request ∧
      read Sample.environment Sample.arguments = .ok Sample.request ∧
      read { compilerPath := Sample.environment.compilerPath } Sample.arguments =
        read Sample.environment Sample.arguments := by
  have hexposed : Sample.environment.exposed Sample.arguments =
      { compilerPath := Sample.environment.compilerPath } := by decide +kernel
  have husable : (Sample.environment.exposed Sample.arguments).Usable := by
    rw [hexposed]
    exact ⟨by decide, by decide, by decide, nofun⟩
  have hread : read {} (Utf8.encode "--compiler-path=cc".toList :: Sample.arguments) =
      .ok Sample.request := by decide +kernel
  obtain ⟨hfront, hhidden⟩ := read_eq_run_iff_preface Sample.environment Sample.arguments
  refine ⟨husable, hread, (hfront husable _).mpr ?_, hhidden _ ?_⟩
  · rw [hexposed]
    exact hread
  · decide +kernel

end CommandLine

end CompilerTrials
