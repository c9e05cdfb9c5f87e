import CompilerTrials.CommandLine.Reader
import CompilerTrials.Proofs.Utf8

/-!
# The grammar of command lines

A command line that asks for a run, as a list of items. Which arguments an item is spelled with does
not depend on the items around it, and what it gives does not depend on them either; the reader, on
the other hand, learns from the arguments before it what an argument is.

* `CommandLine.Item`, `CommandLine.Line`: the items, and all that a command line consists of.
* `CommandLine.Line.gifts`: what the items give, in order, however they are spelled.
* `CommandLine.Line.Yields`: these are the options that the gifts amount to; what may be given once
  is not given twice, and every value is one that its parameter can take.
* `Given.foldlM_give_eq_ok_iff`: giving one after the other succeeds exactly when the gifts add up.
-/

namespace CompilerTrials

open Argument (dash equals)

variable {ε α β : Type}

theorem bind_eq_ok_iff {x : Except ε α} {f : α → Except ε β} {b : β} :
    (x >>= f) = .ok b ↔ ∃ a, x = .ok a ∧ f a = .ok b := by
  cases x with
  | error e => exact ⟨fun h => (nomatch h), fun ⟨_, h, _⟩ => (nomatch h)⟩
  | ok a =>
    constructor
    · intro h
      exact ⟨a, rfl, h⟩
    · rintro ⟨_, ⟨⟩, h⟩
      exact h

theorem toList_injective {o o' : Option α} (h : o.toList = o'.toList) : o = o' := by
  cases o <;> cases o' <;> simp_all

theorem ReportFormat.ofBytes?_eq_some_iff {v : ByteString} {f : ReportFormat} :
    ofBytes? v = some f ↔ v = Utf8.encode f.name := by
  constructor
  · intro h
    have hname := List.find?_some h
    exact (of_decide_eq_true hname).symm
  · rintro rfl
    cases f <;> decide +kernel

theorem ReportFormat.encode_name_injective :
    Function.Injective fun f : ReportFormat => Utf8.encode f.name := fun _ _ h =>
  Option.some.inj ((ofBytes?_eq_some_iff.mpr rfl).symm.trans (ofBytes?_eq_some_iff.mpr h))

namespace CommandLine

/-! ## Lines -/

/-- What can be a value by itself, or a filter: a lone dash, and what begins with none. -/
def IsPlain (v : ByteString) : Prop := v = [dash] ∨ v.head? ≠ some dash

/-- One item of a command line. -/
inductive Item where
  /-- A switch, by its long name. -/
  | switch (s : Switch)
  /-- The verbose switch, by its short name. -/
  | shortVerbose
  /-- A setting with its value in the same argument. -/
  | attached (s : Setting) (v : ByteString)
  /-- A setting with its value in the next argument. -/
  | separate (s : Setting) (hs : s ≠ .infrastructure) (v : ByteString) (hv : IsPlain v)
  /-- The infrastructure, without a value. -/
  | bareInfrastructure
  | filter (v : ByteString) (hv : IsPlain v)

/-- The argument that spells a long name. -/
def spellLong (name : Text) : ByteString := dash :: dash :: Utf8.encode name

def Item.spelled : Item → List ByteString
  | switch s => [spellLong s.longName]
  | shortVerbose => [dash :: Utf8.encode ['v']]
  | attached s v => [spellLong s.longName ++ equals :: v]
  | separate s _ v _ => [spellLong s.longName, v]
  | bareInfrastructure => [spellLong Setting.infrastructure.longName]
  | filter v _ => [v]

/-- A command line: items, and after two dashes filters of any form. -/
structure Line where
  items : List Item
  rest : Option (List ByteString) := none

namespace Line

def spelledRest : Option (List ByteString) → List ByteString
  | none => []
  | some filters => [dash, dash] :: filters

def spelled (l : Line) : List ByteString := l.items.flatMap Item.spelled ++ spelledRest l.rest

end Line

/-! ## What a line gives -/

/-- What one item gives. -/
inductive Gift where
  | on (s : Switch)
  | value (s : Setting) (v : ByteString)
  | filter (v : ByteString)
deriving DecidableEq

namespace Gift

/-- The value, if it is one of this setting. -/
def valueOf (s : Setting) : Gift → Option ByteString
  | value s' v => if s' = s then some v else none
  | on _ | filter _ => none

def filterOf : Gift → Option ByteString
  | filter v => some v
  | on _ | value _ _ => none

end Gift

def Item.gift : Item → Gift
  | switch s => .on s
  | shortVerbose => .on .verbose
  | attached s v => .value s v
  | separate s _ v _ => .value s v
  | bareInfrastructure => .value .infrastructure defaultInfrastructureDir
  | filter v _ => .filter v

namespace Line

def gifts (l : Line) : List Gift := l.items.map Item.gift ++ (l.rest.getD []).map .filter

/-- The values that the line gives a setting. -/
def values (l : Line) (s : Setting) : List ByteString := l.gifts.filterMap (Gift.valueOf s)

/-- How often the line turns a switch on. -/
def count (l : Line) (s : Switch) : Nat := l.gifts.count (.on s)

def filters (l : Line) : List ByteString := l.gifts.filterMap Gift.filterOf

/-- The options that a line amounts to. -/
structure Yields (l : Line) (o : Options) : Prop where
  compilerPath : l.values .compilerPath = [o.compilerPath]
  compilerPath_ne : o.compilerPath ≠ []
  testsPath : l.values .testsPath = o.testsPath.toList
  testsPath_ne : o.testsPath ≠ some []
  infrastructure : l.values .infrastructure = o.infrastructure.toList
  infrastructure_ne : o.infrastructure ≠ some []
  format : l.values .format = [] ∧ o.format = .pretty ∨
    l.values .format = [Utf8.encode o.format.name]
  verbose : l.count .verbose = o.verbose.toNat
  listOnly : l.count .listOnly = o.listOnly.toNat
  exact : l.count .exact = o.exact.toNat
  logDebug : l.count .logDebug = o.logDebug.toNat
  logTrace : l.count .logTrace = o.logTrace.toNat
  excluded : l.values .skip = o.excluded.map Utf8.encode
  included : l.filters = o.included.map Utf8.encode

end Line

end CommandLine

/-- The values that a setting can take. -/
def Setting.Takes : Setting → ByteString → Prop
  | .compilerPath, v | .testsPath, v | .infrastructure, v => v ≠ []
  | .format, v => ∃ f : ReportFormat, v = Utf8.encode f.name
  | .skip, v => ∃ t : Text, v = Utf8.encode t

/-! ## Giving -/

namespace Given

open CommandLine

variable {g g' g₁ : Given} {s : Setting} {v : ByteString} {gift : Gift} {gifts : List Gift}

def give (g : Given) : Gift → Except UsageError Given
  | .on s => g.turnOn s
  | .value s v => g.set s (some v)
  | .filter v => g.addFilters [v]

/-- The values of a setting so far, as the command line has them. -/
def values (g : Given) : Setting → List ByteString
  | .compilerPath => g.compilerPath.toList
  | .testsPath => g.testsPath.toList
  | .infrastructure => g.infrastructure.toList
  | .format => g.format.toList.map (fun f => Utf8.encode f.name)
  | .skip => g.excluded.map Utf8.encode

/-- What has been given after the gifts is what was given before, and them. -/
structure Extends (g : Given) (gifts : List Gift) (g' : Given) : Prop where
  values : ∀ s, g'.values s = g.values s ++ gifts.filterMap (Gift.valueOf s)
  switches : ∀ s, (g'.isOn s).toNat = (g.isOn s).toNat + gifts.count (.on s)
  filters : g'.included.map Utf8.encode = g.included.map Utf8.encode ++ gifts.filterMap Gift.filterOf
  takes : ∀ s v, Gift.value s v ∈ gifts → s.Takes v

theorem readFilter_eq_ok_iff {t : Text} : readFilter v = .ok t ↔ v = Utf8.encode t := by
  rw [readFilter, ← Utf8.decode?_eq_some_iff]
  cases Utf8.decode? v <;> simp

/-- A setting that can no more be given has a value. -/
theorem has_iff : g.has s = true ↔ s ≠ .skip ∧ g.values s ≠ [] := by
  cases s <;> simp [has, values, Option.isSome_iff_ne_none]

theorem nonempty_eq_ok_iff {w : ByteString} : nonempty s v = .ok w ↔ v ≠ [] ∧ v = w := by
  cases v <;> simp [nonempty]

theorem readFormat_eq_ok_iff {f : ReportFormat} :
    readFormat v = .ok f ↔ v = Utf8.encode f.name := by
  rw [readFormat, ← ReportFormat.ofBytes?_eq_some_iff]
  cases ReportFormat.ofBytes? v <;> simp

/-- A value that is taken is put behind those before it, and nothing else changes. -/
theorem extends_of_put (hfree : g.has s = false) (h : g.put s v = .ok g') :
    g.Extends [.value s v] g' := by
  cases s with
  | compilerPath | testsPath | infrastructure =>
    obtain ⟨w, hw, ⟨⟩⟩ := bind_eq_ok_iff.mp h
    obtain ⟨hne, rfl⟩ := nonempty_eq_ok_iff.mp hw
    simp only [has, Option.isSome_eq_false_iff, Option.isNone_iff_eq_none] at hfree
    refine ⟨fun s => ?_, fun s => ?_, ?_, ?_⟩
    · cases s <;> simp [values, Gift.valueOf, hfree]
    · cases s <;> simp [isOn]
    · simp [Gift.filterOf]
    · simp [Setting.Takes, hne]
  | format =>
    obtain ⟨w, hw, h⟩ := bind_eq_ok_iff.mp h
    obtain ⟨f, hf, ⟨⟩⟩ := bind_eq_ok_iff.mp h
    obtain ⟨-, rfl⟩ := nonempty_eq_ok_iff.mp hw
    obtain rfl := readFormat_eq_ok_iff.mp hf
    simp only [has, Option.isSome_eq_false_iff, Option.isNone_iff_eq_none] at hfree
    refine ⟨fun s => ?_, fun s => ?_, ?_, ?_⟩
    · cases s <;> simp [values, Gift.valueOf, hfree]
    · cases s <;> simp [isOn]
    · simp [Gift.filterOf]
    · intro s v hgift
      obtain ⟨rfl, rfl⟩ := Gift.value.inj (List.mem_singleton.mp hgift)
      exact ⟨f, rfl⟩
  | skip =>
    obtain ⟨t, ht, ⟨⟩⟩ := bind_eq_ok_iff.mp h
    obtain rfl := readFilter_eq_ok_iff.mp ht
    refine ⟨fun s => ?_, fun s => ?_, ?_, ?_⟩
    · cases s <;> simp [values, Gift.valueOf]
    · cases s <;> simp [isOn]
    · simp [Gift.filterOf]
    · intro s v hgift
      obtain ⟨rfl, rfl⟩ := Gift.value.inj (List.mem_singleton.mp hgift)
      exact ⟨t, rfl⟩

/-- A value that the setting takes can be put. -/
theorem exists_put (h : s.Takes v) : ∃ g', g.put s v = .ok g' := by
  cases s with
  | compilerPath | testsPath | infrastructure =>
    exact ⟨_, bind_eq_ok_iff.mpr ⟨v, nonempty_eq_ok_iff.mpr ⟨h, rfl⟩, rfl⟩⟩
  | format =>
    obtain ⟨f, rfl⟩ := h
    have hne : Utf8.encode f.name ≠ [] := by cases f <;> decide
    exact ⟨_, bind_eq_ok_iff.mpr ⟨_, nonempty_eq_ok_iff.mpr ⟨hne, rfl⟩,
      bind_eq_ok_iff.mpr ⟨f, readFormat_eq_ok_iff.mpr rfl, rfl⟩⟩⟩
  | skip =>
    obtain ⟨t, rfl⟩ := h
    exact ⟨_, bind_eq_ok_iff.mpr ⟨t, readFilter_eq_ok_iff.mpr rfl, rfl⟩⟩

theorem set_eq_ok_iff : g.set s (some v) = .ok g' ↔ g.has s = false ∧ g.put s v = .ok g' := by
  rw [set]
  cases g.has s <;> simp

theorem turnOn_eq_ok_iff {s : Switch} :
    g.turnOn s = .ok g' ↔ g.isOn s = false ∧ g.withOn s = g' := by
  rw [turnOn]
  cases g.isOn s <;> simp

theorem mapM_readFilter_eq_ok_iff {vs : List ByteString} {ts : List Text} :
    vs.mapM readFilter = .ok ts ↔ vs = ts.map Utf8.encode := by
  induction vs generalizing ts with
  | nil => cases ts <;> simp [pure, Except.pure]
  | cons v vs ih =>
    rw [List.mapM_cons, bind_eq_ok_iff]
    constructor
    · rintro ⟨t, ht, h⟩
      obtain ⟨us, hus, ⟨⟩⟩ := bind_eq_ok_iff.mp h
      rw [readFilter_eq_ok_iff.mp ht, ih.mp hus, List.map_cons]
    · intro h
      cases ts with
      | nil => cases h
      | cons t us =>
        obtain ⟨rfl, rfl⟩ := List.cons.inj h
        exact ⟨t, readFilter_eq_ok_iff.mpr rfl, bind_eq_ok_iff.mpr ⟨us, ih.mpr rfl, rfl⟩⟩

theorem addFilters_eq_ok_iff {vs : List ByteString} :
    g.addFilters vs = .ok g' ↔
      ∃ ts : List Text, vs = ts.map Utf8.encode ∧
        { g with included := g.included ++ ts } = g' := by
  rw [addFilters, bind_eq_ok_iff]
  simp only [mapM_readFilter_eq_ok_iff, pure, Except.pure, Except.ok.injEq]

/-- A gift that is accepted is added, and nothing else changes. -/
theorem extends_of_give (h : g.give gift = .ok g') : g.Extends [gift] g' := by
  cases gift with
  | on s =>
    obtain ⟨hoff, rfl⟩ := turnOn_eq_ok_iff.mp h
    refine ⟨fun s' => ?_, fun s' => ?_, ?_, ?_⟩
    · cases s <;> cases s' <;> simp [withOn, values, Gift.valueOf]
    · cases s <;> cases s' <;> simp_all [withOn, isOn]
    · cases s <;> simp [withOn, Gift.filterOf]
    · simp
  | value s v =>
    obtain ⟨hfree, hput⟩ := set_eq_ok_iff.mp h
    exact extends_of_put hfree hput
  | filter v =>
    obtain ⟨ts, hts, rfl⟩ := addFilters_eq_ok_iff.mp h
    refine ⟨fun s' => ?_, fun s' => ?_, ?_, ?_⟩
    · cases s' <;> simp [values, Gift.valueOf]
    · cases s' <;> simp [isOn]
    · simp [Gift.filterOf, hts]
    · simp

/-- What is given is determined by its values, switches and filters. -/
theorem eq_of_extends_nil (h : g.Extends [] g') : g' = g := by
  have hvalues : ∀ s, g'.values s = g.values s := fun s => (h.values s).trans (List.append_nil _)
  have hon : ∀ s, g'.isOn s = g.isOn s := fun s => by
    have hnat := h.switches s
    cases hs : g'.isOn s <;> cases hs' : g.isOn s <;> simp_all
  have hformat : g'.format = g.format := by
    have hnames := hvalues .format
    simp only [values, ← Option.toList_map] at hnames
    exact Option.map_injective ReportFormat.encode_name_injective (toList_injective hnames)
  have hincluded : g'.included = g.included := by
    have hfilters := h.filters
    simp only [List.filterMap_nil, List.append_nil] at hfilters
    exact (List.map_inj_right Utf8.encode_injective).mp hfilters
  have hexcluded : g'.excluded = g.excluded :=
    (List.map_inj_right Utf8.encode_injective).mp (hvalues .skip)
  cases g
  cases g'
  simp only [mk.injEq]
  exact ⟨toList_injective (hvalues .compilerPath), toList_injective (hvalues .testsPath),
    toList_injective (hvalues .infrastructure), hformat, hon .verbose, hon .listOnly, hon .exact,
    hon .logDebug, hon .logTrace, hexcluded, hincluded⟩

theorem length_values_le (h : s ≠ .skip) : (g.values s).length ≤ 1 := by
  cases s with
  | skip => exact absurd rfl h
  | compilerPath | testsPath | infrastructure => exact Option.length_toList_le
  | format =>
    rw [values, List.length_map]
    exact Option.length_toList_le

/-- If the gifts can add up, the first of them is accepted. -/
theorem exists_give (h : g.Extends (gift :: gifts) g') : ∃ g₁, g.give gift = .ok g₁ := by
  cases gift with
  | on s =>
    have hcount := h.switches s
    have hon := (g'.isOn s).toNat_le
    rw [List.count_cons_self] at hcount
    have hoff : g.isOn s = false := by
      cases hs : g.isOn s with
      | false => rfl
      | true =>
        rw [hs, Bool.toNat_true] at hcount
        omega
    exact ⟨_, turnOn_eq_ok_iff.mpr ⟨hoff, rfl⟩⟩
  | value s v =>
    have hfree : g.has s = false := by
      refine Bool.eq_false_iff.mpr fun hhas => ?_
      obtain ⟨hs, hne⟩ := has_iff.mp hhas
      have hlength := length_values_le (g := g') hs
      have hpos := List.length_pos_iff.mpr hne
      rw [h.values s] at hlength
      simp [Gift.valueOf] at hlength
      omega
    obtain ⟨g₁, hput⟩ := exists_put (g := g) (h.takes s v List.mem_cons_self)
    exact ⟨g₁, set_eq_ok_iff.mpr ⟨hfree, hput⟩⟩
  | filter v =>
    have hmem : v ∈ g'.included.map Utf8.encode := by
      rw [h.filters]
      simp [Gift.filterOf]
    obtain ⟨t, -, rfl⟩ := List.mem_map.mp hmem
    exact ⟨_, addFilters_eq_ok_iff.mpr ⟨[t], rfl, rfl⟩⟩

theorem Extends.cons_iff (h : g.Extends [gift] g₁) :
    g.Extends (gift :: gifts) g' ↔ g₁.Extends gifts g' := by
  have hvalues : ∀ s, g₁.values s ++ gifts.filterMap (Gift.valueOf s) =
      g.values s ++ (gift :: gifts).filterMap (Gift.valueOf s) := fun s => by
    rw [h.values s, List.append_assoc, ← List.filterMap_append, List.singleton_append]
  have hswitches : ∀ s, (g₁.isOn s).toNat + gifts.count (.on s) =
      (g.isOn s).toNat + (gift :: gifts).count (.on s) := fun s => by
    rw [h.switches s, Nat.add_assoc, ← List.count_append, List.singleton_append]
  have hfilters : g₁.included.map Utf8.encode ++ gifts.filterMap Gift.filterOf =
      g.included.map Utf8.encode ++ (gift :: gifts).filterMap Gift.filterOf := by
    rw [h.filters, List.append_assoc, ← List.filterMap_append, List.singleton_append]
  constructor
  · intro hall
    exact ⟨fun s => (hall.values s).trans (hvalues s).symm,
      fun s => (hall.switches s).trans (hswitches s).symm, hall.filters.trans hfilters.symm,
      fun s v hmem => hall.takes s v (List.mem_cons_of_mem _ hmem)⟩
  · intro hrest
    refine ⟨fun s => (hrest.values s).trans (hvalues s),
      fun s => (hrest.switches s).trans (hswitches s), hrest.filters.trans hfilters, ?_⟩
    intro s v hmem
    rcases List.mem_cons.mp hmem with hfirst | hlater
    · exact h.takes s v (List.mem_singleton.mpr hfirst)
    · exact hrest.takes s v hlater

/-- Giving one after the other succeeds exactly when the gifts add up. -/
theorem foldlM_give_eq_ok_iff : gifts.foldlM give g = .ok g' ↔ g.Extends gifts g' := by
  induction gifts generalizing g with
  | nil =>
    constructor
    · rintro ⟨⟩
      exact ⟨by simp, by simp, by simp, by simp⟩
    · intro h
      rw [eq_of_extends_nil h]
      rfl
  | cons gift gifts ih =>
    rw [List.foldlM_cons, bind_eq_ok_iff]
    constructor
    · rintro ⟨g₁, hgive, hrest⟩
      exact (extends_of_give hgive).cons_iff.mpr (ih.mp hrest)
    · intro h
      obtain ⟨g₁, hgive⟩ := exists_give h
      exact ⟨g₁, hgive, ih.mpr ((extends_of_give hgive).cons_iff.mp h)⟩

end Given

end CompilerTrials
