import CompilerTrials.Proofs.Readings

/-!
# Command lines one behind the other

What a command line gives when something was given before it. More can be in the way of it, but it
adds the same.

* `Given.Below`: of two, the one in which less is given.
* `Given.Below.exists_foldlM`: gifts that can be given on top of more can be given on top of less.
* `Given.Joins`: all that was given is the one, and then the other.
* `Given.extends_iff_joins`: gifts that add up to something by themselves add it to whatever was
  given before.
* `Reading.finish_items`, `Reading.finish_eq_ok_iff`: the reader behind the items of a line.
-/

namespace CompilerTrials

open CommandLine

/-! ## Giving more and less -/

namespace Given

variable {b b' g g' : Given} {gift : Gift} {gifts : List Gift}

/-- What is given has a value or is on there only where the other is so too. -/
structure Below (g b : Given) : Prop where
  values : ∀ s, g.values s ≠ [] → b.values s ≠ []
  switches : ∀ s, g.isOn s = true → b.isOn s = true

theorem below_of_none (b : Given) : Below {} b where
  values s h := by cases s <;> exact absurd rfl h
  switches s h := by cases s <;> cases h

theorem Below.has (h : g.Below b) {s : Setting} (hfree : b.has s = false) : g.has s = false := by
  refine Bool.eq_false_iff.mpr fun hhas => ?_
  obtain ⟨hs, hne⟩ := has_iff.mp hhas
  exact Bool.eq_false_iff.mp hfree (has_iff.mpr ⟨hs, h.values s hne⟩)

/-- The same gifts keep the order. -/
theorem Below.extends (h : g.Below b) (hg : g.Extends gifts g') (hb : b.Extends gifts b') :
    g'.Below b' := by
  constructor
  · intro s hne hnil
    rw [hb.values s, List.append_eq_nil_iff] at hnil
    rw [hg.values s, hnil.2, List.append_nil] at hne
    exact h.values s hne hnil.1
  · intro s hon
    have hcount := hg.switches s
    have hcount' := hb.switches s
    have hbefore := h.switches s
    cases hoff : b'.isOn s with
    | true => rfl
    | false =>
      rw [hon, Bool.toNat_true] at hcount
      rw [hoff, Bool.toNat_false] at hcount'
      cases hs : g.isOn s with
      | true =>
        rw [hbefore hs, Bool.toNat_true] at hcount'
        omega
      | false =>
        rw [hs, Bool.toNat_false] at hcount
        omega

/-- Where more is given already, no more gifts are accepted. -/
theorem Below.exists_give (h : g.Below b) (hgive : b.give gift = .ok b') :
    ∃ g', g.give gift = .ok g' := by
  cases gift with
  | on s =>
    obtain ⟨hoff, -⟩ := turnOn_eq_ok_iff.mp hgive
    have hoff' : g.isOn s = false := Bool.eq_false_iff.mpr fun hon =>
      Bool.eq_false_iff.mp hoff (h.switches s hon)
    exact ⟨_, turnOn_eq_ok_iff.mpr ⟨hoff', rfl⟩⟩
  | value s v =>
    obtain ⟨hfree, -⟩ := set_eq_ok_iff.mp hgive
    have htakes := (extends_of_give hgive).takes s v (List.mem_singleton_self _)
    obtain ⟨g', hput⟩ := exists_put (g := g) htakes
    exact ⟨g', set_eq_ok_iff.mpr ⟨h.has hfree, hput⟩⟩
  | filter v =>
    obtain ⟨ts, hts, -⟩ := addFilters_eq_ok_iff.mp hgive
    exact ⟨_, addFilters_eq_ok_iff.mpr ⟨ts, hts, rfl⟩⟩

theorem Below.exists_foldlM (h : g.Below b) (hgive : gifts.foldlM give b = .ok b') :
    ∃ g', gifts.foldlM give g = .ok g' := by
  induction gifts generalizing g b with
  | nil => exact ⟨g, rfl⟩
  | cons gift gifts ih =>
    obtain ⟨b₁, hfirst, hrest⟩ := bind_eq_ok_iff.mp hgive
    obtain ⟨g₁, hfirst'⟩ := h.exists_give hfirst
    have hbelow := h.extends (extends_of_give hfirst') (extends_of_give hfirst)
    obtain ⟨g', hrest'⟩ := ih hbelow hrest
    exact ⟨g', bind_eq_ok_iff.mpr ⟨g₁, hfirst', hrest'⟩⟩

/-- All that is given is what was given first, and then the other. -/
structure Joins (b g g' : Given) : Prop where
  values : ∀ s, g'.values s = b.values s ++ g.values s
  switches : ∀ s, (g'.isOn s).toNat = (b.isOn s).toNat + (g.isOn s).toNat
  filters : g'.included.map Utf8.encode =
    b.included.map Utf8.encode ++ g.included.map Utf8.encode

/-- What is given first makes no difference where the two have nothing in common. -/
theorem Joins.comm (h : b.Joins g g') (hvalues : ∀ s, b.values s = [] ∨ g.values s = [])
    (hfilters : b.included = [] ∨ g.included = []) : g.Joins b g' := by
  have hcomm {α : Type} {xs ys : List α} (hnil : xs = [] ∨ ys = []) : xs ++ ys = ys ++ xs := by
    rcases hnil with rfl | rfl
    · rw [List.append_nil, List.nil_append]
    · rw [List.append_nil, List.nil_append]
  constructor
  · exact fun s => (h.values s).trans (hcomm (hvalues s))
  · exact fun s => (h.switches s).trans (Nat.add_comm _ _)
  · rw [h.filters, ← List.map_append, hcomm hfilters, List.map_append]

/-- The gifts that add up to something by themselves add it to whatever was given before. -/
theorem extends_iff_joins (h : Extends {} gifts g) : b.Extends gifts g' ↔ b.Joins g g' := by
  have hvalues (s : Setting) : g.values s = gifts.filterMap (Gift.valueOf s) := by
    rw [h.values s]
    cases s <;> rfl
  have hswitches (s : Switch) : (g.isOn s).toNat = gifts.count (.on s) := by
    rw [h.switches s]
    cases s <;> exact Nat.zero_add _
  have hfilters : g.included.map Utf8.encode = gifts.filterMap Gift.filterOf := h.filters
  constructor
  · intro hb
    exact ⟨fun s => (hb.values s).trans (congrArg _ (hvalues s).symm),
      fun s => (hb.switches s).trans (congrArg _ (hswitches s).symm),
      hb.filters.trans (congrArg _ hfilters.symm)⟩
  · intro hb
    exact ⟨fun s => (hb.values s).trans (congrArg _ (hvalues s)),
      fun s => (hb.switches s).trans (congrArg _ (hswitches s)),
      hb.filters.trans (congrArg _ hfilters), h.takes⟩

end Given

/-! ## Reading behind other arguments -/

namespace Reading

variable {r : Reading} {g g₁ g' : Given} {args : List ByteString}

/-- The items of a line take a ready reading to one that is ready for what they amount to. -/
theorem finish_items (items : List Item) (h : r.Ready g)
    (hgive : (items.map Item.gift).foldlM Given.give g = .ok g') :
    ∃ r' : Reading, r'.Ready g' ∧
      ∀ rest, r.finish (items.flatMap Item.spelled ++ rest) = r'.finish rest := by
  induction items generalizing r g with
  | nil =>
    obtain ⟨⟩ := hgive
    exact ⟨r, h, fun rest => rfl⟩
  | cons item items ih =>
    obtain ⟨g₁, hfirst, hlater⟩ := bind_eq_ok_iff.mp hgive
    obtain ⟨r₁, hready, hfinish⟩ := finish_item item h hfirst
    obtain ⟨r', hready', hfinish'⟩ := ih hready hlater
    refine ⟨r', hready', fun rest => ?_⟩
    rw [List.flatMap_cons, List.append_assoc, hfinish, hfinish']

/-- From a reading that is ready, arguments are read to their end exactly when they are a line whose
gifts can be given. -/
theorem finish_eq_ok_iff (h : r.Ready g) : r.finish args = .ok g' ↔ Leads g args g' := by
  constructor
  · intro hfinish
    obtain ⟨g₀, hready, hleads⟩ | ⟨s, v, rest, hpending, -⟩ := continues_of_finish hfinish
    · obtain rfl : g₀ = g := Except.ok.inj (hready.symm.trans h)
      exact hleads
    · exact absurd hpending (h.not_awaits s)
  · exact finish_of_leads h

end Reading

namespace CommandLine

variable {args : List ByteString} {b g' : Given}

/-- What can be read behind other arguments can be read by itself. -/
theorem exists_given_of_leads (h : Reading.Leads b args g') : ∃ g, given args = .ok g := by
  obtain ⟨l, hl, hgifts⟩ := h
  obtain ⟨g, hg⟩ := (Given.below_of_none b).exists_foldlM hgifts
  exact ⟨g, given_eq_ok_iff.mpr ⟨l, hl, hg⟩⟩

end CommandLine

end CompilerTrials
