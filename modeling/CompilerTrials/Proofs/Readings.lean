import CompilerTrials.Proofs.Grammar

/-!
# Command lines are read by their grammar

The reader settles a parameter when it comes to the next one, so between two arguments something
may still be pending. A reading that is ready stands for what is given once that is settled; the
items of a line take one ready reading to the next.

* `Reading.finish_of_leads`: a line whose gifts can be given is read to its end.
* `Reading.continues_of_finish`: what is read to its end is a line whose gifts can be given.
* `CommandLine.read_eq_run_iff_exists_line`: a command line asks for a run with these options
  exactly when it is a line that yields them.
-/

namespace CompilerTrials

open Argument (dash equals)

open CommandLine

/-! ## Single arguments -/

namespace Argument

/-- The bytes that are read as an argument. -/
inductive Spells : ByteString → Argument → Prop where
  | terminator : Spells [dash, dash] .terminator
  | long (name : ByteString) : Spells (dash :: dash :: name) (.long name none)
  | attached (name v : ByteString) :
      Spells (dash :: dash :: name ++ equals :: v) (.long name (some v))
  | cluster (names : ByteString) (h : names ≠ []) : Spells (dash :: names) (.cluster names)
  | plain (v : ByteString) (h : IsPlain v) : Spells v (.plain v)

theorem spells_ofLong (body : ByteString) : Spells (dash :: dash :: body) (ofLong body) := by
  have hbody : body.takeWhile (· ≠ equals) ++ body.dropWhile (· ≠ equals) = body :=
    List.takeWhile_append_dropWhile
  unfold ofLong
  cases hdrop : body.dropWhile (· ≠ equals) with
  | nil =>
    rw [hdrop, List.append_nil] at hbody
    rw [hbody]
    exact .long body
  | cons b v =>
    have hb : b = equals := by
      have hfirst := List.head?_dropWhile_not (· ≠ equals) body
      rw [hdrop] at hfirst
      simpa using hfirst
    rw [hdrop, hb] at hbody
    conv => lhs; rw [← hbody]
    exact .attached _ v

theorem spells_ofBytes (bytes : ByteString) : Spells bytes (ofBytes bytes) := by
  unfold ofBytes
  split
  · exact .plain [] (.inr (by simp))
  · next b =>
    by_cases hb : b = dash
    · exact .plain _ (.inl (by rw [hb]))
    · exact .plain _ (.inr (by simpa using hb))
  · next a b rest =>
    split
    · next ha => exact .plain _ (.inr (by simpa using ha))
    · next ha =>
      obtain rfl : a = dash := Decidable.not_not.mp ha
      split
      · exact .cluster _ (by simp)
      · next hb =>
        obtain rfl : b = dash := Decidable.not_not.mp hb
        split
        · next hrest =>
          rw [List.isEmpty_iff.mp hrest]
          exact .terminator
        · exact spells_ofLong rest

theorem ofBytes_of_isPlain {v : ByteString} (h : IsPlain v) : ofBytes v = .plain v := by
  rcases h with rfl | hhead
  · rfl
  · match v, hhead with
    | [], _ => rfl
    | [b], _ => rfl
    | a :: b :: rest, hhead =>
      have ha : a ≠ dash := fun h => hhead (by rw [h]; rfl)
      simp only [ofBytes, if_pos ha]

/-- A name in which no equals sign stands is read back. -/
theorem ofLong_name {name : ByteString} (hname : equals ∉ name) :
    ofLong name = .long name none := by
  have hall : ∀ b ∈ name, decide (b ≠ equals) = true := fun b hb =>
    decide_eq_true (ne_of_mem_of_not_mem hb hname)
  have htake : name.takeWhile (· ≠ equals) = name := by
    simpa using @List.takeWhile_append_of_pos _ _ name [] hall
  have hdrop : name.dropWhile (· ≠ equals) = [] := by
    simpa using @List.dropWhile_append_of_pos _ _ name [] hall
  rw [ofLong, htake, hdrop]

theorem ofLong_attached {name : ByteString} (hname : equals ∉ name) (v : ByteString) :
    ofLong (name ++ equals :: v) = .long name (some v) := by
  have hall : ∀ b ∈ name, decide (b ≠ equals) = true := fun b hb =>
    decide_eq_true (ne_of_mem_of_not_mem hb hname)
  rw [ofLong, List.takeWhile_append_of_pos hall, List.dropWhile_append_of_pos hall]
  simp

theorem ofBytes_dashes {body : ByteString} (h : body ≠ []) :
    ofBytes (dash :: dash :: body) = ofLong body := by
  cases body with
  | nil => exact absurd rfl h
  | cons b rest => rfl

end Argument

/-! ## Names -/

namespace CommandLine

/-- A long name that can be read back: it does not end early. -/
structure IsLongName (name : ByteString) : Prop where
  ne_nil : name ≠ []
  equals_not_mem : equals ∉ name

theorem isLongName (p : Parameter) : IsLongName (Utf8.encode p.longName) := by
  rcases p with s | s | i
  · cases s <;> exact ⟨by decide +kernel, by decide +kernel⟩
  · cases s <;> exact ⟨by decide +kernel, by decide +kernel⟩
  · cases i <;> exact ⟨by decide +kernel, by decide +kernel⟩

theorem ofLong?_eq_some_iff {name : ByteString} {p : Parameter} :
    Parameter.ofLong? name = some p ↔ name = Utf8.encode p.longName := by
  constructor
  · intro h
    have hname := List.find?_some h
    exact (of_decide_eq_true hname).symm
  · rintro rfl
    rcases p with s | s | i
    · cases s <;> decide +kernel
    · cases s <;> decide +kernel
    · cases i <;> decide +kernel

theorem ofBytes_spellLong (p : Parameter) :
    Argument.ofBytes (spellLong p.longName) = .long (Utf8.encode p.longName) none := by
  obtain ⟨hne, hequals⟩ := isLongName p
  rw [spellLong, Argument.ofBytes_dashes hne, Argument.ofLong_name hequals]

theorem ofBytes_attached (p : Parameter) (v : ByteString) :
    Argument.ofBytes (spellLong p.longName ++ equals :: v) =
      .long (Utf8.encode p.longName) (some v) := by
  obtain ⟨hne, hequals⟩ := isLongName p
  rw [← Argument.ofLong_attached hequals]
  exact Argument.ofBytes_dashes (by simp [hne])

end CommandLine

/-! ## Readings -/

namespace Reading

variable {r r' : Reading} {g g' : Given} {v : ByteString}

/-- What is pending can be settled, and then this is given. -/
def Ready (r : Reading) (g : Given) : Prop := r.pending.settle r.given = .ok g

theorem mapError_eq_ok_iff {ε ε' α : Type} {x : Except ε α} {f : ε → ε'} {a : α} :
    x.mapError f = .ok a ↔ x = .ok a := by
  cases x with
  | error e => exact ⟨nofun, nofun⟩
  | ok b =>
    have hmap : (Except.ok b : Except ε α).mapError f = .ok b := rfl
    rw [hmap, Except.ok.injEq, Except.ok.injEq]

theorem settled_eq_ok_iff : r.settled = .ok g ↔ r.Ready g := mapError_eq_ok_iff

theorem ready_given : Ready { given := g } g' ↔ g = g' := by
  simp [Ready, Pending.settle]

theorem andThen_eq_ok_iff {f : Given → Except UsageError Given} :
    r.andThen f = .ok r' ↔ ∃ g, r.Ready g ∧ ∃ g', f g = .ok g' ∧ { given := g' } = r' := by
  simp only [andThen, bind_eq_ok_iff, settled_eq_ok_iff, mapError_eq_ok_iff, pure, Except.pure,
    Except.ok.injEq]

/-- Nothing is read after an inquiry. -/
theorem inquire_ne_ok (i : Inquiry) (detailed : Bool) : r.inquire i detailed ≠ .ok r' := by
  intro h
  obtain ⟨g, -, hanswer⟩ := bind_eq_ok_iff.mp h
  cases i <;> cases hanswer

/-! ### What one argument does -/

theorem long_switch (s : Switch) :
    r.long (Utf8.encode s.longName) none = r.andThen (·.turnOn s) := by
  have hname : Parameter.ofLong? (Utf8.encode s.longName) = some (.switch s) :=
    ofLong?_eq_some_iff.mpr rfl
  simp only [long, hname]

theorem long_setting (s : Setting) (value : Option ByteString) :
    r.long (Utf8.encode s.longName) value = r.setting s value := by
  have hname : Parameter.ofLong? (Utf8.encode s.longName) = some (.setting s) :=
    ofLong?_eq_some_iff.mpr rfl
  simp only [long, hname]

/-- A long name that is read on is one of a switch or of a setting. -/
theorem long_cases {name : ByteString} {value : Option ByteString}
    (h : r.long name value = .ok r') :
    (∃ s : Switch, name = Utf8.encode s.longName ∧ value = none ∧
      r.andThen (·.turnOn s) = .ok r') ∨
    ∃ s : Setting, name = Utf8.encode s.longName ∧ r.setting s value = .ok r' := by
  cases hname : Parameter.ofLong? name with
  | none => simp [long, hname] at h
  | some p =>
    obtain rfl := ofLong?_eq_some_iff.mp hname
    cases p with
    | switch s =>
      cases value with
      | none => exact .inl ⟨s, rfl, rfl, (long_switch s).symm.trans h⟩
      | some v => simp [long, hname] at h
    | setting s => exact .inr ⟨s, rfl, (long_setting s value).symm.trans h⟩
    | inquiry i =>
      cases value with
      | none =>
        simp only [long, hname] at h
        exact absurd h (inquire_ne_ok i true)
      | some v => simp [long, hname] at h

theorem setting_attached (s : Setting) (v : ByteString) :
    r.setting s (some v) = r.andThen (·.set s (some v)) := by
  cases s <;> rfl

theorem setting_bare :
    r.setting .infrastructure none =
      r.andThen (·.set .infrastructure (some defaultInfrastructureDir)) := rfl

theorem setting_separate_eq_ok_iff {s : Setting} (hs : s ≠ .infrastructure) :
    r.setting s none = .ok r' ↔
      ∃ g, r.Ready g ∧ { given := g, pending := .setting s none } = r' := by
  cases s with
  | infrastructure => exact absurd rfl hs
  | _ =>
    simp only [setting, bind_eq_ok_iff, settled_eq_ok_iff, pure, Except.pure, Except.ok.injEq]

theorem short_verbose : r.short 'v' = r.andThen (·.turnOn .verbose) := rfl

/-- A short name that is read on is that of the verbose switch. -/
theorem short_eq_ok {c : Char} (h : r.short c = .ok r') :
    c = 'v' ∧ r.andThen (·.turnOn .verbose) = .ok r' := by
  cases hname : Parameter.ofShort? c with
  | none => simp [short, hname] at h
  | some p =>
    have hfound := List.find?_some hname
    have hshort : p.short? = some c := of_decide_eq_true hfound
    simp only [short, hname] at h
    cases p with
    | switch s =>
      cases s with
      | verbose =>
        obtain rfl : 'v' = c := Option.some.inj hshort
        exact ⟨rfl, h⟩
      | _ => cases hshort
    | setting s => cases h
    | inquiry i => exact absurd h (inquire_ne_ok i false)

theorem cluster_verbose : r.cluster (Utf8.encode ['v']) = r.andThen (·.turnOn .verbose) := by
  have hsplit : Utf8.split (Utf8.encode ['v']) = (['v'], []) := by decide +kernel
  rw [cluster, hsplit, ← short_verbose]
  simp

theorem split_eq_of_cluster {names : ByteString} (h : r.cluster names = .ok r') :
    ∃ t, names = Utf8.encode t ∧ t.foldlM short r = .ok r' := by
  obtain ⟨r₁, hshort, hrest⟩ := bind_eq_ok_iff.mp h
  cases hsplit : (Utf8.split names).2 with
  | nil =>
    rw [hsplit] at hrest
    obtain ⟨⟩ := hrest
    refine ⟨_, Utf8.decode?_eq_some_iff.mp ?_, hshort⟩
    simp only [Utf8.decode?]
    split
    · next t heq => rw [heq]
    · next heq => rw [heq] at hsplit; cases hsplit
  | cons b rest =>
    rw [hsplit] at hrest
    cases hrest

/-- Short names that are read on are the one of the verbose switch, which is turned on once. -/
theorem cluster_eq_ok {names : ByteString} (hne : names ≠ []) (h : r.cluster names = .ok r') :
    names = Utf8.encode ['v'] ∧ r.andThen (·.turnOn .verbose) = .ok r' := by
  obtain ⟨t, rfl, hshort⟩ := split_eq_of_cluster h
  cases t with
  | nil => exact absurd rfl hne
  | cons c t =>
    obtain ⟨r₁, hfirst, hlater⟩ := bind_eq_ok_iff.mp hshort
    obtain ⟨rfl, hverbose⟩ := short_eq_ok hfirst
    cases t with
    | nil =>
      obtain ⟨⟩ := hlater
      exact ⟨rfl, hverbose⟩
    | cons c' t =>
      -- A second name would turn the switch on again.
      obtain ⟨g, -, g₁, hon, rfl⟩ := andThen_eq_ok_iff.mp hverbose
      obtain ⟨-, rfl⟩ := Given.turnOn_eq_ok_iff.mp hon
      obtain ⟨r₂, hsecond, -⟩ := bind_eq_ok_iff.mp hlater
      obtain ⟨g₂, hready, g₃, hon₂, -⟩ := andThen_eq_ok_iff.mp (short_eq_ok hsecond).2
      obtain rfl := ready_given.mp hready
      cases (Given.turnOn_eq_ok_iff.mp hon₂).1

/-! ### Filters -/

theorem addFilters_append {vs ws : List ByteString} :
    g.addFilters (vs ++ ws) = .ok g' ↔
      ∃ g₁, g.addFilters vs = .ok g₁ ∧ g₁.addFilters ws = .ok g' := by
  simp only [Given.addFilters_eq_ok_iff]
  constructor
  · rintro ⟨ts, hts, rfl⟩
    obtain ⟨ts₁, ts₂, rfl, rfl, rfl⟩ := List.append_eq_map_iff.mp hts
    exact ⟨_, ⟨ts₁, rfl, rfl⟩, ts₂, rfl, by rw [List.append_assoc]⟩
  · rintro ⟨g₁, ⟨ts₁, rfl, rfl⟩, ts₂, rfl, rfl⟩
    exact ⟨ts₁ ++ ts₂, List.map_append.symm, by rw [List.append_assoc]⟩

theorem filter_of_ready (h : r.Ready g) (v : ByteString) :
    ∃ r', r.filter v = .ok r' ∧ ∀ g', r'.Ready g' ↔ g.give (.filter v) = .ok g' := by
  obtain ⟨given, pending⟩ := r
  cases pending with
  | filters vs =>
    refine ⟨_, rfl, fun g' => addFilters_append.trans ⟨?_, fun hgive => ⟨g, h, hgive⟩⟩⟩
    rintro ⟨g₁, hvs, hv⟩
    obtain rfl : g = g₁ := Except.ok.inj (h.symm.trans hvs)
    exact hv
  | nothing | setting s value =>
    exact ⟨_, bind_eq_ok_iff.mpr ⟨g, settled_eq_ok_iff.mpr h, rfl⟩, fun g' => Iff.rfl⟩

theorem ready_of_filter (h : r.filter v = .ok r') (hready : r'.Ready g') :
    ∃ g, r.Ready g ∧ g.give (.filter v) = .ok g' := by
  have hbefore : ∃ g, r.Ready g := by
    obtain ⟨given, pending⟩ := r
    cases pending with
    | filters vs =>
      obtain ⟨⟩ := h
      obtain ⟨g, hvs, -⟩ := addFilters_append.mp hready
      exact ⟨g, hvs⟩
    | nothing | setting s value =>
      obtain ⟨g, hsettled, -⟩ := bind_eq_ok_iff.mp h
      exact ⟨g, settled_eq_ok_iff.mp hsettled⟩
  obtain ⟨g, hg⟩ := hbefore
  obtain ⟨r₁, hread, hiff⟩ := filter_of_ready hg v
  obtain rfl : r' = r₁ := Except.ok.inj (h.symm.trans hread)
  exact ⟨g, hg, (hiff g').mp hready⟩

theorem filters_of_ready {vs : List ByteString} (h : r.Ready g)
    (hgive : (vs.map .filter).foldlM Given.give g = .ok g') :
    ∃ r', vs.foldlM filter r = .ok r' ∧ r'.Ready g' := by
  induction vs generalizing r g with
  | nil =>
    obtain ⟨⟩ := hgive
    exact ⟨r, rfl, h⟩
  | cons v vs ih =>
    obtain ⟨g₁, hfirst, hrest⟩ := bind_eq_ok_iff.mp hgive
    obtain ⟨r₁, hread, hready⟩ := filter_of_ready h v
    obtain ⟨r', hreads, hready'⟩ := ih ((hready g₁).mpr hfirst) hrest
    exact ⟨r', bind_eq_ok_iff.mpr ⟨r₁, hread, hreads⟩, hready'⟩

theorem ready_of_filters {vs : List ByteString} (h : vs.foldlM filter r = .ok r')
    (hready : r'.Ready g') :
    ∃ g, r.Ready g ∧ (vs.map .filter).foldlM Given.give g = .ok g' := by
  induction vs generalizing r with
  | nil =>
    obtain ⟨⟩ := h
    exact ⟨g', hready, rfl⟩
  | cons v vs ih =>
    obtain ⟨r₁, hread, hreads⟩ := bind_eq_ok_iff.mp h
    obtain ⟨g₁, hready₁, hrest⟩ := ih hreads
    obtain ⟨g, hready, hfirst⟩ := ready_of_filter hread hready₁
    exact ⟨g, hready, bind_eq_ok_iff.mpr ⟨g₁, hfirst, hrest⟩⟩

/-! ### Whole lines -/

/-- Reads the arguments to the end and settles what is pending then. -/
def finish (r : Reading) (args : List ByteString) : Except Stop Given := do
  (← r.readAll args).settled

theorem finish_cons (bytes : ByteString) (rest : List ByteString) :
    r.finish (bytes :: rest) =
      match Argument.ofBytes bytes with
      | .terminator => rest.foldlM filter r >>= settled
      | .long name value => r.long name value >>= fun r' => r'.finish rest
      | .cluster names => r.cluster names >>= fun r' => r'.finish rest
      | .plain v => r.plain v >>= fun r' => r'.finish rest := by
  unfold finish
  rw [readAll]
  cases Argument.ofBytes bytes <;> simp only [bind_assoc]

theorem finish_of_long {bytes name : ByteString} {value : Option ByteString}
    (hbytes : Argument.ofBytes bytes = .long name value) (h : r.long name value = .ok r')
    (rest : List ByteString) : r.finish (bytes :: rest) = r'.finish rest := by
  rw [finish_cons, hbytes]
  exact congrArg (· >>= fun r' => r'.finish rest) h

theorem finish_of_plain (hv : IsPlain v) (h : r.plain v = .ok r') (rest : List ByteString) :
    r.finish (v :: rest) = r'.finish rest := by
  rw [finish_cons, Argument.ofBytes_of_isPlain hv]
  exact congrArg (· >>= fun r' => r'.finish rest) h

/-- The arguments are a line whose gifts lead from the one to the other. -/
def Leads (g : Given) (args : List ByteString) (g' : Given) : Prop :=
  ∃ l : Line, l.spelled = args ∧ l.gifts.foldlM Given.give g = .ok g'

theorem Leads.cons {g₁ : Given} {args : List ByteString} (item : Item)
    (hgive : g.give item.gift = .ok g₁) (h : Leads g₁ args g') :
    Leads g (item.spelled ++ args) g' := by
  obtain ⟨⟨items, rest⟩, rfl, hgifts⟩ := h
  exact ⟨⟨item :: items, rest⟩, by simp [Line.spelled],
    bind_eq_ok_iff.mpr ⟨g₁, hgive, hgifts⟩⟩

theorem plain_of_not_awaits (h : ∀ s, r.pending ≠ .setting s none) (v : ByteString) :
    r.plain v = r.filter v := by
  obtain ⟨given, pending⟩ := r
  cases pending with
  | nothing | filters vs => rfl
  | setting s value =>
    cases value with
    | none => exact absurd rfl (h s)
    | some w => rfl

theorem Ready.not_awaits (h : r.Ready g) (s : Setting) : r.pending ≠ .setting s none := by
  intro hs
  rw [Ready, hs] at h
  cases h

/-- One item of a line takes a ready reading to the next. -/
theorem finish_item (item : Item) (h : r.Ready g) (hgive : g.give item.gift = .ok g') :
    ∃ r' : Reading, r'.Ready g' ∧ ∀ rest, r.finish (item.spelled ++ rest) = r'.finish rest := by
  have hsettled : ∀ f : Given → Except UsageError Given, f g = .ok g' →
      r.andThen f = .ok { given := g' } := fun f hf =>
    andThen_eq_ok_iff.mpr ⟨g, h, g', hf, rfl⟩
  cases item with
  | switch s =>
    have hread := (long_switch s).trans (hsettled (·.turnOn s) hgive)
    exact ⟨_, ready_given.mpr rfl, finish_of_long (ofBytes_spellLong (.switch s)) hread⟩
  | shortVerbose =>
    have hread := cluster_verbose.trans (hsettled (·.turnOn .verbose) hgive)
    refine ⟨_, ready_given.mpr rfl, fun rest => (finish_cons _ _).trans ?_⟩
    exact congrArg (· >>= fun r' => r'.finish rest) hread
  | attached s v =>
    have hread := (long_setting s (some v)).trans
      ((setting_attached s v).trans (hsettled (·.set s (some v)) hgive))
    exact ⟨_, ready_given.mpr rfl, finish_of_long (ofBytes_attached (.setting s) v) hread⟩
  | separate s hs v hv =>
    have hread := (long_setting s none).trans
      ((setting_separate_eq_ok_iff hs).mpr ⟨g, h, rfl⟩)
    refine ⟨{ given := g, pending := .setting s (some v) }, hgive, fun rest => ?_⟩
    exact (finish_of_long (ofBytes_spellLong (.setting s)) hread _).trans
      (finish_of_plain hv rfl rest)
  | bareInfrastructure =>
    have hread := (long_setting .infrastructure none).trans
      (setting_bare.trans (hsettled (·.set .infrastructure _) hgive))
    exact ⟨_, ready_given.mpr rfl,
      finish_of_long (ofBytes_spellLong (.setting .infrastructure)) hread⟩
  | filter v hv =>
    obtain ⟨r', hread, hready⟩ := filter_of_ready h v
    have hplain := (plain_of_not_awaits h.not_awaits v).trans hread
    exact ⟨r', (hready g').mpr hgive, finish_of_plain hv hplain⟩

/-- A line whose gifts can be given is read to its end. -/
theorem finish_of_leads {args : List ByteString} (h : r.Ready g) (hleads : Leads g args g') :
    r.finish args = .ok g' := by
  obtain ⟨⟨items, rest⟩, rfl, hgifts⟩ := hleads
  induction items generalizing r g with
  | nil =>
    cases rest with
    | none =>
      obtain ⟨⟩ := hgifts
      exact settled_eq_ok_iff.mpr h
    | some vs =>
      obtain ⟨r', hread, hready⟩ := filters_of_ready h hgifts
      exact (finish_cons _ _).trans (bind_eq_ok_iff.mpr ⟨r', hread, settled_eq_ok_iff.mpr hready⟩)
  | cons item items ih =>
    obtain ⟨g₁, hgive, hrest⟩ := bind_eq_ok_iff.mp hgifts
    obtain ⟨r₁, hready, hfinish⟩ := finish_item item h hgive
    rw [Line.spelled, List.flatMap_cons, List.append_assoc, hfinish]
    exact ih hready hrest

/-- What a reading can go on with: it is ready, or a setting waits for its value. -/
def Continues (r : Reading) (args : List ByteString) (g' : Given) : Prop :=
  (∃ g, r.Ready g ∧ Leads g args g') ∨
    ∃ s v rest, r.pending = .setting s none ∧ args = v :: rest ∧ IsPlain v ∧
      ∃ g, r.given.set s (some v) = .ok g ∧ Leads g rest g'

theorem leads_of_continues {args : List ByteString}
    (h : Continues { given := g } args g') : Leads g args g' := by
  obtain ⟨g₀, hready, hleads⟩ | ⟨s, v, rest, hpending, -⟩ := h
  · obtain rfl := ready_given.mp hready
    exact hleads
  · cases hpending

/-- A settled item, and a line after it. -/
theorem Continues.item {args : List ByteString} (item : Item) {f : Given → Except UsageError Given}
    (hf : ∀ g, g.give item.gift = f g) (hread : r.andThen f = .ok r') (h : Continues r' args g') :
    Continues r (item.spelled ++ args) g' := by
  obtain ⟨g, hready, g₁, hgive, rfl⟩ := andThen_eq_ok_iff.mp hread
  exact .inl ⟨g, hready, (leads_of_continues h).cons item ((hf g).trans hgive)⟩

theorem pending_of_filter (h : r.filter v = .ok r') : ∃ vs, r'.pending = .filters vs := by
  obtain ⟨given, pending⟩ := r
  cases pending with
  | filters vs =>
    obtain ⟨⟩ := h
    exact ⟨_, rfl⟩
  | nothing | setting s value =>
    obtain ⟨g, -, ⟨⟩⟩ := bind_eq_ok_iff.mp h
    exact ⟨_, rfl⟩

theorem Continues.plain {args : List ByteString} (hv : IsPlain v) (hread : r.plain v = .ok r')
    (h : Continues r' args g') : Continues r (v :: args) g' := by
  by_cases hawaits : ∃ s, r.pending = .setting s none
  · obtain ⟨s, hs⟩ := hawaits
    rw [Reading.plain, hs] at hread
    obtain ⟨⟩ := hread
    obtain ⟨g, hready, hleads⟩ | ⟨s', v', rest, hpending, -⟩ := h
    · exact .inr ⟨s, v, args, hs, rfl, hv, g, hready, hleads⟩
    · cases hpending
  · have hfilter : r.filter v = .ok r' :=
      (plain_of_not_awaits (fun s hs => hawaits ⟨s, hs⟩) v).symm.trans hread
    obtain ⟨vs, hvs⟩ := pending_of_filter hfilter
    obtain ⟨g₁, hready, hleads⟩ | ⟨s', v', rest, hpending, -⟩ := h
    · obtain ⟨g, hg, hgive⟩ := ready_of_filter hfilter hready
      exact .inl ⟨g, hg, hleads.cons (.filter v hv) hgive⟩
    · cases hvs.symm.trans hpending

theorem Continues.setting {args : List ByteString} {s : Setting}
    (hread : r.setting s none = .ok r') (h : Continues r' args g') :
    Continues r (spellLong s.longName :: args) g' := by
  by_cases hs : s = .infrastructure
  · subst hs
    exact h.item .bareInfrastructure (fun _ => rfl) hread
  · obtain ⟨g, hready, rfl⟩ := (setting_separate_eq_ok_iff hs).mp hread
    obtain ⟨g₁, hready₁, -⟩ | ⟨s', v, rest, ⟨⟩, rfl, hv, g₁, hset, hleads⟩ := h
    · cases hready₁
    · exact .inl ⟨g, hready, hleads.cons (.separate s hs v hv) hset⟩

/-- What is read to its end is a line whose gifts can be given; if a setting waits for its value,
then after that value. -/
theorem continues_of_finish {args : List ByteString} (h : r.finish args = .ok g') :
    Continues r args g' := by
  induction args generalizing r with
  | nil => exact .inl ⟨g', settled_eq_ok_iff.mp h, ⟨[], none⟩, rfl, rfl⟩
  | cons bytes args ih =>
    have hspells := Argument.spells_ofBytes bytes
    rw [finish_cons] at h
    generalize Argument.ofBytes bytes = a at h hspells
    cases hspells with
    | terminator =>
      obtain ⟨r', hread, hsettled⟩ := bind_eq_ok_iff.mp h
      obtain ⟨g, hready, hgive⟩ := ready_of_filters hread (settled_eq_ok_iff.mp hsettled)
      exact .inl ⟨g, hready, ⟨[], some args⟩, rfl, hgive⟩
    | long name =>
      obtain ⟨r₁, hread, hrest⟩ := bind_eq_ok_iff.mp h
      obtain ⟨s, rfl, -, hswitch⟩ | ⟨s, rfl, hsetting⟩ := long_cases hread
      · exact (ih hrest).item (.switch s) (fun _ => rfl) hswitch
      · exact (ih hrest).setting hsetting
    | attached name v =>
      obtain ⟨r₁, hread, hrest⟩ := bind_eq_ok_iff.mp h
      obtain ⟨s, -, ⟨⟩, -⟩ | ⟨s, rfl, hsetting⟩ := long_cases hread
      exact (ih hrest).item (.attached s v) (fun _ => rfl)
        ((setting_attached s v).symm.trans hsetting)
    | cluster names hne =>
      obtain ⟨r₁, hread, hrest⟩ := bind_eq_ok_iff.mp h
      obtain ⟨rfl, hverbose⟩ := cluster_eq_ok hne hread
      exact (ih hrest).item .shortVerbose (fun _ => rfl) hverbose
    | plain v hv =>
      obtain ⟨r₁, hread, hrest⟩ := bind_eq_ok_iff.mp h
      exact (ih hrest).plain hv hread

end Reading

/-! ## Requests -/

namespace CommandLine

variable {args : List ByteString} {g g' : Given} {o : Options}

theorem given_eq_ok_iff : given args = .ok g ↔ Reading.Leads {} args g := by
  constructor
  · intro h
    exact Reading.leads_of_continues (Reading.continues_of_finish h)
  · exact Reading.finish_of_leads (Reading.ready_given.mpr rfl)

/-- Without variables the options are those that the arguments give. -/
theorem read_eq_run_iff_options (noColor forceColor : Option ByteString) :
    read { noColor := noColor, forceColor := forceColor } args = .ok (.run o) ↔
      ∃ g, given args = .ok g ∧ g.options = .ok o := by
  have hvariables : ∀ g : Given,
      g.addVariables { noColor := noColor, forceColor := forceColor } = .ok g := fun _ => rfl
  rw [read]
  cases hgiven : given args with
  | error stop => cases stop <;> simp
  | ok g =>
    have hread : (do return Request.run (← (← g.addVariables
        { noColor := noColor, forceColor := forceColor }).options)) = Except.ok (.run o) ↔
        g.options = .ok o := by
      rw [hvariables, bind_eq_ok_iff]
      constructor
      · rintro ⟨_, ⟨⟩, h⟩
        obtain ⟨o', ho, ⟨⟩⟩ := bind_eq_ok_iff.mp h
        exact ho
      · intro h
        exact ⟨g, rfl, bind_eq_ok_iff.mpr ⟨o, h, rfl⟩⟩
    exact hread.trans ⟨fun h => ⟨g, rfl, h⟩, fun ⟨_, hg, h⟩ => Except.ok.inj hg ▸ h⟩

namespace Line

variable {l : Line}

theorem mem_values_iff {s : Setting} {v : ByteString} :
    v ∈ l.values s ↔ Gift.value s v ∈ l.gifts := by
  rw [values, List.mem_filterMap]
  constructor
  · rintro ⟨gift, hmem, hv⟩
    cases gift with
    | value s' v' =>
      obtain ⟨rfl, ⟨⟩⟩ := Option.ite_none_right_eq_some.mp hv
      exact hmem
    | _ => cases hv
  · intro h
    exact ⟨_, h, if_pos rfl⟩

theorem Yields.takes (h : l.Yields o) (s : Setting) (v : ByteString)
    (hmem : Gift.value s v ∈ l.gifts) : s.Takes v := by
  have hv := mem_values_iff.mpr hmem
  cases s with
  | compilerPath =>
    rw [h.compilerPath, List.mem_singleton] at hv
    exact hv ▸ h.compilerPath_ne
  | testsPath =>
    rw [h.testsPath, Option.mem_toList] at hv
    rintro rfl
    exact h.testsPath_ne hv
  | infrastructure =>
    rw [h.infrastructure, Option.mem_toList] at hv
    rintro rfl
    exact h.infrastructure_ne hv
  | format =>
    rcases h.format with ⟨hnil, -⟩ | hone
    · rw [hnil] at hv
      cases hv
    · rw [hone, List.mem_singleton] at hv
      exact ⟨_, hv⟩
  | skip =>
    rw [h.excluded] at hv
    obtain ⟨t, -, ht⟩ := List.mem_map.mp hv
    exact ⟨t, ht.symm⟩

/-- What the command line has given when it amounts to the options. -/
def givenOf (l : Line) (o : Options) : Given where
  compilerPath := some o.compilerPath
  testsPath := o.testsPath
  infrastructure := o.infrastructure
  format := if l.values .format = [] then none else some o.format
  verbose := o.verbose
  listOnly := o.listOnly
  exact := o.exact
  logDebug := o.logDebug
  logTrace := o.logTrace
  excluded := o.excluded
  included := o.included

theorem Yields.extends (h : l.Yields o) : Given.Extends {} l.gifts (l.givenOf o) where
  values s := by
    change (l.givenOf o).values s = Given.values {} s ++ l.values s
    cases s with
    | compilerPath => exact h.compilerPath.symm
    | testsPath => exact h.testsPath.symm
    | infrastructure => exact h.infrastructure.symm
    | format =>
      rcases h.format with ⟨hnil, -⟩ | hone
      · simp [givenOf, Given.values, hnil]
      · simp [givenOf, Given.values, hone]
    | skip => exact h.excluded.symm
  switches s := by
    change ((l.givenOf o).isOn s).toNat = (Given.isOn {} s).toNat + l.count s
    rw [show (Given.isOn {} s).toNat = 0 by cases s <;> rfl, Nat.zero_add]
    cases s with
    | verbose => exact h.verbose.symm
    | listOnly => exact h.listOnly.symm
    | exact => exact h.exact.symm
    | logDebug => exact h.logDebug.symm
    | logTrace => exact h.logTrace.symm
  filters := h.included.symm
  takes := h.takes

theorem Yields.options (h : l.Yields o) : (l.givenOf o).options = .ok o := by
  have hformat : (l.givenOf o).format.getD .pretty = o.format := by
    rcases h.format with ⟨hnil, hpretty⟩ | hone
    · simp [givenOf, hnil, hpretty]
    · simp [givenOf, hone]
  rw [Given.options]
  simp only [hformat]
  rfl

theorem yields_of_extends {g : Given} (h : Given.Extends {} l.gifts g) (ho : g.options = .ok o) :
    l.Yields o := by
  have hvalues : ∀ s, l.values s = g.values s := fun s => by
    rw [h.values s]
    cases s <;> rfl
  have hcount : ∀ s, l.count s = (g.isOn s).toNat := fun s => by
    rw [h.switches s, show (Given.isOn {} s).toNat = 0 by cases s <;> rfl, Nat.zero_add]
    rfl
  have htakes : ∀ s, ∀ v ∈ g.values s, s.Takes v := fun s v hv =>
    h.takes s v (mem_values_iff.mp (hvalues s ▸ hv))
  obtain ⟨path, hpath⟩ : ∃ path, g.compilerPath = some path := by
    cases hpath : g.compilerPath with
    | none => simp [Given.options, hpath] at ho
    | some path => exact ⟨path, rfl⟩
  simp only [Given.options, hpath, Except.ok.injEq] at ho
  subst ho
  exact
    { compilerPath := by rw [hvalues, Given.values, hpath]; rfl
      compilerPath_ne := htakes .compilerPath path (by simp [Given.values, hpath])
      testsPath := hvalues .testsPath
      testsPath_ne := fun hnil => htakes .testsPath [] (Option.mem_toList.mpr hnil) rfl
      infrastructure := hvalues .infrastructure
      infrastructure_ne := fun hnil =>
        htakes .infrastructure [] (Option.mem_toList.mpr hnil) rfl
      format := by
        rw [hvalues, Given.values]
        cases g.format <;> simp
      verbose := hcount .verbose
      listOnly := hcount .listOnly
      exact := hcount .exact
      logDebug := hcount .logDebug
      logTrace := hcount .logTrace
      excluded := hvalues .skip
      included := h.filters.symm }

end Line

/-- A command line asks for a run with these options exactly when it is a line that yields them. -/
theorem read_eq_run_iff_exists_line (noColor forceColor : Option ByteString) (args : List ByteString)
    (o : Options) :
    read { noColor := noColor, forceColor := forceColor } args = .ok (.run o) ↔
      ∃ l : Line, l.spelled = args ∧ l.Yields o := by
  rw [read_eq_run_iff_options]
  constructor
  · rintro ⟨g, hg, ho⟩
    obtain ⟨l, hl, hgifts⟩ := given_eq_ok_iff.mp hg
    exact ⟨l, hl, Line.yields_of_extends (Given.foldlM_give_eq_ok_iff.mp hgifts) ho⟩
  · rintro ⟨l, hl, hyields⟩
    exact ⟨l.givenOf o, given_eq_ok_iff.mpr
      ⟨l, hl, Given.foldlM_give_eq_ok_iff.mpr hyields.extends⟩, hyields.options⟩

end CommandLine

end CompilerTrials
