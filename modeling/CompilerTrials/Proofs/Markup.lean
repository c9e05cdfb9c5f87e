import CompilerTrials.Proofs.Xml
import CompilerTrials.Report.JUnit

/-!
# What markup is read as

How an XML reader takes the pieces of which a document is put together. A piece of content adds its
nodes to whatever element is open, so pieces can be read one by one.

* `Xml.TagText`: a text is the start tag of an element, up to its end.
* `Xml.Content`: a text is read as these nodes wherever an element is open.
* `Xml.Content.element`, `Xml.Content.empty`, `Xml.Content.cdata`: elements with and without
  content, and sections of character data.
* `Xml.read_document`: a document is read as its root element.
-/

namespace CompilerTrials.Xml

variable {r r' r'' : Reader} {t u : Text} {c : Char} {f : Frame} {m : Mode} {st : List Frame}
variable {root : Option Node} {nodes : List Node}

/-! ## Characters -/

/-- A document can hold the text, and it is no line end that is read as another. -/
def Clean (t : Text) : Prop := ∀ c ∈ t, isLegal c = true ∧ c ≠ '\r'

instance (t : Text) : Decidable (Clean t) := List.decidableBAll _ t

theorem Clean.append (h : Clean t) (h' : Clean u) : Clean (t ++ u) := by
  intro c hc
  rcases List.mem_append.mp hc with hc | hc
  · exact h c hc
  · exact h' c hc

theorem unifyLines_of_clean (h : Clean t) : unifyLines t = t := by
  induction t with
  | nil => rfl
  | cons c t ih =>
    obtain ⟨⟨-, hc⟩, hrest⟩ := List.forall_mem_cons.mp h
    rw [unifyLines, ih hrest]
    · rintro u rfl -
      exact hc rfl
    · exact hc

/-- A name of an element or of an attribute. -/
def isName : Text → Bool
  | [] => false
  | c :: rest => isNameStart c && rest.all isNameChar

theorem isNameChar_of_isNameStart (h : isNameStart c = true) : isNameChar c = true := by
  rw [isNameChar, h, Bool.true_or]

theorem ne_of_isNameStart {d : Char} (h : isNameStart c = true) (hd : isNameStart d = false) :
    c ≠ d := by
  rintro rfl
  exact Bool.false_ne_true (hd.symm.trans h)

theorem isSpace_of_isNameChar (h : isNameChar c = true) : isSpace c = false := by
  refine Bool.eq_false_iff.mpr fun hspace => ?_
  rcases of_decide_eq_true hspace with rfl | rfl | rfl | rfl <;> revert h <;> decide

/-- A character that a document can hold and that is no control. -/
theorem clean_of_value (hlow : 0x20 ≤ c.toNat) (hhigh : c.toNat ≠ 0xFFFE ∧ c.toNat ≠ 0xFFFF) :
    isLegal c = true ∧ c ≠ '\r' := by
  refine ⟨decide_eq_true (.inr (.inr (.inr ⟨hlow, hhigh⟩))), ?_⟩
  rintro rfl
  revert hlow
  decide

/-- What the value of an attribute can be without being read as another. -/
def IsValue (t : Text) : Prop :=
  ∀ c ∈ t, 0x20 ≤ c.toNat ∧ c.toNat ≠ 0xFFFE ∧ c.toNat ≠ 0xFFFF

instance (t : Text) : Decidable (IsValue t) := List.decidableBAll _ t

theorem IsValue.clean (h : IsValue t) : Clean t := fun c hc => clean_of_value (h c hc).1 (h c hc).2

theorem clean_of_isName {n : Text} (h : isName n = true) : Clean n := by
  have hchar : ∀ c, isNameChar c = true → isLegal c = true ∧ c ≠ '\r' := by
    intro c hc
    have hvalue : 0x20 ≤ c.toNat ∧ c.toNat ≠ 0xFFFE ∧ c.toNat ≠ 0xFFFF := by
      simp only [isNameChar, isNameStart, nameStarts, nameParts, between, List.any_cons,
        List.any_nil, Bool.or_eq_true, Bool.and_eq_true, decide_eq_true_eq, Bool.or_false] at hc
      omega
    exact clean_of_value hvalue.1 hvalue.2
  cases n with
  | nil => cases h
  | cons c rest =>
    obtain ⟨hc, hrest⟩ := Bool.and_eq_true_iff.mp h
    exact List.forall_mem_cons.mpr ⟨hchar c (isNameChar_of_isNameStart hc),
      fun d hd => hchar d (List.all_eq_true.mp hrest d hd)⟩

/-! ## Reading -/

/-- The text leads a reader from the one state to the other. -/
def Reads (r : Reader) (t : Text) (r' : Reader) : Prop := t.foldlM Reader.step r = some r'

theorem Reads.append (h : Reads r t r') (h' : Reads r' u r'') : Reads r (t ++ u) r'' := by
  rw [Reads, List.foldlM_append, h]
  exact h'

theorem Reads.append_append {v : Text} (h : Reads r t r') (h' : Reads r' (u ++ v) r'') :
    Reads r (t ++ u ++ v) r'' := by
  rw [List.append_assoc]
  exact h.append h'

theorem Reads.cons (h : r.step c = some r') (h' : Reads r' t r'') : Reads r (c :: t) r'' := by
  rw [Reads, List.foldlM_cons, h]
  exact h'

theorem Reads.single (h : r.step c = some r') : Reads r [c] r' := Reads.cons h rfl

/-- A mode that takes the characters of a name and keeps them. -/
def Collects (mode : Text → Mode) : Prop :=
  ∀ st root n c, n ≠ [] → isNameChar c = true →
    Reader.step ⟨mode n, st, root⟩ c = some ⟨mode (n ++ [c]), st, root⟩

theorem collects_name : Collects .name := fun _ _ _ _ _ hc => if_pos hc

theorem collects_key (f : Frame) : Collects (.key f) := fun _ _ _ _ _ hc => if_pos hc

theorem collects_endName : Collects .endName := fun _ _ _ _ hn hc => if_pos ⟨hc, .inl hn⟩

theorem Collects.reads {mode : Text → Mode} (h : Collects mode) (st : List Frame)
    (root : Option Node) {n : Text} (hn : n ≠ []) (ht : t.all isNameChar = true) :
    Reads ⟨mode n, st, root⟩ t ⟨mode (n ++ t), st, root⟩ := by
  induction t generalizing n with
  | nil =>
    rw [List.append_nil]
    rfl
  | cons c t ih =>
    rw [List.all_cons, Bool.and_eq_true] at ht
    have hne : n ++ [c] ≠ [] := List.append_ne_nil_of_right_ne_nil n (List.cons_ne_nil c [])
    have hrest := ih hne ht.2
    rw [List.append_assoc, List.singleton_append] at hrest
    exact .cons (h st root n c hn ht.1) hrest

/-! ## Start tags -/

/-- In this mode a reader stands in the start tag, where the tag can end or an attribute follow. -/
def AtTag (m : Mode) (f : Frame) : Prop :=
  ∀ st root c, isNameChar c = false →
    Reader.step ⟨m, st, root⟩ c = Reader.stepTag ⟨m, st, root⟩ f false c

theorem atTag_name (n : Text) : AtTag (.name n) { name := n } := fun st root c hc =>
  if_neg (by rw [hc]; exact Bool.false_ne_true)

theorem atTag_tag (f : Frame) : AtTag (.tag f false) f := fun _ _ _ _ => rfl

theorem step_open (st : List Frame) (root : Option Node) (k : Nat) :
    Reader.step ⟨.content k, st, root⟩ '<' = some ⟨.opened false, st, root⟩ := rfl

theorem step_opened (st : List Frame) (root : Option Node) (hc : isNameStart c = true) :
    Reader.step ⟨.opened false, st, root⟩ c = some ⟨.name [c], st, root⟩ := by
  have hslash : c ≠ '/' := ne_of_isNameStart hc (by decide)
  have hbang : c ≠ '!' := ne_of_isNameStart hc (by decide)
  have hquestion : c ≠ '?' := ne_of_isNameStart hc (by decide)
  simp only [Reader.step, Reader.stepOpened, if_neg hslash, if_neg hbang, if_neg hquestion, hc,
    if_true]

/-- The text is a start tag without its end. -/
structure TagText (t : Text) (f : Frame) : Prop where
  isName : isName f.name = true
  clean : Clean t
  reads : ∀ st root, ∃ m, Reads ⟨.content 0, st, root⟩ t ⟨m, st, root⟩ ∧ AtTag m f

theorem TagText.name {n : Text} (hn : Xml.isName n = true) :
    TagText ('<' :: n) { name := n } := by
  refine ⟨hn, ?_, fun st root => ⟨.name n, ?_, atTag_name n⟩⟩
  · exact List.forall_mem_cons.mpr ⟨by decide, clean_of_isName hn⟩
  · cases n with
    | nil => cases hn
    | cons c rest =>
      obtain ⟨hc, hrest⟩ := Bool.and_eq_true_iff.mp hn
      exact .cons (step_open st root 0)
        (.cons (step_opened st root hc) (collects_name.reads st root (List.cons_ne_nil c []) hrest))

/-! ## Attributes -/

theorem reads_seen {name : Text} (h : ';' ∉ name) (back : Option Value) (seen : Text) :
    Reads ⟨.reference back seen, st, root⟩ name ⟨.reference back (seen ++ name), st, root⟩ := by
  induction name generalizing seen with
  | nil =>
    rw [List.append_nil]
    rfl
  | cons c name ih =>
    obtain ⟨hc, hrest⟩ := not_or.mp (mt List.mem_cons.mpr h)
    have hread := ih hrest (seen ++ [c])
    rw [List.append_assoc, List.singleton_append] at hread
    exact .cons (if_neg (Ne.symm hc)) hread

/-- A reference in a value stands for its character. -/
theorem reads_reference {v : Value} (hv : v.tag.name ≠ declarationName) (hquote : v.quote = '"')
    (name : Text) (hname : ';' ∉ name) (hc : referent? name = some c) :
    Reads ⟨.value v, st, root⟩ ('&' :: (name ++ [';']))
      ⟨.value { v with text := v.text ++ [c] }, st, root⟩ := by
  have hopen : Reader.step ⟨.value v, st, root⟩ '&' =
      some ⟨.reference (some v) [], st, root⟩ := by
    simp only [Reader.step, Reader.stepValue, hquote, if_neg hv]
    rfl
  have hclose : Reader.step ⟨.reference (some v) name, st, root⟩ ';' =
      some ⟨.value { v with text := v.text ++ [c] }, st, root⟩ := by
    simp only [Reader.step, Reader.stepReference, hc, if_true]
  exact .cons hopen ((reads_seen hname (some v) []).append (.single hclose))

/-- A character that stands for itself. -/
theorem step_value {v : Value} (hquote : c ≠ v.quote) (hopen : c ≠ '<') (href : c ≠ '&')
    (hc : 0x20 ≤ c.toNat) :
    Reader.step ⟨.value v, st, root⟩ c =
      some ⟨.value { v with text := v.text ++ [c] }, st, root⟩ := by
  have hspace : (if isSpace c then ' ' else c) = c := by
    split
    · next h =>
      rcases of_decide_eq_true h with rfl | rfl | rfl | rfl
      · rfl
      all_goals
        revert hc
        decide
    · rfl
  simp only [Reader.step, Reader.stepValue, if_neg hquote, if_neg hopen, if_neg href, hspace]

/-- What a character of a value is written as is read back. -/
theorem reads_escapeChar (hf : f.name ≠ declarationName) (k w : Text) (hc : 0x20 ≤ c.toNat) :
    Reads ⟨.value ⟨f, k, '"', w⟩, st, root⟩ (JUnit.escapeChar c)
      ⟨.value ⟨f, k, '"', w ++ [c]⟩, st, root⟩ := by
  unfold JUnit.escapeChar
  split
  · next h => exact reads_reference hf rfl "lt".toList (by decide) (by rw [h]; decide)
  split
  · next h => exact reads_reference hf rfl "gt".toList (by decide) (by rw [h]; decide)
  split
  · next h => exact reads_reference hf rfl "amp".toList (by decide) (by rw [h]; decide)
  split
  · next h => exact reads_reference hf rfl "apos".toList (by decide) (by rw [h]; decide)
  split
  · next h => exact reads_reference hf rfl "quot".toList (by decide) (by rw [h]; decide)
  · next hopen _ href _ hquote => exact .single (step_value hquote hopen href hc)

theorem reads_escape {v : Text} (hf : f.name ≠ declarationName) (st : List Frame)
    (root : Option Node) (k w : Text) (hv : ∀ c ∈ v, 0x20 ≤ c.toNat) :
    Reads ⟨.value ⟨f, k, '"', w⟩, st, root⟩ (JUnit.escape v)
      ⟨.value ⟨f, k, '"', w ++ v⟩, st, root⟩ := by
  induction v generalizing w with
  | nil =>
    rw [List.append_nil]
    rfl
  | cons c v ih =>
    obtain ⟨hc, hrest⟩ := List.forall_mem_cons.mp hv
    have hlater := ih (w ++ [c]) hrest
    rw [List.append_assoc] at hlater
    exact (reads_escapeChar hf k w hc).append hlater

theorem clean_escapeChar (hc : isLegal c = true ∧ c ≠ '\r') : Clean (JUnit.escapeChar c) := by
  unfold JUnit.escapeChar
  split
  · exact (by decide : Clean "&lt;".toList)
  split
  · exact (by decide : Clean "&gt;".toList)
  split
  · exact (by decide : Clean "&amp;".toList)
  split
  · exact (by decide : Clean "&apos;".toList)
  split
  · exact (by decide : Clean "&quot;".toList)
  · exact List.forall_mem_singleton.mpr hc

theorem clean_escape (h : Clean t) : Clean (JUnit.escape t) := by
  intro c hc
  obtain ⟨d, hd, hmem⟩ := List.mem_flatMap.mp hc
  exact clean_escapeChar (h d hd) c hmem

theorem TagText.ne_declarationName (h : TagText t f) : f.name ≠ declarationName := by
  intro hname
  have hdeclaration := h.isName
  rw [hname] at hdeclaration
  revert hdeclaration
  decide

/-- The name of an attribute in a tag, and the equals sign and the quote after it. -/
theorem reads_key {k : Text} (hm : AtTag m f) (hk : isName k = true)
    (hnew : k ∉ f.attributes.map Prod.fst) :
    Reads ⟨m, st, root⟩ (' ' :: k ++ ['=', '"']) ⟨.value ⟨f, k, '"', []⟩, st, root⟩ := by
  cases k with
  | nil => cases hk
  | cons c rest =>
    obtain ⟨hc, hrest⟩ := Bool.and_eq_true_iff.mp hk
    have hblank : Reader.step ⟨m, st, root⟩ ' ' = some ⟨.tag f true, st, root⟩ :=
      hm st root ' ' (by decide)
    have hkey : Reader.step ⟨.tag f true, st, root⟩ c = some ⟨.key f [c], st, root⟩ := by
      have hspace := isSpace_of_isNameChar (isNameChar_of_isNameStart hc)
      simp only [Reader.step, Reader.stepTag, hspace, hc, if_true, Bool.false_eq_true, if_false]
    have hassign : Reader.step ⟨.key f (c :: rest), st, root⟩ '=' =
        some ⟨.quote f (c :: rest), st, root⟩ := if_pos ⟨rfl, hnew⟩
    have hcollect := (collects_key f).reads st root (List.cons_ne_nil c []) hrest
    exact Reads.append (.cons hblank (.cons hkey hcollect)) (.cons hassign (.single rfl))

/-- The text is a list of attributes, which a tag can have if no name repeats. -/
structure AttributeText (t : Text) (attributes : List (Text × Text)) : Prop where
  clean : Clean t
  reads : ∀ f m st root, f.name ≠ declarationName → AtTag m f →
    ((f.attributes ++ attributes).map Prod.fst).Nodup →
      ∃ m', Reads ⟨m, st, root⟩ t ⟨m', st, root⟩ ∧
        AtTag m' { f with attributes := f.attributes ++ attributes }

theorem attributeText_attr (key : String) {v : Text} (hkey : isName key.toList = true)
    (hv : IsValue v) : AttributeText (JUnit.attr key v) [(key.toList, v)] := by
  have hclean : Clean (' ' :: key.toList) :=
    List.forall_mem_cons.mpr ⟨by decide, clean_of_isName hkey⟩
  have hassign : Clean ['=', '"'] := by decide
  have hend : Clean ['"'] := by decide
  refine ⟨((hclean.append hassign).append (clean_escape hv.clean)).append hend, ?_⟩
  intro f m st root hf hm hnodup
  have hnew : key.toList ∉ f.attributes.map Prod.fst := by
    rw [List.map_append, List.nodup_append] at hnodup
    exact fun hmem => hnodup.2.2 _ hmem _ (List.mem_singleton_self key.toList) rfl
  have hvalue := reads_escape hf st root key.toList [] fun c hc => (hv c hc).1
  have hquote : Reads ⟨.value ⟨f, key.toList, '"', v⟩, st, root⟩ ['"']
      ⟨.tag { f with attributes := f.attributes ++ [(key.toList, v)] } false, st, root⟩ :=
    .single rfl
  exact ⟨_, ((reads_key hm hkey hnew).append hvalue).append hquote, atTag_tag _⟩

theorem AttributeText.append {as bs : List (Text × Text)} (h : AttributeText t as)
    (h' : AttributeText u bs) : AttributeText (t ++ u) (as ++ bs) := by
  refine ⟨h.clean.append h'.clean, ?_⟩
  intro f m st root hf hm hnodup
  rw [← List.append_assoc] at hnodup
  have hfirst : ((f.attributes ++ as).map Prod.fst).Nodup := by
    rw [List.map_append] at hnodup
    exact (List.nodup_append.mp hnodup).1
  obtain ⟨m₁, hread, hm₁⟩ := h.reads f m st root hf hm hfirst
  obtain ⟨m₂, hread', hm₂⟩ :=
    h'.reads { f with attributes := f.attributes ++ as } m₁ st root hf hm₁ hnodup
  rw [List.append_assoc] at hm₂
  exact ⟨m₂, hread.append hread', hm₂⟩

theorem TagText.attributes {as : List (Text × Text)} (h : TagText t f) (has : AttributeText u as)
    (hnodup : ((f.attributes ++ as).map Prod.fst).Nodup) :
    TagText (t ++ u) { f with attributes := f.attributes ++ as } := by
  refine ⟨h.isName, h.clean.append has.clean, fun st root => ?_⟩
  obtain ⟨m, hread, hm⟩ := h.reads st root
  obtain ⟨m', hread', hm'⟩ := has.reads f m st root h.ne_declarationName hm hnodup
  exact ⟨m', hread.append hread', hm'⟩

/-! ## Content -/

/-- The text is read as these nodes wherever an element is open. -/
structure Content (t : Text) (nodes : List Node) : Prop where
  clean : Clean t
  reads : ∀ f st root, Reads ⟨.content 0, f :: st, root⟩ t
    ⟨.content 0, { f with content := f.content ++ nodes } :: st, root⟩

namespace Content

theorem nil : Content [] [] := by
  refine ⟨fun c hc => (nomatch hc), fun f st root => ?_⟩
  rw [List.append_nil]
  rfl

theorem append {ns ms : List Node} (h : Content t ns) (h' : Content u ms) :
    Content (t ++ u) (ns ++ ms) := by
  refine ⟨h.clean.append h'.clean, fun f st root => ?_⟩
  have hlater := h'.reads { f with content := f.content ++ ns } st root
  rw [List.append_assoc] at hlater
  exact (h.reads f st root).append hlater

/-- Pieces one after the other, each of which is one node. -/
theorem flatMap {α : Type} {as : List α} {text : α → Text} {node : α → Node}
    (h : ∀ a ∈ as, Content (text a) [node a]) : Content (as.flatMap text) (as.map node) := by
  induction as with
  | nil => exact nil
  | cons a as ih =>
    obtain ⟨ha, hrest⟩ := List.forall_mem_cons.mp h
    exact ha.append (ih hrest)

end Content

/-! ### Elements -/

theorem step_tagEnd (h : TagText t f) (hm : AtTag m f) :
    Reader.step ⟨m, st, root⟩ '>' = some ⟨.content 0, f :: st, root⟩ := by
  rw [hm st root '>' (by decide)]
  simp only [Reader.stepTag, if_neg h.ne_declarationName]
  rfl

/-- The text of an end tag. -/
def endTag (name : Text) : Text := '<' :: '/' :: name ++ ['>']

theorem clean_endTag {n : Text} (h : isName n = true) : Clean (endTag n) := by
  have hopen : Clean ['<', '/'] := by decide
  exact (hopen.append (clean_of_isName h)).append (by decide)

/-- An end tag completes the element that is open. -/
theorem reads_endTag (hf : isName f.name = true)
    (hfinish : Reader.finish ⟨.endName f.name, st, root⟩ f = some r') :
    Reads ⟨.content 0, f :: st, root⟩ (endTag f.name) r' := by
  have hend : Reader.step ⟨.endName f.name, f :: st, root⟩ '>' = some r' := by
    rw [← hfinish]
    exact if_pos rfl
  generalize f.name = n at hf hend
  cases n with
  | nil => cases hf
  | cons c rest =>
    obtain ⟨hc, hrest⟩ := Bool.and_eq_true_iff.mp hf
    have hfirst : Reader.step ⟨.endName [], f :: st, root⟩ c =
        some ⟨.endName [c], f :: st, root⟩ :=
      if_pos ⟨isNameChar_of_isNameStart hc, .inr hc⟩
    have hcollect := collects_endName.reads (f :: st) root (List.cons_ne_nil c []) hrest
    have hname := Reads.append (.cons hfirst hcollect) (.single hend)
    exact .cons (step_open _ root 0) (.cons rfl hname)

/-- An element is read where a reader can finish it. -/
theorem reads_element {tag : Text} (h : TagText tag f) (hf : f.content = [])
    (hbody : Content t nodes)
    (hfinish : Reader.finish ⟨.endName f.name, st, root⟩ { f with content := nodes } = some r') :
    Reads ⟨.content 0, st, root⟩ (tag ++ ['>'] ++ t ++ endTag f.name) r' := by
  obtain ⟨m, hread, hm⟩ := h.reads st root
  have hopen := hread.append (.single (step_tagEnd h hm))
  have hcontent := hbody.reads f st root
  rw [hf, List.nil_append] at hcontent
  have hclose := @reads_endTag r' { f with content := nodes } st root h.isName hfinish
  exact (hopen.append hcontent).append hclose

namespace Content

theorem element {tag : Text} (h : TagText tag f) (hf : f.content = []) (hbody : Content t nodes) :
    Content (tag ++ ['>'] ++ t ++ endTag f.name) [.element f.name f.attributes nodes] := by
  refine ⟨?_, fun parent st root => reads_element h hf hbody rfl⟩
  exact ((h.clean.append (by decide)).append hbody.clean).append (clean_endTag h.isName)

theorem element_append {tag : Text} (h : TagText tag f) (hf : f.content = [])
    (hbody : Content t nodes) :
    Content (tag ++ (['>'] ++ t ++ endTag f.name)) [.element f.name f.attributes nodes] := by
  rw [← List.append_assoc, ← List.append_assoc]
  exact element h hf hbody

theorem empty {tag : Text} (h : TagText tag f) : Content (tag ++ ['/', '>']) [f.node] := by
  refine ⟨h.clean.append (by decide), fun parent st root => ?_⟩
  obtain ⟨m, hread, hm⟩ := h.reads (parent :: st) root
  have hslash : Reader.step ⟨m, parent :: st, root⟩ '/' =
      some ⟨.empty f, parent :: st, root⟩ := by
    rw [hm _ root '/' (by decide)]
    simp only [Reader.stepTag, if_neg h.ne_declarationName]
    rfl
  exact hread.append (.cons hslash (.single rfl))

/-- A section of character data up to its end. The brackets that are held back belong to the text,
unless its end follows. -/
theorem reads_cdata {brackets : Nat} (hbrackets : brackets ≤ 2)
    (ht : ¬ [']', ']', '>'] <:+: List.replicate brackets ']' ++ t) (f : Frame) (st : List Frame)
    (root : Option Node) :
    Reads ⟨.cdata brackets, f :: st, root⟩ (t ++ [']', ']', '>'])
      ⟨.content 0, { f with
        content := f.content ++ (List.replicate brackets ']' ++ t).map .char } :: st, root⟩ := by
  induction t generalizing brackets f with
  | nil =>
    -- of the brackets before the end the last two are held back, whichever they are
    have hcases : brackets = 0 ∨ brackets = 1 ∨ brackets = 2 := by omega
    rcases hcases with rfl | rfl | rfl <;>
      simp [Reads, Reader.step, Reader.stepCdata, Reader.addText]
  | cons c t ih =>
    by_cases hc : c = ']'
    · subst hc
      have hmove : List.replicate brackets ']' ++ ']' :: t =
          List.replicate (brackets + 1) ']' ++ t := by
        rw [List.replicate_succ', List.append_assoc, List.singleton_append]
      rw [hmove] at ht ⊢
      by_cases hheld : brackets < 2
      · exact .cons (if_pos hheld) (ih hheld ht f)
      · -- a third bracket in a row shows that the first belongs to the text
        obtain rfl : brackets = 2 := by omega
        have hrest := ih (Nat.le_refl 2) (fun hmem => ht (hmem.trans ⟨[']'], [], by simp⟩))
          { f with content := f.content ++ [.char ']'] }
        rw [List.append_assoc] at hrest
        exact .cons rfl hrest
    · have hend : ¬ (c = '>' ∧ 2 ≤ brackets) := by
        rintro ⟨rfl, hheld⟩
        obtain rfl : brackets = 2 := by omega
        exact ht ⟨[], t, rfl⟩
      have hstep : Reader.step ⟨.cdata brackets, f :: st, root⟩ c = some ⟨.cdata 0,
          { f with content := f.content ++ (List.replicate brackets ']' ++ [c]).map .char } :: st,
            root⟩ := by
        simp only [Reader.step, Reader.stepCdata, if_neg hc, if_neg hend, Reader.addText]
      have hlater : List.replicate 0 ']' ++ t <:+: List.replicate brackets ']' ++ c :: t :=
        ⟨List.replicate brackets ']' ++ [c], [], by simp⟩
      have hrest := ih (Nat.zero_le 2) (fun hmem => ht (hmem.trans hlater))
        { f with content := f.content ++ (List.replicate brackets ']' ++ [c]).map .char }
      have hnodes : f.content ++ (List.replicate brackets ']' ++ [c]).map Node.char ++
          (List.replicate 0 ']' ++ t).map .char =
            f.content ++ (List.replicate brackets ']' ++ c :: t).map .char := by
        simp
      rw [hnodes] at hrest
      exact .cons hstep hrest

theorem cdata (hclean : Clean t) (ht : ¬ "]]>".toList <:+: t) :
    Content (JUnit.characterData t) (t.map .char) := by
  have hend : "]]>".toList = [']', ']', '>'] := by decide
  have hopens : Clean "<![CDATA[".toList := by decide
  rw [hend] at ht
  unfold JUnit.characterData
  rw [hend]
  refine ⟨(hopens.append hclean).append (by decide), fun f st root => ?_⟩
  have hopen : Reads ⟨.content 0, f :: st, root⟩ "<![CDATA[".toList
      ⟨.cdata 0, f :: st, root⟩ := rfl
  exact hopen.append_append (reads_cdata (Nat.zero_le 2) ht f st root)

end Content

/-! ## Documents -/

/-- The declaration with which a document starts. -/
def declaration : Text := "<?xml version=\"1.0\" encoding=\"utf-8\"?>".toList

theorem reads_declaration : Reads ⟨.start, [], none⟩ declaration ⟨.content 0, [], none⟩ := rfl

theorem clean_declaration : Clean declaration := by decide

/-- A document, and a line feed, is read as its root element. -/
theorem read_document {tag head : Text} (h : TagText tag f) (hf : f.content = [])
    (hbody : Content t nodes) (hhead : head = declaration ++ (tag ++ ['>'])) :
    read (head ++ t ++ endTag f.name ++ ['\n']) = some (.element f.name f.attributes nodes) := by
  have htext : head ++ t ++ endTag f.name ++ ['\n'] =
      declaration ++ (tag ++ ['>'] ++ t ++ endTag f.name) ++ ['\n'] := by
    rw [hhead]
    simp only [List.append_assoc]
  have hclean : Clean (declaration ++ (tag ++ ['>'] ++ t ++ endTag f.name) ++ ['\n']) :=
    (clean_declaration.append (Content.element h hf hbody).clean).append (by decide)
  have hreads : Reads ⟨.start, [], none⟩
      (declaration ++ (tag ++ ['>'] ++ t ++ endTag f.name) ++ ['\n'])
      ⟨.content 0, [], some (.element f.name f.attributes nodes)⟩ :=
    (reads_declaration.append (reads_element h hf hbody rfl)).append (.single rfl)
  rw [htext, read, if_pos (List.all_eq_true.mpr fun c hc => (hclean c hc).1),
    unifyLines_of_clean hclean, hreads]
  rfl

end CompilerTrials.Xml
