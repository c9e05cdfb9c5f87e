import CompilerTrials.Proofs.Markup
import CompilerTrials.Proofs.Escapes
import CompilerTrials.Proofs.Lines

/-!
# Documents of results

A document as the tree of elements that an XML reader makes of it.

* `Xml.numeral?_ofNat`: a number is read back from its digits.
* `suiteNode`, `caseNode`, `outcomeNodes`: the elements of a document, with all their attributes.
* `IsOutput`: an output that a section of character data can hold.
* `read_render`: the text of a document is read as these elements, if a document can hold its names
  and outputs.
-/

namespace CompilerTrials

/-! ## Numbers as text -/

namespace Xml

theorem digit?_digitChar {d : Nat} (h : d < 10) : digit? 10 d.digitChar = some d := by
  have hall : ∀ d < 10, digit? 10 (Nat.digitChar d) = some d := by decide
  exact hall d h

/-- A number is read back from its digits. -/
theorem numeral?_ofNat (n : Nat) : numeral? 10 (Text.ofNat n) = some n := by
  have hne : (Text.ofNat n).isEmpty = false := by
    rw [Text.ofNat, Nat.toDigits_eq_if (by decide)]
    split <;> simp
  rw [numeral?, hne, if_neg Bool.false_ne_true, Text.ofNat]
  clear hne
  induction n using Nat.strongRecOn with
  | ind n ih =>
    rw [Nat.toDigits_eq_if (by decide)]
    split
    · next h => simp [digit?_digitChar h]
    · next h =>
      have hlast : n % 10 < 10 := Nat.mod_lt n (by decide)
      have hvalue : n / 10 * 10 + n % 10 = n := by omega
      rw [List.foldlM_append, ih (n / 10) (by omega)]
      simp [digit?_digitChar hlast, hvalue]

end Xml

namespace JUnit

open Xml (IsValue Clean Content TagText AttributeText)

theorem isValue_of_mem_digits {t : Text} (h : ∀ c ∈ t, c ∈ Text.digits ∨ c = '.') : IsValue t := by
  have hdigits : IsValue ('.' :: Text.digits) := by decide
  intro c hc
  refine hdigits c (List.mem_cons.mpr ?_)
  rcases h c hc with hd | hd
  · exact .inr hd
  · exact .inl hd

theorem mem_digits_of_mem_ofNat {n : Nat} {c : Char} (h : c ∈ Text.ofNat n) : c ∈ Text.digits :=
  Text.mem_digits_of_mem_toDigits (by decide) h

theorem isValue_ofNat (n : Nat) : IsValue (Text.ofNat n) :=
  isValue_of_mem_digits fun _ hc => .inl (mem_digits_of_mem_ofNat hc)

theorem mem_digits_of_mem_padLeft {width n : Nat} {c : Char}
    (h : c ∈ (Text.ofNat n).padLeft width '0') : c ∈ Text.digits := by
  rcases List.mem_append.mp h with hc | hc
  · rw [(List.mem_replicate.mp hc).2]
    decide
  · exact mem_digits_of_mem_ofNat hc

theorem mem_digits_of_mem_decimal {d : Shortest.Decimal} {c : Char} (h : c ∈ d.render) :
    c ∈ Text.digits ∨ c = '.' := by
  simp only [Shortest.Decimal.render] at h
  split at h
  · rcases List.mem_append.mp h with hc | hc
    · exact .inl (mem_digits_of_mem_ofNat hc)
    · rw [(List.mem_replicate.mp hc).2]
      exact .inl (by decide)
  · rcases List.mem_append.mp h with hc | hc
    · exact .inl (mem_digits_of_mem_padLeft (List.mem_of_mem_take hc))
    · exact (List.mem_cons.mp hc).symm.imp_left fun hc =>
        mem_digits_of_mem_padLeft (List.mem_of_mem_drop hc)

/-- The time of a document is written in digits and a point. -/
theorem isValue_seconds (d : Duration) : IsValue (seconds d) := by
  refine isValue_of_mem_digits fun c hc => ?_
  unfold seconds Shortest.render at hc
  split at hc
  · rw [List.mem_singleton.mp hc]
    exact .inl (by decide)
  · exact mem_digits_of_mem_decimal hc

/-! ## Documents as nodes -/

def outcomeNodes : Outcome → List Xml.Node
  | .skipped => [.element "skipped".toList [] []]
  | .passed output => [.element "system-out".toList [] (output.map .char)]
  | .failed output =>
    [.element "failure".toList
      [("type".toList, "exit status mismatch".toList), ("message".toList, "failed".toList)]
      (output.map .char)]

def caseNode (c : TestCase) : Xml.Node :=
  .element "testcase".toList [("name".toList, c.name), ("time".toList, seconds c.time)]
    (outcomeNodes c.outcome)

/-- The attributes of the `index`-th suite. -/
def suiteAttributes (timestamp : Text) (index : Nat) (s : TestSuite) : List (Text × Text) :=
  [("id".toList, Text.ofNat index), ("name".toList, s.name),
    ("package".toList, "testsuite/".toList ++ s.name),
    ("tests".toList, Text.ofNat s.cases.length), ("errors".toList, ['0']),
    ("failures".toList, Text.ofNat (s.cases.countP TestCase.isFailed)),
    ("hostname".toList, "localhost".toList), ("timestamp".toList, timestamp),
    ("time".toList, seconds s.time)]

def suiteNode (timestamp : Text) (index : Nat) (s : TestSuite) : Xml.Node :=
  .element "testsuite".toList (suiteAttributes timestamp index s) (s.cases.map caseNode)

def suiteNodes (timestamp : Text) (index : Nat) : Document → List Xml.Node
  | [] => []
  | s :: rest => suiteNode timestamp index s :: suiteNodes timestamp (index + 1) rest

/-- A document can hold the output as it is: it does not end the section that it stands in. -/
structure IsOutput (t : Text) : Prop where
  clean : Clean t
  whole : ¬ "]]>".toList <:+: t

def Outcome.IsWritable : Outcome → Prop
  | .skipped => True
  | .passed output | .failed output => IsOutput output

structure TestCase.IsWritable (c : TestCase) : Prop where
  name : IsValue c.name
  outcome : c.outcome.IsWritable

theorem tagText (n : String) (hn : Xml.isName n.toList = true) :
    TagText ('<' :: n.toList) { name := n.toList } :=
  .name hn

theorem content_outcome {o : Outcome} (h : o.IsWritable) : Content o.render (outcomeNodes o) := by
  cases o with
  | skipped => exact Content.empty (tagText "skipped" (by decide))
  | passed output =>
    exact Content.element (tagText "system-out" (by decide)) rfl (.cdata h.clean h.whole)
  | failed output =>
    have htype : AttributeText (attr "type" "exit status mismatch".toList) _ :=
      Xml.attributeText_attr "type" (by decide) (by decide)
    have hmessage : AttributeText (attr "message" "failed".toList) _ :=
      Xml.attributeText_attr "message" (by decide) (by decide)
    have htag := ((tagText "failure" (by decide)).attributes htype (by decide)).attributes hmessage
      (by decide)
    exact Content.element htag rfl (.cdata h.clean h.whole)

theorem content_case {c : TestCase} (h : c.IsWritable) : Content c.render [caseNode c] := by
  have hname := Xml.attributeText_attr "name" (by decide) h.name
  have htime := Xml.attributeText_attr "time" (by decide) (isValue_seconds c.time)
  have htag := ((tagText "testcase" (by decide)).attributes hname (by simp)).attributes htime
    (by simp)
  exact Content.element htag rfl (content_outcome h.outcome)

structure TestSuite.IsWritable (s : TestSuite) : Prop where
  name : IsValue s.name
  cases : ∀ c ∈ s.cases, c.IsWritable

theorem attributeText_suite {timestamp : Text} {s : TestSuite} (hstamp : IsValue timestamp)
    (hname : IsValue s.name) (index : Nat) :
    AttributeText (s.attributes timestamp index) (suiteAttributes timestamp index s) := by
  have hpackage : IsValue ("testsuite/".toList ++ s.name) := by
    intro c hc
    rcases List.mem_append.mp hc with hc | hc
    · exact (by decide : IsValue "testsuite/".toList) c hc
    · exact hname c hc
  have hhost : IsValue "localhost".toList := by decide
  have hzero : IsValue ['0'] := by decide
  exact ((((((((Xml.attributeText_attr "id" (by decide) (isValue_ofNat _)).append
    (Xml.attributeText_attr "name" (by decide) hname)).append
    (Xml.attributeText_attr "package" (by decide) hpackage)).append
    (Xml.attributeText_attr "tests" (by decide) (isValue_ofNat _))).append
    (Xml.attributeText_attr "errors" (by decide) hzero)).append
    (Xml.attributeText_attr "failures" (by decide) (isValue_ofNat _))).append
    (Xml.attributeText_attr "hostname" (by decide) hhost)).append
    (Xml.attributeText_attr "timestamp" (by decide) hstamp)).append
    (Xml.attributeText_attr "time" (by decide) (isValue_seconds _))

theorem content_suite {timestamp : Text} {s : TestSuite} (hstamp : IsValue timestamp)
    (h : s.IsWritable) (index : Nat) :
    Content (s.render timestamp index) [suiteNode timestamp index s] := by
  have hkeys : ((([] : List (Text × Text)) ++ suiteAttributes timestamp index s).map
      Prod.fst).Nodup :=
    (by decide : ["id".toList, "name".toList, "package".toList, "tests".toList, "errors".toList,
      "failures".toList, "hostname".toList, "timestamp".toList, "time".toList].Nodup)
  have htag := (tagText "testsuite" (by decide)).attributes
    (attributeText_suite hstamp h.name index) hkeys
  unfold TestSuite.render
  split
  · next hempty =>
    have hnone : s.cases.map caseNode = [] := List.map_eq_nil_iff.mpr (List.isEmpty_iff.mp hempty)
    unfold suiteNode
    rw [hnone]
    exact Content.empty htag
  · have hcases := Content.flatMap fun c hc => content_case (h.cases c hc)
    exact Content.element_append htag rfl hcases

theorem content_suites {timestamp : Text} (hstamp : IsValue timestamp) {d : Document}
    (h : ∀ s ∈ d, s.IsWritable) (index : Nat) :
    Content (renderSuites timestamp index d) (suiteNodes timestamp index d) := by
  induction d generalizing index with
  | nil => exact .nil
  | cons s d ih =>
    obtain ⟨hs, hrest⟩ := List.forall_mem_cons.mp h
    exact (content_suite hstamp hs index).append (ih hrest (index + 1))

/-- A document is read as what it says. -/
theorem read_render {timestamp : Text} (hstamp : IsValue timestamp) {d : Document}
    (h : ∀ s ∈ d, s.IsWritable) :
    Xml.read (render timestamp d ++ ['\n']) =
      some (.element "testsuites".toList [] (suiteNodes timestamp 0 d)) := by
  exact Xml.read_document (tagText "testsuites" (by decide)) rfl (content_suites hstamp h 0)
    (by decide)

end JUnit

end CompilerTrials
