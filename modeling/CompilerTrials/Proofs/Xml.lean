import CompilerTrials.Text

/-!
# XML documents

A reader of XML 1.0 documents without document types. It takes one character at a time; what has
been opened and not closed stands on a stack.

* `Xml.Node`: the elements of a document, with their attributes and what stands in them.
* `Xml.Reader.step`: what one character does to a reader.
* `Xml.read`: the root element of a document, or nothing when the text is not well-formed. Line ends
  are unified, references are resolved, and sections of character data are characters like others.
-/

namespace CompilerTrials.Xml

/-! ## Characters and numbers -/

def isSpace (c : Char) : Bool := c = ' ' ∨ c = '\t' ∨ c = '\n' ∨ c = '\r'

/-- The characters that a document can hold. -/
def isLegal (c : Char) : Bool :=
  c = '\t' ∨ c = '\n' ∨ c = '\r' ∨ 0x20 ≤ c.toNat ∧ c.toNat ≠ 0xFFFE ∧ c.toNat ≠ 0xFFFF

def between (low high : Nat) (c : Char) : Bool := low ≤ c.toNat && c.toNat ≤ high

/-- The ranges of the characters that begin a name. -/
def nameStarts : List (Nat × Nat) :=
  [(0x3A, 0x3A), (0x41, 0x5A), (0x5F, 0x5F), (0x61, 0x7A), (0xC0, 0xD6), (0xD8, 0xF6),
    (0xF8, 0x2FF), (0x370, 0x37D), (0x37F, 0x1FFF), (0x200C, 0x200D), (0x2070, 0x218F),
    (0x2C00, 0x2FEF), (0x3001, 0xD7FF), (0xF900, 0xFDCF), (0xFDF0, 0xFFFD), (0x10000, 0xEFFFF)]

/-- The ranges of the further characters of a name. -/
def nameParts : List (Nat × Nat) :=
  [(0x2D, 0x2E), (0x30, 0x39), (0xB7, 0xB7), (0x300, 0x36F), (0x203F, 0x2040)]

def isNameStart (c : Char) : Bool := nameStarts.any (fun range => between range.1 range.2 c)

def isNameChar (c : Char) : Bool :=
  isNameStart c || nameParts.any (fun range => between range.1 range.2 c)

/-- The value of a digit. -/
def digit? (base : Nat) (c : Char) : Option Nat :=
  if between 0x30 0x39 c then (some (c.toNat - 0x30)).filter (· < base)
  else if between 0x41 0x46 c then (some (c.toNat - 0x37)).filter (· < base)
  else if between 0x61 0x66 c then (some (c.toNat - 0x57)).filter (· < base)
  else none

/-- The number that the digits spell. -/
def numeral? (base : Nat) (digits : Text) : Option Nat :=
  if digits.isEmpty then none
  else digits.foldlM (fun n c => (digit? base c).map (n * base + ·)) 0

/-- The character with this value, if a document can hold it. -/
def character? (n : Nat) : Option Char :=
  if n.isValidChar then (some (Char.ofNat n)).filter isLegal else none

/-- What a reference stands for. -/
def referent? (name : Text) : Option Char :=
  if name = "lt".toList then some '<'
  else if name = "gt".toList then some '>'
  else if name = "amp".toList then some '&'
  else if name = "apos".toList then some '\''
  else if name = "quot".toList then some '"'
  else
    match name with
    | '#' :: 'x' :: digits => (numeral? 16 digits).bind character?
    | '#' :: digits => (numeral? 10 digits).bind character?
    | _ => none

/-! ## Documents -/

/-- A part of a document. Character data are one node for each character. -/
inductive Node where
  | element (name : Text) (attributes : List (Text × Text)) (content : List Node)
  | char (c : Char)

/-- An element whose end has not been read. -/
structure Frame where
  name : Text
  attributes : List (Text × Text) := []
  content : List Node := []

def Frame.node (f : Frame) : Node := .element f.name f.attributes f.content

/-- The value of an attribute, of which the end has not been read. -/
structure Value where
  tag : Frame
  key : Text
  quote : Char
  text : Text := []

/-- Where a reader stands between two characters. -/
inductive Mode where
  /-- At the start of the document. -/
  | start
  /-- In content, after so many closing brackets. -/
  | content (brackets : Nat)
  /-- After the character that opens markup. -/
  | opened (first : Bool)
  /-- In the name of a start tag. -/
  | name (n : Text)
  /-- In a start tag, between two attributes; a blank has to stand before the next. -/
  | tag (f : Frame) (spaced : Bool)
  /-- In the name of an attribute. -/
  | key (f : Frame) (k : Text)
  /-- Before the equals sign. -/
  | assign (f : Frame) (k : Text)
  /-- After the equals sign. -/
  | quote (f : Frame) (k : Text)
  | value (v : Value)
  /-- Before the end of an empty element. -/
  | empty (f : Frame)
  /-- In the name of an end tag. -/
  | endName (n : Text)
  /-- After the name of an end tag. -/
  | endTag (n : Text)
  /-- At the start of a comment or a section of character data. -/
  | bang (seen : Text)
  | comment (dashes : Nat)
  | cdata (brackets : Nat)
  /-- In the target of a processing instruction. -/
  | target (first : Bool) (t : Text)
  | instruction (question : Bool)
  /-- Before the end of a processing instruction that says nothing. -/
  | bareInstruction
  /-- Before the end of the declaration. -/
  | declaration (f : Frame)
  /-- In a reference, in a value or in content. -/
  | reference (back : Option Value) (seen : Text)

/-- What has been read: the elements that are open, the innermost first, and the root once it is
closed. -/
structure Reader where
  mode : Mode
  stack : List Frame := []
  root : Option Node := none

/-- The name under which the declaration is read. It is no name of an element. -/
def declarationName : Text := "?xml".toList

def isVersion (v : Text) : Bool :=
  match v with
  | '1' :: '.' :: digits => (numeral? 10 digits).isSome
  | _ => false

def isEncoding (v : Text) : Bool :=
  let isLetter (c : Char) := between 0x41 0x5A c || between 0x61 0x7A c
  match v with
  | [] => false
  | c :: rest =>
    isLetter c && rest.all (fun c => isLetter c || between 0x30 0x39 c || c ∈ ['.', '_', '-'])

/-- Whether these are the attributes of a declaration: a version, and then perhaps an encoding and
whether the document stands alone. -/
def isDeclaration (attributes : List (Text × Text)) : Bool :=
  let isAlone (v : Text) := v = "yes".toList ∨ v = "no".toList
  match attributes with
  | [(k, v)] => k = "version".toList ∧ isVersion v
  | [(k, v), (k', v')] =>
    k = "version".toList ∧ isVersion v ∧
      (k' = "encoding".toList ∧ isEncoding v' ∨ k' = "standalone".toList ∧ isAlone v')
  | [(k, v), (k', v'), (k'', v'')] =>
    k = "version".toList ∧ isVersion v ∧ k' = "encoding".toList ∧ isEncoding v' ∧
      k'' = "standalone".toList ∧ isAlone v''
  | _ => false

namespace Reader

/-- The element is complete. There is one root. -/
def finish (r : Reader) (f : Frame) : Option Reader :=
  match r.stack, r.root with
  | parent :: rest, root =>
    some ⟨.content 0, { parent with content := parent.content ++ [f.node] } :: rest, root⟩
  | [], none => some ⟨.content 0, [], some f.node⟩
  | [], some _ => none

/-- Characters of the innermost open element. -/
def addText (r : Reader) (t : Text) (mode : Mode) : Option Reader :=
  match r.stack with
  | [] => none
  | f :: rest => some ⟨mode, { f with content := f.content ++ t.map .char } :: rest, r.root⟩

def stepContent (r : Reader) (brackets : Nat) (c : Char) : Option Reader :=
  if c = '<' then some { r with mode := .opened false }
  else if r.stack.isEmpty then if isSpace c then some { r with mode := .content 0 } else none
  else if c = '&' then some { r with mode := .reference none [] }
  else if c = '>' ∧ 2 ≤ brackets then none
  else r.addText [c] (.content (if c = ']' then brackets + 1 else 0))

def stepOpened (r : Reader) (first : Bool) (c : Char) : Option Reader :=
  if c = '/' then some { r with mode := .endName [] }
  else if c = '!' then some { r with mode := .bang [] }
  else if c = '?' then some { r with mode := .target first [] }
  else if isNameStart c then some { r with mode := .name [c] }
  else none

def stepTag (r : Reader) (f : Frame) (spaced : Bool) (c : Char) : Option Reader :=
  if isSpace c then some { r with mode := .tag f true }
  else if isNameStart c then if spaced then some { r with mode := .key f [c] } else none
  else if f.name = declarationName then
    if c = '?' then some { r with mode := .declaration f } else none
  else if c = '>' then some ⟨.content 0, f :: r.stack, r.root⟩
  else if c = '/' then some { r with mode := .empty f }
  else none

def stepAssign (r : Reader) (f : Frame) (k : Text) (c : Char) : Option Reader :=
  if isSpace c then some { r with mode := .assign f k }
  else if c = '=' ∧ k ∉ f.attributes.map Prod.fst then some { r with mode := .quote f k }
  else none

def stepQuote (r : Reader) (f : Frame) (k : Text) (c : Char) : Option Reader :=
  if isSpace c then some { r with mode := .quote f k }
  else if c = '"' ∨ c = '\'' then some { r with mode := .value ⟨f, k, c, []⟩ }
  else none

/-- One character of a value. White space is read as a blank; a value of the declaration refers to
nothing. -/
def stepValue (r : Reader) (v : Value) (c : Char) : Option Reader :=
  if c = v.quote then
    some { r with
      mode := .tag { v.tag with attributes := v.tag.attributes ++ [(v.key, v.text)] } false }
  else if c = '<' then none
  else if c = '&' then
    if v.tag.name = declarationName then none
    else some { r with mode := .reference (some v) [] }
  else
    some { r with mode := .value { v with text := v.text ++ [if isSpace c then ' ' else c] } }

def stepEndTag (r : Reader) (n : Text) (c : Char) : Option Reader :=
  if isSpace c then some { r with mode := .endTag n }
  else if c = '>' then
    match r.stack with
    | [] => none
    | f :: rest => if f.name = n then finish { r with stack := rest } f else none
  else none

def stepBang (r : Reader) (seen : Text) : Option Reader :=
  if seen = "--".toList then some { r with mode := .comment 0 }
  else if seen = "[CDATA[".toList then
    if r.stack.isEmpty then none else some { r with mode := .cdata 0 }
  else if seen.isPrefixOf "--".toList ∨ seen.isPrefixOf "[CDATA[".toList then
    some { r with mode := .bang seen }
  else none

/-- One character of a comment, in which two dashes stand at the end only. -/
def stepComment (r : Reader) (dashes : Nat) (c : Char) : Option Reader :=
  if 2 ≤ dashes then if c = '>' then some { r with mode := .content 0 } else none
  else some { r with mode := .comment (if c = '-' then dashes + 1 else 0) }

/-- One character of a section of character data. The last brackets, which may belong to its end,
are held back. -/
def stepCdata (r : Reader) (brackets : Nat) (c : Char) : Option Reader :=
  if c = ']' then
    if brackets < 2 then some { r with mode := .cdata (brackets + 1) }
    else r.addText [']'] (.cdata brackets)
  else if c = '>' ∧ 2 ≤ brackets then some { r with mode := .content 0 }
  else r.addText (List.replicate brackets ']' ++ [c]) (.cdata 0)

/-- What follows the target of a processing instruction. The target of the declaration stands at the
start of the document. -/
def stepTarget (r : Reader) (first : Bool) (t : Text) (c : Char) : Option Reader :=
  if t.map Char.toLower = "xml".toList then
    if first ∧ t = "xml".toList ∧ isSpace c then
      some { r with mode := .tag { name := declarationName } true }
    else none
  else if isSpace c then some { r with mode := .instruction false }
  else if c = '?' then some { r with mode := .bareInstruction }
  else none

def stepReference (r : Reader) (back : Option Value) (seen : Text) : Option Reader :=
  match referent? seen, back with
  | none, _ => none
  | some d, some v => some { r with mode := .value { v with text := v.text ++ [d] } }
  | some d, none => r.addText [d] (.content 0)

/-- Reads one character. -/
def step (r : Reader) (c : Char) : Option Reader :=
  match r.mode with
  | .start => if c = '<' then some { r with mode := .opened true } else r.stepContent 0 c
  | .content brackets => r.stepContent brackets c
  | .opened first => r.stepOpened first c
  | .name n =>
    if isNameChar c then some { r with mode := .name (n ++ [c]) }
    else r.stepTag { name := n } false c
  | .tag f spaced => r.stepTag f spaced c
  | .key f k =>
    if isNameChar c then some { r with mode := .key f (k ++ [c]) } else r.stepAssign f k c
  | .assign f k => r.stepAssign f k c
  | .quote f k => r.stepQuote f k c
  | .value v => r.stepValue v c
  | .empty f => if c = '>' then r.finish f else none
  | .endName n =>
    if isNameChar c ∧ (n ≠ [] ∨ isNameStart c) then some { r with mode := .endName (n ++ [c]) }
    else r.stepEndTag n c
  | .endTag n => r.stepEndTag n c
  | .bang seen => r.stepBang (seen ++ [c])
  | .comment dashes => r.stepComment dashes c
  | .cdata brackets => r.stepCdata brackets c
  | .target first t =>
    if isNameChar c ∧ (t ≠ [] ∨ isNameStart c) then some { r with mode := .target first (t ++ [c]) }
    else if t = [] then none
    else r.stepTarget first t c
  | .instruction question =>
    if question ∧ c = '>' then some { r with mode := .content 0 }
    else some { r with mode := .instruction (c = '?') }
  | .bareInstruction => if c = '>' then some { r with mode := .content 0 } else none
  | .declaration f =>
    if c = '>' ∧ isDeclaration f.attributes then some { r with mode := .content 0 } else none
  | .reference back seen =>
    if c = ';' then r.stepReference back seen
    else some { r with mode := .reference back (seen ++ [c]) }

/-- The root, when nothing is open any more. -/
def result (r : Reader) : Option Node :=
  match r.mode, r.stack with
  | .content _, [] => r.root
  | _, _ => none

end Reader

/-- Every line end as a line feed. -/
def unifyLines : Text → Text
  | '\r' :: '\n' :: t => '\n' :: unifyLines t
  | '\r' :: t => '\n' :: unifyLines t
  | c :: t => c :: unifyLines t
  | [] => []

/-- The root element of a document. -/
def read (t : Text) : Option Node :=
  if t.all isLegal then ((unifyLines t).foldlM Reader.step ⟨.start, [], none⟩).bind Reader.result
  else none

end CompilerTrials.Xml
