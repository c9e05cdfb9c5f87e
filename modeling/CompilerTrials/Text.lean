/-!
# Texts

A text is a list of characters.

* `Text.lines`: the lines of a text. A line feed ends a line and takes a carriage return
  just before it along; a final line feed starts no further line.
* `Text.occursIn`: one text is a contiguous part of another.
* `Text.indent`: every line that is not blank is moved to the right, and the line feeds
  of the text stay where they are.
* `Text.ofNat`, `Text.padLeft`: decimal numbers.
-/

namespace CompilerTrials

abbrev Text := List Char

namespace Text

/-- The text without the last character if that one is a carriage return. -/
def dropReturn (t : Text) : Text :=
  if t.getLast? = some '\r' then t.dropLast else t

/-- The pieces between line feeds, read as lines. The last piece was ended by no line feed: it is
a line only when something stands in it, and it keeps its carriage return. -/
def linesOfPieces : List Text → List Text
  | [] => []
  | [last] => if last.isEmpty then [] else [last]
  | piece :: next :: rest => dropReturn piece :: linesOfPieces (next :: rest)

def lines (t : Text) : List Text := linesOfPieces (t.splitOn '\n')

/-- Whether `needle` is a contiguous part of the text. -/
def occursIn (needle : Text) : Text → Bool
  | [] => needle.isEmpty
  | c :: rest => needle.isPrefixOf (c :: rest) || occursIn needle rest

theorem occursIn_iff {needle t : Text} : occursIn needle t = true ↔ needle <:+: t := by
  induction t with
  | nil => simp [occursIn]
  | cons c rest ih => simp [occursIn, ih, List.infix_cons_iff]

/-- A line moved right by `width` columns. A blank line stays blank. -/
def indentLine (width : Nat) (line : Text) : Text :=
  if line.isEmpty then [] else List.replicate width ' ' ++ line

/-- The text with every line moved right by `width` columns. -/
def indent (width : Nat) (t : Text) : Text :=
  ['\n'].intercalate (t.lines.map (indentLine width)) ++
    if t.getLast? = some '\n' then ['\n'] else []

def ofNat (n : Nat) : Text := Nat.toDigits 10 n

/-- The decimal digits of a number, with a sign when it is negative. -/
def ofInt (n : Int) : Text := if n < 0 then '-' :: ofNat n.natAbs else ofNat n.natAbs

/-- The text with `fill` in front, so that it is at least `width` characters long. -/
def padLeft (width : Nat) (fill : Char) (t : Text) : Text :=
  List.replicate (width - t.length) fill ++ t

end Text

end CompilerTrials
