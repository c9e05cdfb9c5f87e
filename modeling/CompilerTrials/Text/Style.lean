import CompilerTrials.Text

/-!
# Styles

A styled text stands between the sequence that switches the style on and the sequence that resets
all styles.

* `Style.paint`: a text in a style, or the text alone where colour is off. A reset inside the text
  would end the style early, so the style is switched on again after it (`Style.reopen`).
* `Style.enclose`: a text in several styles, which a reset inside the text ends.
-/

namespace CompilerTrials

/-- The styles of reports, log lines, help and usage errors. -/
inductive Style where
  | red
  | green
  | yellow
  | blue
  | magenta
  | cyan
  | brightRed
  | brightGreen
  | brightYellow
  | bold
  | italic
  | underline
deriving DecidableEq, Repr

namespace Style

def parameter : Style → Nat
  | red => 31
  | green => 32
  | yellow => 33
  | blue => 34
  | magenta => 35
  | cyan => 36
  | brightRed => 91
  | brightGreen => 92
  | brightYellow => 93
  | bold => 1
  | italic => 3
  | underline => 4

def opening (s : Style) : Text := ['\x1b', '['] ++ Text.ofNat s.parameter ++ ['m']

def reset : Text := ['\x1b', '[', '0', 'm']

/-- The text with the style switched on again after every reset. -/
def reopen (s : Style) : Text → Text
  | [] => []
  | '\x1b' :: '[' :: '0' :: 'm' :: rest => reset ++ s.opening ++ reopen s rest
  | c :: rest => c :: reopen s rest

/-- The text in the style, where `color` is on. -/
def paint (color : Bool) (s : Style) (t : Text) : Text :=
  if color then s.opening ++ s.reopen t ++ reset else t

def enclose (styles : List Style) (t : Text) : Text := styles.flatMap opening ++ t ++ reset

end Style

end CompilerTrials
