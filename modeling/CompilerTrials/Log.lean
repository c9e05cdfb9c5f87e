import CompilerTrials.Event
import CompilerTrials.Text.Style

/-!
# Log lines

* `Log.disarm`: a message whose terminal orders are spelled out.
* `Log.line`: the line of an event.
* `Log.render`: the lines of the events that a level shows.
-/

namespace CompilerTrials.Log

/-- A character of a message, spelled out if a terminal could take it as an order. Line feeds and
tabs stay. -/
def disarmChar (c : Char) : Text :=
  if c = '\x1b' then "\\x1b".toList
  else if c = '\x07' then "\\x07".toList
  else if c = '\x08' then "\\x08".toList
  else if c = '\x0c' then "\\x0c".toList
  else if c = '\x7f' then "\\x7f".toList
  else if 0x80 ≤ c.toNat ∧ c.toNat < 0xA0 then
    ['\\', 'u', '\x7b'] ++ Nat.toDigits 16 c.toNat ++ ['\x7d']
  else [c]

/-- A message whose terminal orders are spelled out. -/
def disarm (message : Text) : Text := message.flatMap disarmChar

def style : LogLevel → Style
  | .error => .red
  | .warn => .yellow
  | .info => .green
  | .debug => .blue
  | .trace => .magenta

def line (color : Bool) (e : Event) : Text :=
  (style e.level).paint color e.level.name ++ ' ' :: disarm e.message ++ ['\n']

/-- The lines of the events that are shown where `limit` is the most talkative level. -/
def render (color : Bool) (limit : LogLevel) (events : List Event) : Text :=
  (events.filter (fun e => limit.shownAt e.level)).flatMap (line color)

end CompilerTrials.Log
