import CompilerTrials.Fault

/-!
# Drafts

A draft is what a report writes, chunk by chunk, and what stops it after the last one.

* `Draft.write`: what reaches a device, and how the writing ends.
-/

namespace CompilerTrials

/-- What stops a report. -/
inductive Failure where
  | error (e : Error)
  | overflow (o : Overflow)
deriving DecidableEq, Repr

/-- What a report writes, and what stops it then. -/
structure Draft where
  chunks : List Text
  stop : Option Failure := none
deriving DecidableEq, Repr

/-- Where a report goes. -/
inductive Device where
  | working
  /-- It takes no byte. -/
  | full
deriving DecidableEq, Repr

namespace Draft

def text (d : Draft) : Text := d.chunks.flatten

def after (first : List Text) (d : Draft) : Draft := ⟨first ++ d.chunks, d.stop⟩

/-- What reaches a device, and how the writing ends. A full device refuses the first chunk that
holds anything. -/
def write (d : Draft) : Device → Text × Except Failure Unit
  | .working => (d.text, match d.stop with | some f => .error f | none => .ok ())
  | .full =>
    if d.chunks.any (fun c => !c.isEmpty) then ([], .error (.error (.io (.plain .noSpace))))
    else ([], match d.stop with | some f => .error f | none => .ok ())

end Draft

end CompilerTrials
