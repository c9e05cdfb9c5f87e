import CompilerTrials.Text

/-!
# Durations

A duration is a number of seconds below 2^64 and a number of nanoseconds below one second.

* `Duration.add?`, `Duration.total?`: sums, refused when they need 2^64 seconds or more.
* `Duration.toNanos_of_add?`, `Duration.add?_eq_none_iff`: a sum is exact, or refused.
* `Duration.render`: the duration in the largest unit that leaves a whole number before the point.
-/

namespace CompilerTrials

/-- A span of time. The bound on the seconds is 2^64. -/
structure Duration where
  secs : Nat
  nanos : Nat
  secs_lt : secs < 18446744073709551616
  nanos_lt : nanos < 1000000000
deriving DecidableEq, Repr

namespace Duration

def zero : Duration := ⟨0, 0, by decide, by decide⟩

/-- The duration with these parts, if they are in range. -/
def ofParts? (secs nanos : Nat) : Option Duration :=
  if h : secs < 18446744073709551616 ∧ nanos < 1000000000 then some ⟨secs, nanos, h.1, h.2⟩
  else none

def toNanos (d : Duration) : Nat := d.secs * 1000000000 + d.nanos

/-- The sum, with whole seconds carried over, if it is below 2^64 seconds. -/
def add? (a b : Duration) : Option Duration :=
  let nanos := a.nanos + b.nanos
  if nanos < 1000000000 then ofParts? (a.secs + b.secs) nanos
  else ofParts? (a.secs + b.secs + 1) (nanos - 1000000000)

theorem toNanos_inj {a b : Duration} (h : a.toNanos = b.toNanos) : a = b := by
  obtain ⟨s, n, hs, hn⟩ := a
  obtain ⟨s', n', hs', hn'⟩ := b
  simp only [toNanos] at h
  obtain rfl : s = s' := by omega
  obtain rfl : n = n' := by omega
  rfl

/-- A sum is the exact one. -/
theorem toNanos_of_add? {a b c : Duration} (h : a.add? b = some c) :
    c.toNanos = a.toNanos + b.toNanos := by
  simp only [add?, ofParts?] at h
  split at h <;> split at h <;> cases h <;> simp only [toNanos] <;> omega

/-- A sum is refused when the exact one needs 2^64 seconds. -/
theorem add?_eq_none_iff {a b : Duration} :
    a.add? b = none ↔ 18446744073709551616 * 1000000000 ≤ a.toNanos + b.toNanos := by
  have ha := a.nanos_lt
  have hb := b.nanos_lt
  simp only [add?, ofParts?, toNanos]
  split <;> split <;> simp <;> omega

/-- The sum of all durations, if it is below 2^64 seconds. -/
def total? (ds : List Duration) : Option Duration := ds.foldlM add? zero

/-- A whole number and a fraction of `places` decimal places, without the zeros at the end. -/
def fraction (whole part places : Nat) : Text :=
  let digits := ((Text.ofNat part).padLeft places '0').reverse.dropWhile (· = '0') |>.reverse
  Text.ofNat whole ++ if digits.isEmpty then [] else '.' :: digits

/-- The text of a duration, for instance `1.5s`, `20ms`, `3.25µs` or `0ns`. -/
def render (d : Duration) : Text :=
  if 0 < d.secs then fraction d.secs d.nanos 9 ++ ['s']
  else if 1000000 ≤ d.nanos then fraction (d.nanos / 1000000) (d.nanos % 1000000) 6 ++ "ms".toList
  else if 1000 ≤ d.nanos then fraction (d.nanos / 1000) (d.nanos % 1000) 3 ++ "µs".toList
  else fraction d.nanos 0 0 ++ "ns".toList

end Duration

end CompilerTrials
