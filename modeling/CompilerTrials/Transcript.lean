import CompilerTrials.Event

/-!
# Transcripts

A transcript is what a part of a run said, which invocations it started, and how it came out. An
error ends it: nothing is said or started after one.

* `Transcript.say`, `Transcript.start`, `Transcript.fail`: the steps of a run.
* `Transcript.bind`: one part after the other.

Main statements: `Transcript.bind_of_ok` and `Transcript.bind_of_error` say what two parts one after
the other say and start.
-/

namespace CompilerTrials

/-- What a part of a run said, what it started, and how it came out. -/
structure Transcript (α : Type) where
  events : List Event
  started : List Invocation
  outcome : Except Error α

namespace Transcript

variable {α β : Type}

def done (a : α) : Transcript α := ⟨[], [], .ok a⟩

def fail (e : Error) : Transcript α := ⟨[], [], .error e⟩

def say (e : Event) : Transcript Unit := ⟨[e], [], .ok ()⟩

def start (i : Invocation) : Transcript Unit := ⟨[], [i], .ok ()⟩

/-- One part after the other; the second is left out when the first ends in an error. -/
def bind (x : Transcript α) (f : α → Transcript β) : Transcript β :=
  match x.outcome with
  | .ok a => ⟨x.events ++ (f a).events, x.started ++ (f a).started, (f a).outcome⟩
  | .error e => ⟨x.events, x.started, .error e⟩

instance : Monad Transcript where
  pure := done
  bind := bind

instance : LawfulMonad Transcript :=
  LawfulMonad.mk' Transcript
    (fun x => by
      obtain ⟨e, s, o⟩ := x
      cases o <;> simp [Functor.map, bind, done])
    (fun a f => by simp [Bind.bind, Pure.pure, bind, done])
    (fun x f g => by
      obtain ⟨e, s, o⟩ := x
      cases o with
      | error e => rfl
      | ok a =>
        simp only [Bind.bind, bind]
        cases (f a).outcome <;> simp)

@[simp] theorem pure_def (a : α) : (pure a : Transcript α) = done a := rfl

/-- After a part that came out well, the next part says and starts what it does by itself. -/
theorem bind_of_ok {x : Transcript α} {a : α} (h : x.outcome = .ok a) (f : α → Transcript β) :
    x >>= f = ⟨x.events ++ (f a).events, x.started ++ (f a).started, (f a).outcome⟩ := by
  simp only [Bind.bind, bind, h]

/-- After an error nothing more is said or started. -/
theorem bind_of_error {x : Transcript α} {e : Error} (h : x.outcome = .error e)
    (f : α → Transcript β) : x >>= f = ⟨x.events, x.started, .error e⟩ := by
  simp only [Bind.bind, bind, h]

@[simp] theorem fail_bind (e : Error) (f : α → Transcript β) : fail e >>= f = fail e := rfl

@[simp] theorem outcome_bind (x : Transcript α) (f : α → Transcript β) :
    (x >>= f).outcome = x.outcome >>= fun a => (f a).outcome := by
  obtain ⟨e, s, o⟩ := x
  cases o <;> rfl

end Transcript

end CompilerTrials
