import CompilerTrials.Proofs.Utf8
import CompilerTrials.Report.Details

/-!
# Details for a writer that takes only so much

Details are written chunk by chunk, and the first chunk that is not taken whole ends the writing.
What the writer has by then is the beginning of the details up to the byte, wherever the chunks end.

* `Writing.into_forM_put`: writes made one after the other deliver their texts.
* `Details.write_eq_forM`: the program that writes details makes one write for each chunk of them.
* `Details.deliver_eq`: what is taken, and how the writing ends, by the bytes of all chunks together.
* `Details.flatten_ofResult_eq_nil_iff`: only a trial that was left out has no details.
* `Details.deliver_ofResult`: what a writer gets of the details of a result.

A writer takes as many bytes as it has room for, and after that it takes none and reports no fault
of its own.
-/

namespace CompilerTrials

namespace Writing

/-! ## Writes one after the other -/

variable {x : Writing Unit} {f : Unit → Writing Unit} {t : Text} {w w' : Writer} {e : IoFault}

theorem run_bind_of_ok (h : x.run.run w = (.ok (), w')) :
    (x >>= f).run.run w = (f ()).run.run w' := by
  show (ExceptT.bindCont f (x.run.run w).1).run (x.run.run w).2 = _
  rw [h]
  rfl

/-- After a fault nothing more is written. -/
theorem run_bind_of_error (h : x.run.run w = (.error e, w')) :
    (x >>= f).run.run w = (.error e, w') := by
  show (ExceptT.bindCont f (x.run.run w).1).run (x.run.run w).2 = _
  rw [h]
  rfl

theorem run_put_of_le (h : (Utf8.encode t).length ≤ w.room) : (put t).run.run w =
    (.ok (), ⟨w.room - (Utf8.encode t).length, w.taken ++ Utf8.encode t⟩) := by
  show (if w.room < (Utf8.encode t).length then throw _ else pure () : Writing Unit).run.run _ = _
  rw [if_neg (Nat.not_lt_of_le h), List.take_of_length_le h]
  rfl

theorem run_put_of_lt (h : w.room < (Utf8.encode t).length) : (put t).run.run w =
    (.error (.plain .nothingWritten),
      ⟨w.room - (Utf8.encode t).length, w.taken ++ (Utf8.encode t).take w.room⟩) := by
  show (if w.room < (Utf8.encode t).length then throw _ else pure () : Writing Unit).run.run _ = _
  rw [if_pos h]
  rfl

theorem run_forM_put (chunks : List Text) (w : Writer) :
    ∃ room', (chunks.forM put).run.run w =
      ((Details.deliver w.room (chunks.map Utf8.encode)).2,
        ⟨room', w.taken ++ (Details.deliver w.room (chunks.map Utf8.encode)).1⟩) := by
  induction chunks generalizing w with
  | nil =>
    refine ⟨w.room, ?_⟩
    rw [List.map_nil, Details.deliver, List.append_nil]
    rfl
  | cons t rest ih =>
    rw [List.map_cons, Details.deliver, List.forM_eq_forM, List.forM_cons]
    by_cases hfits : (Utf8.encode t).length ≤ w.room
    · obtain ⟨room', hrest⟩ := ih ⟨w.room - (Utf8.encode t).length, w.taken ++ Utf8.encode t⟩
      rw [if_pos hfits, run_bind_of_ok (run_put_of_le hfits), ← List.append_assoc]
      exact ⟨room', hrest⟩
    · rw [if_neg hfits, run_bind_of_error (run_put_of_lt (Nat.lt_of_not_le hfits))]
      exact ⟨_, rfl⟩

/-- Writes made one after the other deliver their texts. -/
theorem into_forM_put (room : Nat) (chunks : List Text) :
    (chunks.forM put).into room = Details.deliver room (chunks.map Utf8.encode) := by
  obtain ⟨room', hrun⟩ := run_forM_put chunks { room }
  rw [into, hrun]
  rfl

end Writing

namespace Details

open Writing (put)

variable {room : Nat} {color verbose : Bool} {r : TrialResult}

/-! ## The writes of details -/

theorem writeCaptured_eq_forM (color : Bool) (label contents : Text) :
    writeCaptured color label contents = (captured color label contents).forM put := by
  unfold writeCaptured captured
  split
  · rfl
  · simp only [List.forM_eq_forM, List.forM_cons, List.forM_nil, bind_pure_unit]

/-- The program that writes details makes one write for each chunk of them. -/
theorem write_eq_forM (color verbose : Bool) (r : TrialResult) :
    write color verbose r = (ofResult color verbose r).forM put := by
  unfold write ofResult TrialResult.isSkipped TrialResult.isPassed
  obtain ⟨c, i, run, verdict⟩ := r
  rcases verdict with _ | _ | _
  · rfl
  · cases verbose <;> cases i <;> simp [ofPassed]
  · cases run <;> cases i <;> simp [ofFailed, writeCaptured_eq_forM]

/-! ## What is taken -/

/-- Where the chunks end makes no difference to a writer. -/
theorem deliver_eq (room : Nat) (chunks : List ByteString) :
    deliver room chunks =
      (chunks.flatten.take room,
        if chunks.flatten.length ≤ room then .ok () else .error (.plain .nothingWritten)) := by
  induction chunks generalizing room with
  | nil => rw [deliver, List.flatten_nil, List.take_nil, List.length_nil, if_pos (Nat.zero_le _)]
  | cons chunk rest ih =>
    rw [deliver, List.flatten_cons, List.length_append]
    by_cases hfits : chunk.length ≤ room
    · have htake : (chunk ++ rest.flatten).take room =
          chunk ++ rest.flatten.take (room - chunk.length) := by
        rw [List.take_append, List.take_of_length_le hfits]
      have hrest : rest.flatten.length ≤ room - chunk.length ↔
          chunk.length + rest.flatten.length ≤ room := by omega
      rw [if_pos hfits, ih, htake]
      simp only [hrest]
    · -- this chunk is cut, and the rest is not looked at
      have hwhole : ¬ chunk.length + rest.flatten.length ≤ room := by omega
      rw [if_neg hfits, if_neg hwhole, List.take_append_of_le_length (by omega)]

theorem flatten_map_encode (chunks : List Text) :
    (chunks.map Utf8.encode).flatten = Utf8.encode chunks.flatten := by
  induction chunks with
  | nil => rfl
  | cons chunk rest ih =>
    rw [List.map_cons, List.flatten_cons, ih, List.flatten_cons]
    exact List.flatMap_append.symm

/-- Only a trial that was left out has no details. -/
theorem flatten_ofResult_eq_nil_iff :
    (ofResult color verbose r).flatten = [] ↔ r.isSkipped = true := by
  have hheader (rest : List Text) : (header color r.trial :: rest).flatten ≠ [] := by
    rw [List.flatten_cons, header, List.append_assoc, List.append_assoc, List.append_assoc,
      List.append_assoc]
    exact List.append_ne_nil_of_left_ne_nil (by decide) _
  unfold ofResult TrialResult.isSkipped
  cases r.verdict with
  | none => exact iff_of_true rfl rfl
  | some v =>
    cases v with
    | pass => exact iff_of_false (hheader _) Bool.false_ne_true
    | fail => exact iff_of_false (hheader _) Bool.false_ne_true

/-- A program that writes details into a writer with room for some bytes hands it as many of the
first bytes of the details, and fails exactly when the details are longer. Of a trial that was left out nothing is written,
and of every other something is. All this does not depend on how the details are cut into writes. -/
theorem deliver_ofResult (color verbose : Bool) (r : TrialResult) (room : Nat) :
    let full := Utf8.encode (ofResult color verbose r).flatten
    let delivery := deliver room ((ofResult color verbose r).map Utf8.encode)
    (write color verbose r).into room = delivery ∧
    delivery.1 = full.take (min room full.length) ∧
    ((∃ f : IoFault, delivery.2.mapError Error.io = .error (.io f) ∧ f.kind = .writeZero) ↔
      room < full.length) ∧
    (delivery.2.mapError Error.io = .ok () ↔ full.length ≤ room) ∧
    (full = [] ↔ r.isSkipped = true) ∧
    (r.isSkipped = true → delivery = ([], .ok ())) ∧
    ∀ writes : List ByteString, writes.flatten = full → deliver room writes = delivery := by
  intro full delivery
  have hdelivery : delivery = (full.take room,
      if full.length ≤ room then .ok () else .error (.plain .nothingWritten)) := by
    have hfull : ((ofResult color verbose r).map Utf8.encode).flatten = full :=
      flatten_map_encode _
    rw [← hfull]
    exact deliver_eq _ _
  have hempty : full = [] ↔ r.isSkipped = true := by
    rw [← flatten_ofResult_eq_nil_iff, ← Utf8.encode_injective.eq_iff, Utf8.encode_nil]
  refine ⟨?_, ?_, ?_, ?_, hempty, ?_, ?_⟩
  · rw [write_eq_forM]
    exact Writing.into_forM_put room _
  · rw [hdelivery, List.take_eq_take_min]
  · rw [hdelivery]
    by_cases hfits : full.length ≤ room
    · rw [if_pos hfits]
      exact iff_of_false (by rintro ⟨f, ⟨⟩, -⟩) (Nat.not_lt_of_le hfits)
    · rw [if_neg hfits]
      exact iff_of_true ⟨_, rfl, rfl⟩ (Nat.lt_of_not_le hfits)
  · rw [hdelivery]
    by_cases hfits : full.length ≤ room
    · rw [if_pos hfits]
      exact iff_of_true rfl hfits
    · rw [if_neg hfits]
      exact iff_of_false nofun hfits
  · intro hskipped
    rw [hdelivery, hempty.mpr hskipped, List.take_nil, List.length_nil, if_pos (Nat.zero_le _)]
  · intro writes hwrites
    rw [deliver_eq, hwrites, hdelivery]

namespace Sample

/-- A trial that passed, and whose name is one character of two bytes. -/
def accented : TrialResult where
  trial := ⟨['é'], .error, [0x74], .module⟩
  verdict := some .pass

def leftOut : TrialResult := .skipped accented.trial

end Sample

/-- The details are cut inside a character, and no matter where the writes begin and end. -/
theorem deliver_ofResult_cut :
    (deliver 22 ((ofResult false false Sample.accented).map Utf8.encode)).1 =
        Utf8.encode "* Test case: [error::".toList ++ [0xC3] ∧
      deliver 22 [Utf8.encode (ofResult false false Sample.accented).flatten] =
        deliver 22 ((ofResult false false Sample.accented).map Utf8.encode) ∧
      Sample.leftOut.isSkipped = true ∧
      deliver 0 ((ofResult false false Sample.leftOut).map Utf8.encode) = ([], .ok ()) := by
  obtain ⟨-, htaken, -, -, -, -, hwrites⟩ := deliver_ofResult false false Sample.accented 22
  obtain ⟨-, -, -, -, -, hskipped, -⟩ := deliver_ofResult false false Sample.leftOut 0
  refine ⟨htaken.trans (by decide), hwrites _ ?_, rfl, hskipped rfl⟩
  rw [List.flatten_singleton]

end Details

end CompilerTrials
