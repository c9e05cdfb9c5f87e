import CompilerTrials.Trial

/-!
# Paths of entries

The path of an entry is the path of its directory, a slash and the name of the entry. What is said
here holds for directories whose path does not end in a slash (`Path.isOpen`), and the directory of
a suite always is one.

* `Path.join_name`, `Suite.isOpen_dir`: how such a path is put together.
* `Path.fileName_below`, `Path.segments_below`: its last name and its segments.
* `Path.below_injective`: different entries of one directory have different paths.
* `Trial.ofPath_below`: the trial in the directory that an entry names.
-/

namespace CompilerTrials

theorem Name.ne_nil (n : Name) : n.bytes ≠ [] := n.isName.1

theorem Name.ne_here (n : Name) : n.bytes ≠ Path.here := n.isName.2.1

theorem Name.ne_above (n : Name) : n.bytes ≠ Path.above := n.isName.2.2.1

theorem Name.slash_not_mem (n : Name) : Path.slash ∉ n.bytes := n.isName.2.2.2.1

theorem Name.nul_not_mem (n : Name) : 0 ∉ n.bytes := n.isName.2.2.2.2.1

theorem Name.length_le (n : Name) : n.bytes.length ≤ Name.maxLength := n.isName.2.2.2.2.2

theorem Name.ofBytes?_bytes (n : Name) : Name.ofBytes? n.bytes = some n := dif_pos n.isName

namespace Path

variable {p q : ByteString}

/-- A byte string without a slash starts from no root directory. -/
theorem isAbsolute_of_not_mem (h : slash ∉ q) : isAbsolute q = false := by
  cases q with
  | nil => rfl
  | cons b rest =>
    have hb : b ≠ slash := fun he => h (by simp [he])
    simpa [isAbsolute] using hb

/-- What ends in something that is not open is not open. -/
theorem isOpen_append (h : isOpen q = false) : isOpen (p ++ q) = false := by
  simp only [isOpen, Bool.or_eq_false_iff, decide_eq_false_iff_not,
    List.isEmpty_eq_false_iff] at h ⊢
  obtain ⟨hne, hlast⟩ := h
  refine ⟨by simp [hne], ?_⟩
  rw [List.getLast?_append, List.getLast?_eq_some_getLast hne, Option.some_or]
  rwa [List.getLast?_eq_some_getLast hne] at hlast

theorem isOpen_name (n : Name) : isOpen n.bytes = false := by
  simp only [isOpen, Bool.or_eq_false_iff, decide_eq_false_iff_not, List.isEmpty_eq_false_iff]
  exact ⟨n.ne_nil, fun h => n.slash_not_mem (List.mem_of_getLast? h)⟩

theorem isOpen_below (p : ByteString) (n : Name) : isOpen (p ++ slash :: n.bytes) = false := by
  have h : p ++ slash :: n.bytes = (p ++ [slash]) ++ n.bytes := by simp
  rw [h]
  exact isOpen_append (isOpen_name n)

/-- A relative path is joined with a slash. -/
theorem join_of_relative (hp : isOpen p = false) (hq : isAbsolute q = false) :
    join p q = p ++ slash :: q := by
  simp [join, hp, hq]

theorem join_name (hp : isOpen p = false) (n : Name) : join p n.bytes = p ++ slash :: n.bytes :=
  join_of_relative hp (isAbsolute_of_not_mem n.slash_not_mem)

theorem below_injective {m n : Name} (h : p ++ slash :: m.bytes = p ++ slash :: n.bytes) :
    m = n := by
  have htail := List.append_cancel_left h
  exact Name.ext_bytes (List.cons.inj htail).2

/-! ## Names and segments -/

theorem names_append_slash (p q : ByteString) : names (p ++ slash :: q) = names p ++ names q := by
  simp only [names, List.splitOn_append_cons_self, List.filter_append]

theorem names_name (n : Name) : names n.bytes = [n.bytes] := by
  simp [names, List.splitOn_eq_singleton n.slash_not_mem, n.ne_nil]

theorem names_below (p : ByteString) (n : Name) :
    names (p ++ slash :: n.bytes) = names p ++ [n.bytes] := by
  rw [names_append_slash, names_name]

theorem segments_of_not_open (h : isOpen p = false) : segments p = names p := by
  simp only [isOpen, Bool.or_eq_false_iff, decide_eq_false_iff_not] at h
  simp [segments, h.2]

/-- The look-up of an entry makes one step more than that of its directory. -/
theorem segments_below (hp : isOpen p = false) (n : Name) :
    segments (p ++ slash :: n.bytes) = segments p ++ [n.bytes] := by
  rw [segments_of_not_open (isOpen_below p n), segments_of_not_open hp, names_below]

theorem isAbsolute_below (hp : isOpen p = false) (q : ByteString) :
    isAbsolute (p ++ q) = isAbsolute p := by
  cases p with
  | nil => simp [isOpen] at hp
  | cons b rest => rfl

theorem fileName_below (p : ByteString) (n : Name) :
    fileName (p ++ slash :: n.bytes) = some n.bytes := by
  have hkept : [n.bytes].filter (· ≠ here) = [n.bytes] := by simp [n.ne_here]
  simp only [fileName, names_below, List.filter_append, hkept]
  simp [n.ne_above]

end Path

/-- The name of the directory of a suite. -/
def Suite.entry (s : Suite) : Name := ⟨Utf8.encode s.name, by cases s <;> decide⟩

/-- The directory of a suite ends in the name of the suite. -/
theorem Suite.isOpen_dir (s : Suite) (testsDir : ByteString) :
    Path.isOpen (s.dir testsDir) = false := by
  have hname : Path.isOpen (Utf8.encode s.name) = false := Path.isOpen_name s.entry
  unfold Suite.dir Path.join
  split
  · exact hname
  · split
    · exact Path.isOpen_append hname
    · have h : testsDir ++ Path.slash :: Utf8.encode s.name =
          (testsDir ++ [Path.slash]) ++ Utf8.encode s.name := by simp
      rw [h]
      exact Path.isOpen_append hname

/-! ## Trials -/

/-- The trial in the directory that the entry `e` of the directory `root` names. -/
def Trial.below (t : FileTree) (suite : Suite) (root : ByteString) (e : Name) : Trial where
  name := Utf8.decodeLossy e.bytes
  suite := suite
  path := root ++ Path.slash :: e.bytes
  kind :=
    if t.resolves (root ++ Path.slash :: e.bytes ++ Path.slash :: Utf8.encode markerFile) then
      .module
    else .singleFile

theorem Trial.ofPath_below (t : FileTree) (suite : Suite) (root : ByteString) (e : Name) :
    Trial.ofPath t suite (root ++ Path.slash :: e.bytes) = Trial.below t suite root e := by
  have hmarker : Path.isAbsolute (Utf8.encode markerFile) = false := by decide
  have hjoin := Path.join_of_relative (Path.isOpen_below root e) hmarker
  simp [Trial.ofPath, Trial.below, TrialKind.detect, Path.fileName_below, hjoin]

/-- What is compiled where there is no marker is the entry point in the directory. -/
theorem Trial.target_below (t : FileTree) (suite : Suite) (root : ByteString) (e : Name) :
    (Trial.below t suite root e).target =
      match (Trial.below t suite root e).kind with
      | .module => root ++ Path.slash :: e.bytes
      | .singleFile => root ++ Path.slash :: e.bytes ++ Path.slash :: Utf8.encode entryPoint := by
  have hentry : Path.isAbsolute (Utf8.encode entryPoint) = false := by decide
  unfold Trial.target
  rw [← Path.join_of_relative (Path.isOpen_below root e) hentry]
  rfl

end CompilerTrials
