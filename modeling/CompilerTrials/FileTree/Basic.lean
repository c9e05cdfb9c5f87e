import CompilerTrials.Path

/-!
# File trees

A file tree holds a node for each location in it. Nodes have no owner and no permissions, but for
whether a file may be executed: every directory can be listed and searched.

* `Name`: a byte string that can name an entry of a directory.
* `Location`: the names on the way from a place to the root directory.
* `FileTree.node?`: what is at a location; the root directory is always there.
* `FileTree.entries`: the entries of a directory, in the order in which they are stored.
* `FileTree.insert`, `FileTree.erase`: a node more, a node less.

Main statements: `FileTree.mem_entries` says that the entries of a directory are what is stored just
below it; `FileTree.node?_insert` and `FileTree.node?_erase` say what the two changes leave where.
-/

namespace CompilerTrials

/-- The longest name, in bytes. -/
def Name.maxLength : Nat := 255

/-- Whether a byte string can name an entry of a directory. -/
def Name.IsName (b : ByteString) : Prop :=
  b ≠ [] ∧ b ≠ Path.here ∧ b ≠ Path.above ∧ Path.slash ∉ b ∧ 0 ∉ b ∧ b.length ≤ Name.maxLength

instance (b : ByteString) : Decidable (Name.IsName b) :=
  inferInstanceAs (Decidable (_ ∧ _ ∧ _ ∧ _ ∧ _ ∧ _))

/-- The name of an entry of a directory. -/
structure Name where
  bytes : ByteString
  isName : Name.IsName bytes
deriving DecidableEq

def Name.ofBytes? (b : ByteString) : Option Name :=
  if h : Name.IsName b then some ⟨b, h⟩ else none

theorem Name.ext_bytes {a b : Name} (h : a.bytes = b.bytes) : a = b := by
  cases a; cases b; cases h; rfl

/-- The names from a place up to the root directory, which has none. -/
abbrev Location := List Name

/-- What happens to a regular file that is started. -/
inductive FileMode where
  /-- It may not be executed. -/
  | plain
  /-- It is a program. -/
  | program
  /-- It is a script whose interpreter is not there. -/
  | orphanScript
deriving DecidableEq, Repr

/-- What can be at a location. -/
inductive Node where
  | file (mode : FileMode)
  | dir
  /-- A symbolic link. -/
  | link (target : ByteString)
deriving DecidableEq, Repr

/-- A file tree, and the directory in it from which relative paths start. -/
structure FileTree where
  nodes : List (Location × Node)
  nodup : (nodes.map Prod.fst).Nodup
  workingDir : Location

namespace FileTree

def empty : FileTree := ⟨[], by simp, []⟩

def node? (t : FileTree) : Location → Option Node
  | [] => some .dir
  | loc => t.nodes.lookup loc

def isDir (t : FileTree) (loc : Location) : Bool := t.node? loc = some .dir

/-- The entry that a stored node is in the directory at `dir`. -/
def entryIn (dir : Location) : Location × Node → Option (Name × Node)
  | (name :: parent, node) => if parent = dir then some (name, node) else none
  | ([], _) => none

def entries (t : FileTree) (dir : Location) : List (Name × Node) := t.nodes.filterMap (entryIn dir)

def erase (t : FileTree) (loc : Location) : FileTree where
  nodes := t.nodes.filter (fun p => p.1 ≠ loc)
  nodup := t.nodup.sublist (List.filter_sublist.map _)
  workingDir := t.workingDir

def insert (t : FileTree) (loc : Location) (node : Node) : FileTree where
  nodes := (t.erase loc).nodes ++ [(loc, node)]
  nodup := by
    rw [List.map_append, List.nodup_append]
    exact ⟨(t.erase loc).nodup, by simp, by simp [erase]⟩
  workingDir := t.workingDir

variable {t : FileTree} {loc other : Location} {name : Name} {node : Node}

theorem node?_cons : t.node? (name :: loc) = t.nodes.lookup (name :: loc) := rfl

/-- In a list without repeated keys, looking up finds what is stored. -/
theorem lookup_eq_some_of_nodup {nodes : List (Location × Node)}
    (h : (nodes.map Prod.fst).Nodup) : nodes.lookup loc = some node ↔ (loc, node) ∈ nodes := by
  induction nodes with
  | nil => simp
  | cons p rest ih =>
    obtain ⟨key, value⟩ := p
    simp only [List.map_cons, List.nodup_cons] at h
    by_cases hk : loc = key
    · subst hk
      have hrest : ∀ v, (loc, v) ∉ rest := fun v hv => h.1 (List.mem_map.2 ⟨(loc, v), hv, rfl⟩)
      simp [hrest, eq_comm]
    · simp [List.lookup_cons, beq_false_of_ne hk, ih h.2, hk]

/-- The entries of a directory are what is stored just below it. -/
theorem mem_entries : (name, node) ∈ t.entries loc ↔ t.node? (name :: loc) = some node := by
  rw [node?_cons, lookup_eq_some_of_nodup t.nodup, entries, List.mem_filterMap]
  constructor
  · rintro ⟨⟨place, stored⟩, hmem, h⟩
    cases place with
    | nil => simp [entryIn] at h
    | cons n parent =>
      simp only [entryIn] at h
      split at h
      · rename_i hp
        simp only [Option.some.injEq, Prod.mk.injEq] at h
        obtain ⟨rfl, rfl⟩ := h
        exact hp ▸ hmem
      · cases h
  · intro h
    exact ⟨(name :: loc, node), h, by simp [entryIn]⟩

theorem node?_erase (h : other ≠ []) :
    (t.erase loc).node? other = if other = loc then none else t.node? other := by
  cases other with
  | nil => exact absurd rfl h
  | cons n rest =>
    rw [node?_cons, node?_cons]
    refine Option.ext fun found => ?_
    rw [lookup_eq_some_of_nodup (t.erase loc).nodup]
    split
    · rename_i heq
      simp [erase, heq]
    · rename_i hne
      simp [erase, hne, lookup_eq_some_of_nodup t.nodup]

theorem node?_insert (h : other ≠ []) :
    (t.insert loc node).node? other = if other = loc then some node else t.node? other := by
  cases other with
  | nil => exact absurd rfl h
  | cons n rest =>
    rw [node?_cons, node?_cons]
    refine Option.ext fun found => ?_
    rw [lookup_eq_some_of_nodup (t.insert loc node).nodup]
    split
    · rename_i heq
      simp [insert, erase, heq, eq_comm]
    · rename_i hne
      simp [insert, erase, hne, lookup_eq_some_of_nodup t.nodup]

end FileTree

end CompilerTrials
