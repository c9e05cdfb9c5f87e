import CompilerTrials.Proofs.Paths

/-!
# What look-ups depend on

A look-up reads a file tree only through the nodes that it meets on its way, one for each segment
(`FileTree.walkWith_cons`).

* `FileTree.resolve_of_perm`: the order in which a tree stores its nodes plays no part.
* `FileTree.resolve_erase`: without some node that is no directory, a look-up ends where it ended
  before, or it finds nothing. It never ends elsewhere, and it meets no new fault.
* `FileTree.resolve_below`: the look-up of an entry that is no link ends at the entry, unless the
  path of the entry is too long to be looked up.
-/

namespace CompilerTrials.FileTree

variable {t u : FileTree} {loc gone found : Location} {segments : List ByteString}
variable {follow follow' : Location → List ByteString → Except Fault Location}

/-! ## One segment -/

/-- What one segment makes of a walk. -/
inductive Move where
  | enter (next : Location)
  | follow (target : ByteString)
  | stop (fault : Fault)

/-- The move from a location along one segment. -/
def move (t : FileTree) (loc : Location) (segment : ByteString) : Move :=
  if t.isDir loc then
    if segment = Path.here then .enter loc
    else if segment = Path.above then .enter loc.tail
    else if Name.maxLength < segment.length then .stop .nameTooLong
    else
      match Name.ofBytes? segment with
      | none => .stop .notFound
      | some name =>
        match t.node? (name :: loc) with
        | none => .stop .notFound
        | some (.link target) => .follow target
        | some _ => .enter (name :: loc)
  else .stop .notDirectory

theorem walkWith_cons (t : FileTree)
    (follow : Location → List ByteString → Except Fault Location) (loc : Location)
    (segment : ByteString) (rest : List ByteString) :
    t.walkWith follow loc (segment :: rest) =
      match t.move loc segment with
      | .enter next => t.walkWith follow next rest
      | .follow target => follow (startOf loc target) (Path.segments target ++ rest)
      | .stop fault => .error fault := by
  simp only [walkWith, move]
  repeat' split
  all_goals simp_all

/-- The name of an entry that is no link moves to the entry. -/
theorem move_name {name : Name} {node : Node} (hdir : t.isDir loc = true)
    (hnode : t.node? (name :: loc) = some node) (hlink : ∀ target, node ≠ .link target) :
    t.move loc name.bytes = .enter (name :: loc) := by
  have hlength : ¬ Name.maxLength < name.bytes.length := Nat.not_lt.mpr name.length_le
  simp only [move, hdir, name.ne_here, name.ne_above, hlength, name.ofBytes?_bytes, hnode,
    if_true, if_false]

/-! ## Trees that hold the same nodes -/

theorem node?_of_perm (h : t.nodes.Perm u.nodes) (loc : Location) : u.node? loc = t.node? loc := by
  cases loc with
  | nil => rfl
  | cons name parent =>
    refine Option.ext fun node => ?_
    rw [node?_cons, node?_cons, lookup_eq_some_of_nodup u.nodup, lookup_eq_some_of_nodup t.nodup,
      h.mem_iff]

theorem isDir_congr (h : ∀ loc, u.node? loc = t.node? loc) (loc : Location) :
    u.isDir loc = t.isDir loc := by
  simp only [isDir, h]

theorem walkWith_congr (h : ∀ loc, u.node? loc = t.node? loc) :
    u.walkWith follow loc segments = t.walkWith follow loc segments := by
  induction segments generalizing loc with
  | nil => rfl
  | cons segment rest ih => simp only [walkWith, isDir_congr h, h, ih]

theorem walk_congr (h : ∀ loc, u.node? loc = t.node? loc) (links : Nat) :
    u.walk links loc segments = t.walk links loc segments := by
  induction links generalizing loc segments with
  | zero => exact walkWith_congr h
  | succ links ih =>
    have hfollow : u.walk links = t.walk links := funext fun _ => funext fun _ => ih
    simp only [walk, hfollow]
    exact walkWith_congr h

theorem resolve_congr (h : ∀ loc, u.node? loc = t.node? loc) (hdir : u.workingDir = t.workingDir)
    (path : ByteString) : u.resolve path = t.resolve path := by
  simp only [resolve, walk_congr h, hdir]

theorem resolve_of_perm (h : t.nodes.Perm u.nodes) (hdir : u.workingDir = t.workingDir)
    (path : ByteString) : u.resolve path = t.resolve path :=
  resolve_congr (node?_of_perm h) hdir path

theorem resolves_congr {path : ByteString} (h : u.resolve path = t.resolve path) :
    u.resolves path = t.resolves path := by
  simp only [resolves, h]

/-! ## A node less -/

/-- Where a directory is, removing something else leaves it. -/
theorem isDir_erase (hgone : t.isDir gone = false) (loc : Location) :
    (t.erase gone).isDir loc = t.isDir loc := by
  cases loc with
  | nil => rfl
  | cons name parent =>
    simp only [isDir, node?_erase (List.cons_ne_nil name parent)]
    split
    · rename_i heq
      simpa [isDir, heq] using hgone
    · rfl

/-- A move is the old one, or it ends at what is gone. -/
theorem move_erase (hgone : t.isDir gone = false) (loc : Location) (segment : ByteString) :
    (t.erase gone).move loc segment = t.move loc segment ∨
      (t.erase gone).move loc segment = .stop .notFound := by
  simp only [move, isDir_erase hgone]
  cases hname : Name.ofBytes? segment with
  | none => exact .inl rfl
  | some name =>
    simp only [node?_erase (List.cons_ne_nil name loc)]
    by_cases heq : name :: loc = gone
    · -- The node at `gone` is read only after all other checks.
      simp only [if_pos heq]
      split
      · split
        · exact .inl rfl
        · split
          · exact .inl rfl
          · split
            · exact .inl rfl
            · exact .inr rfl
      · exact .inl rfl
    · rw [if_neg heq]
      exact .inl rfl

/-- The answer of a look-up is the old one, or that nothing is there. -/
def SameOrMissing (before after : Except Fault Location) : Prop :=
  after = before ∨ after = .error .notFound

theorem walkWith_erase (hgone : t.isDir gone = false)
    (hfollow : ∀ loc segments, SameOrMissing (follow loc segments) (follow' loc segments)) :
    SameOrMissing (t.walkWith follow loc segments)
      ((t.erase gone).walkWith follow' loc segments) := by
  induction segments generalizing loc with
  | nil => exact .inl rfl
  | cons segment rest ih =>
    rw [walkWith_cons, walkWith_cons]
    rcases move_erase hgone loc segment with hmove | hmove
    · rw [hmove]
      cases t.move loc segment with
      | enter next => exact ih
      | follow target => exact hfollow _ _
      | stop fault => exact .inl rfl
    · rw [hmove]
      exact .inr rfl

theorem walk_erase (hgone : t.isDir gone = false) (links : Nat) :
    SameOrMissing (t.walk links loc segments) ((t.erase gone).walk links loc segments) := by
  induction links generalizing loc segments with
  | zero => exact walkWith_erase hgone (fun _ _ => .inl rfl)
  | succ links ih => exact walkWith_erase hgone (fun _ _ => ih)

theorem resolve_erase (hgone : t.isDir gone = false) (path : ByteString) :
    SameOrMissing (t.resolve path) ((t.erase gone).resolve path) := by
  unfold resolve
  split
  · exact .inl rfl
  · split
    · exact .inl rfl
    · split
      · exact .inl rfl
      · exact walk_erase hgone maxLinks

/-! ## One segment more -/

variable {name : Name} {node : Node}

/-- A walk that has come to a directory goes on to an entry of it, and needs no link for that. -/
theorem walkWith_snoc (hdir : t.isDir found = true) (hnode : t.node? (name :: found) = some node)
    (hlink : ∀ target, node ≠ .link target)
    (hfollow : ∀ loc segments, follow loc segments = .ok found →
      follow loc (segments ++ [name.bytes]) = .ok (name :: found))
    (h : t.walkWith follow loc segments = .ok found) :
    t.walkWith follow loc (segments ++ [name.bytes]) = .ok (name :: found) := by
  induction segments generalizing loc with
  | nil =>
    simp only [walkWith, Except.ok.injEq] at h
    subst h
    rw [List.nil_append, walkWith_cons, move_name hdir hnode hlink]
    rfl
  | cons segment rest ih =>
    rw [walkWith_cons] at h
    rw [List.cons_append, walkWith_cons]
    cases hmove : t.move loc segment with
    | enter next =>
      simp only [hmove] at h ⊢
      exact ih h
    | follow target =>
      simp only [hmove] at h ⊢
      have hnext := hfollow _ _ h
      rwa [List.append_assoc] at hnext
    | stop fault =>
      simp only [hmove] at h
      cases h

theorem walk_snoc (hdir : t.isDir found = true) (hnode : t.node? (name :: found) = some node)
    (hlink : ∀ target, node ≠ .link target) {links : Nat}
    (h : t.walk links loc segments = .ok found) :
    t.walk links loc (segments ++ [name.bytes]) = .ok (name :: found) := by
  induction links generalizing loc segments with
  | zero => exact walkWith_snoc hdir hnode hlink (fun _ _ h => by cases h) h
  | succ links ih => exact walkWith_snoc hdir hnode hlink (fun _ _ h => ih h) h

/-- A path that leads somewhere holds no NUL byte. -/
theorem nul_not_mem_of_resolve {path : ByteString} (h : t.resolve path = .ok found) :
    0 ∉ path := by
  intro hnul
  simp [resolve, hnul] at h

theorem resolve_below {root : ByteString} (hopen : Path.isOpen root = false)
    (hroot : t.resolve root = .ok found) (hdir : t.isDir found = true)
    (hnode : t.node? (name :: found) = some node) (hlink : ∀ target, node ≠ .link target)
    (hlength : (root ++ Path.slash :: name.bytes).length < pathLimit) :
    t.resolve (root ++ Path.slash :: name.bytes) = .ok (name :: found) := by
  have hnul : 0 ∉ root ++ Path.slash :: name.bytes := by
    simp [nul_not_mem_of_resolve hroot, name.nul_not_mem, Path.slash]
  have hstart : startOf t.workingDir (root ++ Path.slash :: name.bytes) =
      startOf t.workingDir root := by
    simp only [startOf, Path.isAbsolute_below hopen]
  unfold resolve at hroot ⊢
  rw [if_neg hnul, if_neg (by simp), if_neg (by omega), hstart, Path.segments_below hopen]
  split at hroot
  · cases hroot
  · split at hroot
    · cases hroot
    · split at hroot
      · cases hroot
      · exact walk_snoc hdir hnode hlink hroot

end CompilerTrials.FileTree
