import CompilerTrials.Transcript

/-!
# Discovery

The trials of a suite are the directories directly below the directory of the suite, links to
directories among them.

* `Discovery.inspect`: what one entry is.
* `Discovery.ofSuite`: the trials of a suite, by the bytes of their names.
* `Discovery.all`: the trials of both suites, in the order in which they run.
-/

namespace CompilerTrials.Discovery

/-- What one entry of the directory `root`, which is at `loc`, is. A link is followed; one that
leads nowhere is no entry, one that leads back to the root, or fails in another way, is an error. -/
def inspect (t : FileTree) (suite : Suite) (root : ByteString) (loc : Location)
    (entry : Name × Node) : Transcript (Option Trial) :=
  let path := Path.join root entry.1.bytes
  let found : Transcript (Option Trial) := do
    let c := Trial.ofPath t suite path
    .say (.discovered c)
    return some c
  let ignored (e : Event) : Transcript (Option Trial) := do
    .say e
    return none
  match entry.2 with
  | .dir => found
  | .file _ => ignored (.ignoredEntry path)
  | .link _ =>
    match t.resolve path with
    | .ok target =>
      if target = loc then .fail (.discovery root (.ancestor path root))
      else if t.isDir target then found
      else ignored (.ignoredEntry path)
    | .error .notFound => ignored (.ignoredLink path)
    | .error fault => .fail (.discovery root (.listing path fault))

/-- The trials among the entries, up to the first error. -/
def survey (t : FileTree) (suite : Suite) (root : ByteString) (loc : Location) :
    List (Name × Node) → Transcript (List Trial)
  | [] => return []
  | entry :: rest => do
    let found ← inspect t suite root loc entry
    let later ← survey t suite root loc rest
    return found.toList ++ later

/-- The entries of a directory by the bytes of their names. -/
def sortedEntries (t : FileTree) (loc : Location) : List (Name × Node) :=
  (t.entries loc).mergeSort (fun a b => a.1.bytes ≤ b.1.bytes)

def ofSuite (t : FileTree) (testsDir : ByteString) (suite : Suite) : Transcript (List Trial) :=
  let root := suite.dir testsDir
  match t.resolve root with
  | .error fault => .fail (.discovery root (.listing root fault))
  | .ok loc =>
    if t.isDir loc then survey t suite root loc (sortedEntries t loc)
    else .fail (.discovery root (.plain .rootNotDirectory))

/-- The trials of both suites. Both are listed before anything runs. -/
def all (t : FileTree) (testsDir : ByteString) : Transcript (List Trial) := do
  let accepted ← ofSuite t testsDir .success
  let rejected ← ofSuite t testsDir .error
  return accepted ++ rejected

end CompilerTrials.Discovery
