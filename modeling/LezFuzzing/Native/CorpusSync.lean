import LezFuzzing.ForStd.AList

/-!
# The corpus of AFL++ (`Justfile`: `afl-corpus-sync`, `clean-afl`, `clean-corpus`)

After an AFL++ session, `afl-corpus-sync` copies the queue of every instance to
`corpus/afl/<target>/`, where a file has its SHA-1 as its name. Directories are listed in the
order of the shell's globs. That `mkdir` and `cp` do not fail is taken for granted; that the
digest of a file can fail is not.
-/

namespace LezFuzzing.Native

/-- The contents of a file. -/
abbrev FileBytes := List (BitVec 8)

/-- What `sha1sum` and `cut` print for a path and the contents of its file; `none` where
    `sha1sum` fails. -/
abbrev Digest := List Char → FileBytes → Option (List Char)

/-- A directory of files, by name. -/
abbrev Dir := AList fun _ : List Char => FileBytes

/-- An entry of a queue directory. -/
structure QueueEntry where
  name : List Char
  /-- `none` for what is not a regular file -/
  contents : Option FileBytes

/-- A directory `afl-output/<target>/<name>/`. -/
structure InstanceDir where
  name : List Char
  /-- `none` without a directory `queue` in it -/
  queue : Option (List QueueEntry)

/-- A directory `afl-output/<name>/`. -/
structure TargetDir where
  name : List Char
  instances : List InstanceDir

/-- The directory `afl-output/`; no two entries of a directory share a name. -/
structure AflOutput where
  dirs : List TargetDir
  distinct : (dirs.map (·.name)).Nodup

/-- What `*/` matches: the names that do not start with a dot. -/
def visible (name : List Char) : Bool := !List.isPrefixOf ['.'] name

/-- What `id:*` matches. -/
def queueInput (f : QueueEntry) : Bool := "id:".toList.isPrefixOf f.name

/-- The path `"$QUEUE"/<name>`. -/
def queueFile (target inst name : List Char) : List Char :=
  "afl-output/".toList ++ target ++ '/' :: inst ++ "/queue/".toList ++ name

/-! ## The queues of one target -/

/-- The directory `$DEST` and the variable `count`. -/
structure SyncState where
  dest : Dir
  count : ℕ

section Queues

variable (digest : Digest)

/-- The innermost loop body. An error is where `set -e` ends the script. -/
def syncEntry (target inst : List Char) (self : SyncState) (f : QueueEntry) :
    Except SyncState SyncState :=
  match f.contents with
  | none => .ok self
  | some bytes =>
    match digest (queueFile target inst f.name) bytes with
    | none => .error self
    | some hash =>
      if (self.dest.lookup hash).isSome then .ok self
      else .ok { dest := self.dest.insert hash bytes, count := self.count + 1 }

def syncInstance (target : List Char) (self : SyncState) (inst : InstanceDir) :
    Except SyncState SyncState :=
  match inst.queue with
  | none => .ok self
  | some entries => (entries.filter queueInput).foldlM (syncEntry digest target inst.name) self

/-- The loop over the instances of a target. -/
def syncQueues (target : List Char) (instances : List InstanceDir) (dest : Dir) :
    Except SyncState SyncState :=
  (instances.filter fun inst => visible inst.name).foldlM (syncInstance digest target) ⟨dest, 0⟩

/-! ## `afl-corpus-sync` -/

/-- The directories below `corpus/afl/`, and the lines printed so far. -/
structure SyncRun where
  corpus : AList fun _ : List Char => Dir
  out : List String

def syncedLine (count : ℕ) (target : List Char) : String :=
  "Synced " ++ toString count ++ " new input(s) → corpus/afl/" ++ String.ofList target

def noOutputLine : String := "afl-output/ does not exist — nothing to sync."

/-- The body of the outer loop. -/
def syncTarget (self : SyncRun) (t : TargetDir) : Except SyncRun SyncRun :=
  match syncQueues digest t.name t.instances ((self.corpus.lookup t.name).getD ∅) with
  | .ok st => .ok ⟨self.corpus.insert t.name st.dest, self.out ++ [syncedLine st.count t.name]⟩
  | .error st => .error { self with corpus := self.corpus.insert t.name st.dest }

/-- What `afl-output/*/` stands for: where nothing matches, the pattern itself, so the target
    is `*` then. -/
def targetDirs (output : AflOutput) : List TargetDir :=
  match output.dirs.filter fun t => visible t.name with
  | [] => [⟨['*'], []⟩]
  | t :: ts => t :: ts

/-- The recipe; an error is an exit status other than 0. -/
def aflCorpusSync (output : Option AflOutput) (corpus : AList fun _ : List Char => Dir) :
    Except SyncRun SyncRun :=
  match output with
  | none => .ok ⟨corpus, [noOutputLine]⟩
  | some output => (targetDirs output).foldlM (syncTarget digest) ⟨corpus, []⟩

end Queues

/-! ## The working tree -/

structure WorkTree where
  aflOutput : Option AflOutput
  /-- the directories below `corpus/afl/` -/
  corpus : AList fun _ : List Char => Dir

inductive TreeAct where
  /-- a session of AFL++, which leaves these queues -/
  | fuzz (output : AflOutput)
  | aflCorpusSync
  /-- `clean-afl`, which `clean-all` runs as well -/
  | cleanAfl
  | cleanCorpus

/-- The corpus after `afl-corpus-sync`, whether it fails or not. -/
def WorkTree.synced (digest : Digest) (tree : WorkTree) :
    AList fun _ : List Char => Dir :=
  match aflCorpusSync digest tree.aflOutput tree.corpus with
  | .ok run => run.corpus
  | .error run => run.corpus

def WorkTree.act (digest : Digest) (tree : WorkTree) :
    TreeAct → WorkTree
  | .fuzz output => { tree with aflOutput := some output }
  | .aflCorpusSync => { tree with corpus := tree.synced digest }
  | .cleanAfl => { tree with aflOutput := none }
  | .cleanCorpus => { tree with corpus := ∅ }

end LezFuzzing.Native
