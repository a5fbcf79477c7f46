import LezFuzzing.Native.CorpusSync

/-!
# The weekly corpus update (`.github/workflows/corpus-update.yml`)

For each target there is one libFuzzer and one AFL++ job. They run in parallel, each on a
checkout of its own: a job lets the corpus of its target grow, minimises it and uploads it as an
artifact. A last job, which checks out `main` anew, downloads the artifacts that there are and
replaces the directories of their lanes. What the tools do is up to them: `cargo fuzz`,
`afl-fuzz` and `afl-cmin` are parameters.
-/

namespace LezFuzzing.Native

inductive Engine where
  | libfuzz
  | afl
deriving DecidableEq

/-- The corpus of a lane is `corpus/<engine>/<target>/`. -/
abbrev Lane := Engine × List Char

abbrev Corpora := AList fun _ : Lane => Dir

section AflJob

variable (digest : Digest)

/-- The loop body of "Sync new queue entries". Unlike in `afl-corpus-sync`, a `sha1sum` that
    fails goes unnoticed, as there is no `pipefail`: with an empty `HASH`, `cp` copies the file
    into the directory under its own name. -/
def growEntry (target inst : List Char) (dest : Dir) (f : QueueEntry) : Dir :=
  match f.contents with
  | none => dest
  | some bytes =>
    match digest (queueFile target inst f.name) bytes with
    | none => dest.insert f.name bytes
    | some hash => if (dest.lookup hash).isSome then dest else dest.insert hash bytes

end AflJob

/-! ## The update -/

end LezFuzzing.Native
