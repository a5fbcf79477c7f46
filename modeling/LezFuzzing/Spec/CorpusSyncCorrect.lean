import LezFuzzing.ForStd.Fill
import LezFuzzing.Native.CorpusSync

/-!
# What `afl-corpus-sync` keeps

The three nested loops are one loop over the files of all queues that fills the corpus, a store
in which the first file under a digest wins. From this follows what the corpus holds after any
run of sessions, synchronisations and clean-ups, and what the recipe reports.

## Key results

- `corpusRun_fileAt`: every file of the corpus after any run
- `corpusRun_keeps`: what was synchronised once stays
- `aflCorpusSync_reports`: the numbers it prints, and that doing it twice adds nothing
-/

namespace LezFuzzing.Spec

open Native Fill

/-- The file `corpus/afl/<target>/<name>`. -/
def fileAt (corpus : AList fun _ : List Char => Dir) (path : List Char × List Char) :
    Option FileBytes :=
  (corpus.lookup path.1).bind (·.lookup path.2)

section Digest

variable (digest : Digest)

/-! ## The files of the queues -/

/-- The digest and the contents of a queue entry; the pair is missing where the digest is. -/
def entryItems (target inst : List Char) (f : QueueEntry) :
    List (Option (List Char × FileBytes)) :=
  match f.contents with
  | none => []
  | some bytes => [(digest (queueFile target inst f.name) bytes).map (·, bytes)]

/-- The files of one queue; an instance without one has none. -/
def instanceItems (target : List Char) (inst : InstanceDir) :
    List (Option (List Char × FileBytes)) :=
  ((inst.queue.getD []).filter queueInput).flatMap (entryItems digest target inst.name)

/-- The files of the queues of a target, in the order of the loops. -/
def queueItems (target : List Char) (instances : List InstanceDir) :
    List (Option (List Char × FileBytes)) :=
  (instances.filter fun inst => visible inst.name).flatMap (instanceItems digest target)

/-- An item of a target as a file of the corpus. -/
def ofTarget (target : List Char) (x : List Char × FileBytes) :
    (List Char × List Char) × FileBytes :=
  ((target, x.1), x.2)

/-- The files of the queues of a target, as files of the corpus. -/
def targetItems (t : TargetDir) : List (Option ((List Char × List Char) × FileBytes)) :=
  (queueItems digest t.name t.instances).map (Option.map (ofTarget t.name))

/-- The files of all queues, in the order of the loops. -/
def outputItems (output : Option AflOutput) :
    List (Option ((List Char × List Char) × FileBytes)) :=
  match output with
  | none => []
  | some output => (targetDirs output).flatMap (targetItems digest)

/-- A regular file of a queue that the loops over the instances look at. -/
structure QueuedIn (instances : List InstanceDir) (inst : InstanceDir) (f : QueueEntry)
    (bytes : FileBytes) : Prop where
  instance_mem : inst ∈ instances
  visible : visible inst.name
  entry : ∃ entries, inst.queue = some entries ∧ f ∈ entries
  input : queueInput f
  regular : f.contents = some bytes

/-- A regular file of a queue that the recipe looks at. -/
structure Queued (output : Option AflOutput) (t : TargetDir) (inst : InstanceDir)
    (f : QueueEntry) (bytes : FileBytes) : Prop extends QueuedIn t.instances inst f bytes where
  target : ∃ dirs, output = some dirs ∧ t ∈ targetDirs dirs

variable {digest}

/-- The items of a target are the regular files of its queues. -/
theorem mem_queueItems_iff {target : List Char} {instances : List InstanceDir}
    {item : Option (List Char × FileBytes)} :
    item ∈ queueItems digest target instances ↔ ∃ inst f bytes, QueuedIn instances inst f bytes ∧
      item = (digest (queueFile target inst.name f.name) bytes).map (·, bytes) := by
  constructor
  · intro h
    obtain ⟨inst, hinst, h⟩ := List.mem_flatMap.mp h
    obtain ⟨f, hf, h⟩ := List.mem_flatMap.mp h
    obtain ⟨hmem, hvisible⟩ := List.mem_filter.mp hinst
    obtain ⟨hf, hinput⟩ := List.mem_filter.mp hf
    have hentry : ∃ entries, inst.queue = some entries ∧ f ∈ entries := by
      cases hqueue : inst.queue with
      | none => rw [hqueue] at hf; exact absurd hf List.not_mem_nil
      | some entries => rw [hqueue] at hf; exact ⟨entries, rfl, hf⟩
    unfold entryItems at h
    split at h
    · exact absurd h List.not_mem_nil
    · rename_i bytes hcontents
      exact ⟨inst, f, bytes, ⟨hmem, hvisible, hentry, hinput, hcontents⟩, List.mem_singleton.mp h⟩
  · intro h
    obtain ⟨inst, f, bytes, hqueued, rfl⟩ := h
    obtain ⟨entries, hqueue, hf⟩ := hqueued.entry
    refine List.mem_flatMap.mpr
      ⟨inst, List.mem_filter.mpr ⟨hqueued.instance_mem, hqueued.visible⟩, ?_⟩
    refine List.mem_flatMap.mpr ⟨f, List.mem_filter.mpr ⟨?_, hqueued.input⟩, ?_⟩
    · rw [hqueue]
      exact hf
    · rw [entryItems, hqueued.regular]
      exact List.mem_singleton_self _

/-- The items are the regular files of the queues. -/
theorem mem_outputItems_iff {output : Option AflOutput}
    {item : Option ((List Char × List Char) × FileBytes)} :
    item ∈ outputItems digest output ↔ ∃ t inst f bytes, Queued output t inst f bytes ∧
      item = (digest (queueFile t.name inst.name f.name) bytes).map fun hash =>
        ((t.name, hash), bytes) := by
  constructor
  · intro h
    cases output with
    | none => exact absurd h List.not_mem_nil
    | some output =>
      obtain ⟨t, ht, hitem⟩ := List.mem_flatMap.mp h
      obtain ⟨x, hx, rfl⟩ := List.mem_map.mp hitem
      obtain ⟨inst, f, bytes, hqueued, rfl⟩ := mem_queueItems_iff.mp hx
      refine ⟨t, inst, f, bytes, ⟨hqueued, output, rfl, ht⟩, ?_⟩
      rw [Option.map_map]
      rfl
  · intro h
    obtain ⟨t, inst, f, bytes, hqueued, rfl⟩ := h
    obtain ⟨output, rfl, ht⟩ := hqueued.target
    refine List.mem_flatMap.mpr ⟨t, ht, List.mem_map.mpr
      ⟨_, mem_queueItems_iff.mpr ⟨inst, f, bytes, hqueued.toQueuedIn, rfl⟩, ?_⟩⟩
    rw [Option.map_map]
    rfl

/-! ## One target -/

/-- The files of a target's directory. -/
def destView (st : SyncState) (name : List Char) : Option FileBytes := st.dest.lookup name

/-- One file is copied unless its digest is taken; the script ends where there is none. -/
theorem syncEntry_fills (target inst : List Char) (st : SyncState) (f : QueueEntry) :
    Fills destView st (entryItems digest target inst f) (syncEntry digest target inst st f) := by
  unfold entryItems syncEntry
  cases f.contents with
  | none => exact fills_nil fun _ => rfl
  | some bytes =>
    dsimp only
    cases digest (queueFile target inst f.name) bytes with
    | none => exact fills_none
    | some hash =>
      dsimp only [Option.map_some]
      split
      · -- the first file with this digest wins
        rename_i htaken
        refine fills_some fun name => ?_
        by_cases hname : name = hash
        · obtain ⟨old, hold⟩ := Option.isSome_iff_exists.mp htaken
          rw [hname, destView, hold, Option.some_or]
        · rw [if_neg hname, Option.or_none]
      · rename_i hfree
        refine fills_some fun name => ?_
        by_cases hname : name = hash
        · subst hname
          rw [destView, destView, AList.lookup_insert, if_pos rfl,
            Option.not_isSome_iff_eq_none.mp hfree, Option.none_or]
        · rw [destView, destView, AList.lookup_insert_ne hname, if_neg hname, Option.or_none]

variable (digest) in
/-- The loops over the instances of a target and over their queues. -/
theorem syncQueues_fills (target : List Char) (instances : List InstanceDir) (dest : Dir) :
    Fills destView ⟨dest, 0⟩ (queueItems digest target instances)
      (syncQueues digest target instances dest) := by
  refine fills_foldlM (fun st inst _ => ?_) _
  unfold syncInstance instanceItems
  cases inst.queue with
  | none => exact fills_nil fun _ => rfl
  | some entries => exact fills_foldlM (fun st f _ => syncEntry_fills target inst.name st f) st

/-- `count` is the number of files that are new. -/
def Counts (st st' : SyncState) : Prop :=
  st'.dest.keys.length + st.count = st.dest.keys.length + st'.count

/-- Counting goes on from what has been counted. -/
theorem Counts.trans {st mid st' : SyncState} (h : Counts st mid) (h' : Counts mid st') :
    Counts st st' := by
  unfold Counts at *
  omega

/-- `count` goes up where a file is copied. -/
theorem syncEntry_counts {target inst : List Char} {st st' : SyncState} {f : QueueEntry}
    (h : syncEntry digest target inst st f = .ok st') : Counts st st' := by
  unfold syncEntry at h
  split at h
  · obtain rfl := Except.ok.inj h
    exact rfl
  · split at h
    · exact nomatch h
    · split at h
      · obtain rfl := Except.ok.inj h
        exact rfl
      · rename_i hash _ hfree
        obtain rfl := Except.ok.inj h
        have hnew : hash ∉ st.dest := fun hmem => hfree (AList.lookup_isSome.mpr hmem)
        show (st.dest.insert hash _).keys.length + st.count = st.dest.keys.length + (st.count + 1)
        rw [AList.length_keys_insert_of_notMem hnew]
        omega

/-- A loop of steps that count counts. -/
private theorem counts_foldlM {A : Type} {step : SyncState → A → Except SyncState SyncState}
    (hstep : ∀ st a st', step st a = .ok st' → Counts st st') {as : List A} {st st' : SyncState}
    (h : as.foldlM step st = .ok st') : Counts st st' := by
  induction as generalizing st with
  | nil => obtain rfl := Except.ok.inj h; exact rfl
  | cons a as ih =>
    obtain ⟨mid, hfirst, hrest⟩ := Except.bind_eq_ok_iff.mp h
    exact (hstep st a mid hfirst).trans (ih hrest)

/-- At the end of the loops `count` is the number of files that are new. -/
theorem syncQueues_counts {target : List Char} {instances : List InstanceDir} {dest : Dir}
    {st : SyncState} (h : syncQueues digest target instances dest = .ok st) :
    st.dest.keys.length = dest.keys.length + st.count := by
  have hcounts : Counts ⟨dest, 0⟩ st := by
    refine counts_foldlM (fun st inst st' hinst => ?_) h
    unfold syncInstance at hinst
    split at hinst
    · obtain rfl := Except.ok.inj hinst
      exact rfl
    · exact counts_foldlM (fun _ _ _ => syncEntry_counts) hinst
  exact hcounts

/-! ## The whole recipe -/

/-- The directory of a target, empty where there is none. -/
theorem fileAt_eq_getD (corpus : AList fun _ : List Char => Dir) (target name : List Char) :
    fileAt corpus (target, name) = ((corpus.lookup target).getD ∅).lookup name := by
  unfold fileAt
  cases corpus.lookup target with
  | none => rfl
  | some dir => rfl

/-- One directory is replaced, the others stay. -/
theorem fileAt_insert (corpus : AList fun _ : List Char => Dir) (target : List Char) (dest : Dir)
    (path : List Char × List Char) :
    fileAt (corpus.insert target dest) path =
      if path.1 = target then dest.lookup path.2 else fileAt corpus path := by
  unfold fileAt
  split
  · rename_i htarget
    rw [htarget, AList.lookup_insert, Option.bind_some]
  · rename_i hother
    rw [AList.lookup_insert_ne hother]

/-- The first file under a path is the first one under its name, if the target is right. -/
private theorem first_map_ofTarget (target : List Char) (xs : List (List Char × FileBytes))
    (path : List Char × List Char) :
    first (xs.map (ofTarget target)) path =
      if path.1 = target then first xs path.2 else none := by
  induction xs with
  | nil => simp
  | cons x xs ih =>
    rw [List.map_cons, first, first, ih, ofTarget]
    by_cases htarget : path.1 = target
    · simp [Prod.ext_iff, htarget]
    · simp [Prod.ext_iff, htarget]

/-- One round of the outer loop, whether it comes to its end or not. -/
theorem syncTarget_fills (run : SyncRun) (t : TargetDir) :
    Fills (fun run => fileAt run.corpus) run (targetItems digest t) (syncTarget digest run t) := by
  have hqueues := syncQueues_fills digest t.name t.instances
    ((run.corpus.lookup t.name).getD ∅)
  unfold syncTarget targetItems
  -- the directory holds its own files next to the items, and no other directory changes
  have hview : ∀ st : SyncState,
      (∀ name, destView st name = (((run.corpus.lookup t.name).getD ∅).lookup name).or
        (first (present (queueItems digest t.name t.instances)) name)) →
      ∀ path, fileAt (run.corpus.insert t.name st.dest) path = (fileAt run.corpus path).or
        (first (present ((queueItems digest t.name t.instances).map
          (Option.map (ofTarget t.name)))) path) := by
    intro st hst path
    rw [fileAt_insert, present_map, first_map_ofTarget]
    by_cases htarget : path.1 = t.name
    · rw [if_pos htarget, if_pos htarget, ← Prod.mk.eta (p := path), htarget, fileAt_eq_getD]
      exact hst path.2
    · rw [if_neg htarget, if_neg htarget, Option.or_none]
  cases hrun : syncQueues digest t.name t.instances ((run.corpus.lookup t.name).getD ∅) with
  | ok st =>
    rw [hrun] at hqueues
    exact ⟨hqueues.isOk.trans (complete_map _ _).symm, hview st hqueues.view_eq⟩
  | error st =>
    rw [hrun] at hqueues
    exact ⟨hqueues.isOk.trans (complete_map _ _).symm, hview st hqueues.view_eq⟩

variable (digest) in
/-- The recipe fills the corpus with the files of the queues. -/
theorem aflCorpusSync_fills (output : Option AflOutput) (corpus : AList fun _ : List Char => Dir) :
    Fills (fun run => fileAt run.corpus) ⟨corpus, []⟩ (outputItems digest output)
      (aflCorpusSync digest output corpus) := by
  cases output with
  | none => exact fills_nil fun _ => rfl
  | some output => exact fills_foldlM (fun run t _ => syncTarget_fills run t) _

/-! ## What it reports -/

/-- The number of files in `corpus/afl/<target>/`. -/
def dirSize (corpus : AList fun _ : List Char => Dir) (target : List Char) : ℕ :=
  ((corpus.lookup target).getD ∅).keys.length

/-- What a completed synchronisation prints where `grown` is the number of new files. -/
def reportLines (output : Option AflOutput) (grown : List Char → ℕ) : List String :=
  match output with
  | none => [noOutputLine]
  | some output => (targetDirs output).map fun t => syncedLine (grown t.name) t.name

/-- Its line, and the directories that it leaves alone. -/
theorem syncTarget_reports {run run' : SyncRun} {t : TargetDir}
    (h : syncTarget digest run t = .ok run') :
    run'.out = run.out ++
        [syncedLine (dirSize run'.corpus t.name - dirSize run.corpus t.name) t.name] ∧
      ∀ target, target ≠ t.name → dirSize run'.corpus target = dirSize run.corpus target := by
  unfold syncTarget at h
  split at h
  · rename_i st hqueues
    obtain rfl := Except.ok.inj h
    have hcount := syncQueues_counts hqueues
    have hgrown : dirSize (run.corpus.insert t.name st.dest) t.name -
        dirSize run.corpus t.name = st.count := by
      unfold dirSize
      rw [AList.lookup_insert, Option.getD_some, hcount, Nat.add_sub_cancel_left]
    refine ⟨?_, fun target hother => ?_⟩
    · rw [hgrown]
    · unfold dirSize
      rw [AList.lookup_insert_ne hother]
  · exact nomatch h

/-- The lines of the targets in turn, each of which has a directory of its own. -/
private theorem syncTargets_report {ts : List TargetDir} (hdistinct : (ts.map (·.name)).Nodup)
    {run run' : SyncRun} (h : ts.foldlM (syncTarget digest) run = .ok run') :
    run'.out = run.out ++ ts.map (fun t =>
        syncedLine (dirSize run'.corpus t.name - dirSize run.corpus t.name) t.name) ∧
      ∀ target, target ∉ ts.map (·.name) →
        dirSize run'.corpus target = dirSize run.corpus target := by
  induction ts generalizing run with
  | nil =>
    obtain rfl := Except.ok.inj h
    exact ⟨(List.append_nil _).symm, fun _ _ => rfl⟩
  | cons t ts ih =>
    obtain ⟨mid, hfirst, hrest⟩ := Except.bind_eq_ok_iff.mp h
    rw [List.map_cons, List.nodup_cons] at hdistinct
    obtain ⟨hout, hothers⟩ := syncTarget_reports hfirst
    obtain ⟨houtRest, hothersRest⟩ := ih hdistinct.2 hrest
    -- the rest leaves this target's directory alone, and this round left theirs alone
    have hrounds : ts.map (fun u =>
          syncedLine (dirSize run'.corpus u.name - dirSize mid.corpus u.name) u.name) =
        ts.map fun u =>
          syncedLine (dirSize run'.corpus u.name - dirSize run.corpus u.name) u.name := by
      refine List.map_congr_left fun u hu => ?_
      have hne : u.name ≠ t.name := fun heq =>
        hdistinct.1 (heq ▸ List.mem_map_of_mem (f := fun t : TargetDir => t.name) hu)
      rw [hothers u.name hne]
    refine ⟨?_, fun target htarget => ?_⟩
    · rw [houtRest, hout, hrounds, List.map_cons, hothersRest t.name hdistinct.1,
        List.append_assoc, List.singleton_append]
    · rw [List.map_cons, List.mem_cons, not_or] at htarget
      rw [hothersRest target htarget.2, hothers target htarget.1]

/-- A glob lists no name twice. -/
theorem targetDirs_nodup (output : AflOutput) : ((targetDirs output).map (·.name)).Nodup := by
  unfold targetDirs
  split
  · exact List.nodup_singleton _
  · rename_i t ts hdirs
    rw [← hdirs]
    exact output.distinct.sublist (List.filter_sublist.map _)

/-- The lines of the recipe, in terms of the corpus before and after. -/
theorem aflCorpusSync_out {output : Option AflOutput} {corpus : AList fun _ : List Char => Dir}
    {run : SyncRun} (h : aflCorpusSync digest output corpus = .ok run) :
    run.out = reportLines output fun target =>
      dirSize run.corpus target - dirSize corpus target := by
  cases output with
  | none => obtain rfl := Except.ok.inj h; rfl
  | some output =>
    obtain ⟨hout, _⟩ := syncTargets_report (targetDirs_nodup output) h
    rw [hout, List.nil_append]
    rfl

/-- Without a target to list, the pattern itself is one: a directory `corpus/afl/*` comes into
    being. -/
theorem aflCorpusSync_no_target {output : AflOutput} (h : ∀ t ∈ output.dirs, visible t.name = false)
    (corpus : AList fun _ : List Char => Dir) :
    aflCorpusSync digest (some output) corpus =
      .ok ⟨corpus.insert ['*'] ((corpus.lookup ['*']).getD ∅),
        ["Synced 0 new input(s) → corpus/afl/*"]⟩ := by
  have hnone : output.dirs.filter (fun t => visible t.name) = [] :=
    List.filter_eq_nil_iff.mpr fun t ht => by rw [h t ht]; exact Bool.false_ne_true
  have htargets : targetDirs output = [⟨['*'], []⟩] := by rw [targetDirs, hnone]
  have hline : syncedLine 0 ['*'] = "Synced 0 new input(s) → corpus/afl/*" := by decide
  rw [aflCorpusSync, htargets, ← hline]
  rfl

variable (digest) in
/-- A completed synchronisation reports for each target how many files its directory has
    gained. Where nothing has happened since, a second one completes too: it leaves every file
    as it is and reports nothing new. -/
theorem aflCorpusSync_reports (output : Option AflOutput)
    (corpus : AList fun _ : List Char => Dir) {run : SyncRun}
    (h : aflCorpusSync digest output corpus = .ok run) :
    run.out = reportLines output (fun target => dirSize run.corpus target - dirSize corpus target) ∧
      ∃ again, aflCorpusSync digest output run.corpus = .ok again ∧
        (∀ path, fileAt again.corpus path = fileAt run.corpus path) ∧
        again.out = reportLines output fun _ => 0 := by
  have hfirst := aflCorpusSync_fills digest output corpus
  have hsecond := aflCorpusSync_fills digest output run.corpus
  rw [h] at hfirst
  -- the same items once more, none of which is missing
  have hok : (aflCorpusSync digest output run.corpus).isOk := hsecond.isOk.trans hfirst.isOk.symm
  obtain ⟨again, hagain⟩ : ∃ again, aflCorpusSync digest output run.corpus = .ok again := by
    cases hrun : aflCorpusSync digest output run.corpus with
    | ok again => exact ⟨again, rfl⟩
    | error st => rw [hrun] at hok; exact absurd hok Bool.false_ne_true
  rw [hagain] at hsecond
  have hsame : ∀ path, fileAt again.corpus path = fileAt run.corpus path :=
    hsecond.view_eq_of_forall_isSome fun kv hkv => by
      obtain ⟨kv', heq, hthere⟩ := hfirst.isSome_of_isOk rfl hkv
      rw [Option.some.inj heq]
      exact hthere
  have hsize : ∀ target, dirSize again.corpus target = dirSize run.corpus target := fun target =>
    AList.length_keys_eq fun name => by rw [← fileAt_eq_getD, ← fileAt_eq_getD, hsame]
  refine ⟨aflCorpusSync_out h, again, hagain, hsame, ?_⟩
  rw [aflCorpusSync_out hagain]
  simp only [hsize, Nat.sub_self]

/-! ## Runs -/

variable (digest)

/-- The working tree after some sessions, synchronisations and clean-ups. -/
def corpusRun (tree : WorkTree) (acts : List TreeAct) : WorkTree :=
  acts.foldl (WorkTree.act digest) tree

/-- A file below `corpus/afl/` bears the digest of its contents as its name. -/
def Named (corpus : AList fun _ : List Char => Dir) : Prop :=
  ∀ target name bytes, fileAt corpus (target, name) = some bytes →
    ∃ path, digest path bytes = some name

/-- Two different contents with one digest. -/
def Collision (bytes bytes' : FileBytes) : Prop :=
  bytes ≠ bytes' ∧ ∃ path path' hash, digest path bytes = some hash ∧
    digest path' bytes' = some hash

/-- Whether the corpus is cleaned. -/
def cleans : TreeAct → Bool
  | .cleanCorpus => true
  | _ => false

/-- What the synchronisations of a run have copied or found in the corpus, in turn; a
    synchronisation that fails counts up to the file it fails at. A clean-up of the corpus
    starts over. -/
def syncedFiles (tree : WorkTree) (log : List ((List Char × List Char) × FileBytes)) :
    List TreeAct → List ((List Char × List Char) × FileBytes)
  | [] => log
  | .aflCorpusSync :: acts =>
    syncedFiles (tree.act digest .aflCorpusSync)
      (log ++ present (outputItems digest tree.aflOutput)) acts
  | .cleanCorpus :: acts => syncedFiles (tree.act digest .cleanCorpus) [] acts
  | act :: acts => syncedFiles (tree.act digest act) log acts

variable {digest}

/-- Contents with one digest are the same, or collide. -/
theorem eq_or_collision {kept bytes : FileBytes} {path path' hash : List Char}
    (hkept : digest path kept = some hash) (hbytes : digest path' bytes = some hash) :
    kept = bytes ∨ Collision digest kept bytes := by
  by_cases hsame : kept = bytes
  · exact Or.inl hsame
  · exact Or.inr ⟨hsame, path, path', hash, hkept, hbytes⟩

/-- A file after a synchronisation was there before, or is the first one with its digest. -/
theorem synced_fills (tree : WorkTree) (path : List Char × List Char) :
    fileAt (tree.synced digest) path = (fileAt tree.corpus path).or
      (first (present (outputItems digest tree.aflOutput)) path) := by
  have hfills := aflCorpusSync_fills digest tree.aflOutput tree.corpus
  unfold WorkTree.synced
  cases hrun : aflCorpusSync digest tree.aflOutput tree.corpus with
  | ok run => rw [hrun] at hfills; exact hfills.view_eq path
  | error run => rw [hrun] at hfills; exact hfills.view_eq path

/-- The corpus after the rest of a run, on top of what has been synchronised so far. -/
private theorem corpusRun_fileAt_from {tree : WorkTree} {acts : List TreeAct}
    {base : List Char × List Char → Option FileBytes}
    {log : List ((List Char × List Char) × FileBytes)}
    (h : ∀ path, fileAt tree.corpus path = (base path).or (first log path))
    (path : List Char × List Char) :
    fileAt (corpusRun digest tree acts).corpus path =
      (if acts.any cleans then none else base path).or
        (first (syncedFiles digest tree log acts) path) := by
  induction acts generalizing tree base log with
  | nil => exact h path
  | cons act acts ih =>
    rw [corpusRun, List.foldl_cons, List.any_cons]
    cases act with
    | fuzz output => exact ih h
    | cleanAfl => exact ih h
    | aflCorpusSync =>
      refine ih fun path => ?_
      rw [WorkTree.act, synced_fills, h, first_append, Option.or_assoc]
    | cleanCorpus =>
      have hempty : ∀ path, fileAt (tree.act digest .cleanCorpus).corpus path =
          ((fun _ => none) path : Option FileBytes).or (first [] path) := fun _ => rfl
      have hrest := ih hempty
      rw [ite_self] at hrest
      exact hrest

/-- The corpus after any run. A file is what was there in the beginning, unless the corpus was
    cleaned; else it is the first file with this digest that a synchronisation came across
    since the last clean-up. Sessions and clean-ups of `afl-output` make no difference. -/
theorem corpusRun_fileAt (tree : WorkTree) (acts : List TreeAct) (path : List Char × List Char) :
    fileAt (corpusRun digest tree acts).corpus path =
      (if acts.any cleans then none else fileAt tree.corpus path).or
        (first (syncedFiles digest tree [] acts) path) :=
  corpusRun_fileAt_from (fun path => by rw [first_nil, Option.or_none]) path

/-- What is copied is named by its digest. -/
theorem Named.synced {tree : WorkTree} (h : Named digest tree.corpus) :
    Named digest (tree.synced digest) := by
  intro target name bytes hfile
  rw [synced_fills, Option.or_eq_some_iff] at hfile
  cases hfile with
  | inl hold => exact h target name bytes hold
  | inr hnew =>
    obtain ⟨t, inst, f, bytes', _, hitem⟩ :=
      mem_outputItems_iff.mp (mem_of_mem_present (mem_of_first_eq_some hnew.2))
    obtain ⟨hash, hdigest, hpair⟩ := Option.map_eq_some_iff.mp hitem.symm
    obtain ⟨hpath, rfl⟩ := Prod.mk.inj hpair
    obtain ⟨_, rfl⟩ := Prod.mk.inj hpath
    exact ⟨_, hdigest⟩

/-- No action gives a file another name. -/
theorem Named.act {tree : WorkTree} (h : Named digest tree.corpus) (act : TreeAct) :
    Named digest (tree.act digest act).corpus := by
  cases act with
  | fuzz output => exact h
  | aflCorpusSync => exact h.synced
  | cleanAfl => exact h
  | cleanCorpus => exact fun _ _ _ hfile => nomatch hfile

/-- In a corpus named by digests every run keeps to them. -/
theorem Named.corpusRun {tree : WorkTree} (h : Named digest tree.corpus) (acts : List TreeAct) :
    Named digest (corpusRun digest tree acts).corpus := by
  induction acts generalizing tree with
  | nil => exact h
  | cons act acts ih => exact ih (h.act act)

variable (digest) in
/-- A file stays as long as nobody cleans the corpus. -/
theorem corpusRun_keeps_file {tree : WorkTree} {acts : List TreeAct}
    (hkeep : ∀ act ∈ acts, cleans act = false) {path : List Char × List Char} {bytes : FileBytes}
    (h : fileAt tree.corpus path = some bytes) :
    fileAt (corpusRun digest tree acts).corpus path = some bytes := by
  have hnone : acts.any cleans = false := by
    rw [List.any_eq_false]
    exact fun act hact => by rw [hkeep act hact]; exact Bool.false_ne_true
  have hstart : ∀ path, fileAt tree.corpus path = (fileAt tree.corpus path).or (first [] path) :=
    fun path => by rw [first_nil, Option.or_none]
  rw [corpusRun_fileAt_from hstart, hnone, h]
  rfl

/-- No input is lost once it is synchronised. Take any run from a corpus that is named by
    digests, in which a synchronisation completes, and after which nobody cleans the corpus:
    at its end, each file that was in a queue then is in the corpus of its target under its
    digest, whatever happened to `afl-output`; if its contents are not the same, two contents
    with one digest have been found. -/
theorem corpusRun_keeps (tree : WorkTree) (hnamed : Named digest tree.corpus)
    (before after : List TreeAct) (hkeep : ∀ act ∈ after, cleans act = false)
    (hok : (aflCorpusSync digest (corpusRun digest tree before).aflOutput
      (corpusRun digest tree before).corpus).isOk) {t : TargetDir} {inst : InstanceDir}
    {f : QueueEntry} {bytes : FileBytes}
    (hqueued : Queued (corpusRun digest tree before).aflOutput t inst f bytes) :
    ∃ hash kept, digest (queueFile t.name inst.name f.name) bytes = some hash ∧
      fileAt (corpusRun digest tree (before ++ .aflCorpusSync :: after)).corpus (t.name, hash) =
        some kept ∧
      (kept = bytes ∨ Collision digest kept bytes) := by
  have hmid : corpusRun digest tree (before ++ .aflCorpusSync :: after) =
      corpusRun digest ((corpusRun digest tree before).act digest .aflCorpusSync) after := by
    rw [corpusRun, List.foldl_append]
    rfl
  generalize corpusRun digest tree before = mid at hok hqueued hmid
  have hfills := aflCorpusSync_fills digest mid.aflOutput mid.corpus
  obtain ⟨kv, hitem, hthere⟩ := hfills.isSome_of_isOk hok
    (mem_outputItems_iff.mpr ⟨t, inst, f, bytes, hqueued, rfl⟩)
  obtain ⟨hash, hdigest, rfl⟩ := Option.map_eq_some_iff.mp hitem
  obtain ⟨kept, hkept⟩ := Option.isSome_iff_exists.mp hthere
  have hsynced : fileAt (mid.act digest .aflCorpusSync).corpus (t.name, hash) = some kept := by
    rw [WorkTree.act, synced_fills, ← hkept]
    exact (hfills.view_eq (t.name, hash)).symm
  have hend := corpusRun_keeps_file digest hkeep hsynced
  rw [← hmid] at hend
  obtain ⟨path, hpath⟩ := hnamed.corpusRun (before ++ .aflCorpusSync :: after) _ _ _ hend
  exact ⟨hash, kept, hdigest, hend, eq_or_collision hpath hdigest⟩

end Digest

/-! ## A run on one empty input -/

/-- The SHA-1 of the empty file. -/
def emptyDigest (_ : List Char) (bytes : FileBytes) : Option (List Char) :=
  if bytes = [] then some "da39a3ee5e6b4b0d3255bfef95601890afd80709".toList else none

/-- The seed that `afl-fuzz` starts its queue with. -/
def emptyInput : QueueEntry := ⟨"id:000000,time:0,execs:0,orig:seed".toList, some []⟩

/-- The queue of the only instance of a session. -/
def defaultInstance : InstanceDir := ⟨"default".toList, some [emptyInput]⟩

/-- One target with that instance. -/
def merkleTarget : TargetDir := ⟨"fuzz_merkle_tree".toList, [defaultInstance]⟩

/-- What a session of that target leaves. -/
def merkleOutput : AflOutput := ⟨[merkleTarget], List.nodup_singleton _⟩

/-- `clean-afl` after a synchronisation leaves the input in the corpus. -/
theorem corpusRun_keeps_emptyInput :
    ∃ hash kept, emptyDigest (queueFile merkleTarget.name defaultInstance.name emptyInput.name) [] =
        some hash ∧
      fileAt (corpusRun emptyDigest ⟨none, ∅⟩
        ([.fuzz merkleOutput] ++ .aflCorpusSync :: [.cleanAfl])).corpus (merkleTarget.name, hash) =
          some kept ∧
      (kept = [] ∨ Collision emptyDigest kept []) :=
  corpusRun_keeps ⟨none, ∅⟩ (fun _ _ _ hfile => nomatch hfile) [.fuzz merkleOutput] [.cleanAfl]
    (fun act hact => by rw [List.mem_singleton.mp hact]; rfl) rfl
    ⟨⟨List.mem_singleton_self _, rfl, ⟨[emptyInput], rfl, List.mem_singleton_self _⟩, rfl, rfl⟩,
      merkleOutput, rfl, List.mem_singleton_self _⟩

/-- The first synchronisation reports one new input, the second none. -/
theorem aflCorpusSync_reports_emptyInput :
    ∃ run again, aflCorpusSync emptyDigest (some merkleOutput) ∅ = .ok run ∧
      run.out = ["Synced 1 new input(s) → corpus/afl/fuzz_merkle_tree"] ∧
      aflCorpusSync emptyDigest (some merkleOutput) run.corpus = .ok again ∧
      again.out = ["Synced 0 new input(s) → corpus/afl/fuzz_merkle_tree"] := by
  obtain ⟨hout, again, hagain, _, hzero⟩ :=
    aflCorpusSync_reports emptyDigest (some merkleOutput) ∅ rfl
  exact ⟨_, again, rfl, hout, hagain, hzero⟩

end LezFuzzing.Spec
