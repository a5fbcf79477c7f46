import LezFuzzing.Native.JobPool

/-!
# The job pools launch every target once and end

`PoolStep` says once what each action does, and `Pool.Inv` and `work` are read off it. The
invariant holds in every interleaving of the shell and its processes; the work is used up by
every action except the polling of a full pool.

## Key results

- `pool_run_sound`: at most `JOBS` at a time, each target once, and the exit code
- `pool_run_terminates`: the pool ends, unless `JOBS` leaves no slot at all
-/

namespace LezFuzzing.Spec

open LezFuzzing.Native

variable {T : Type} {recipe : PoolRecipe} {limit : Option ℤ}

/-- There is no free slot when `JOBS` are running, or more. -/
theorem noFreeSlot_some_iff {j : ℤ} {running : ℕ} :
    noFreeSlot (some j) running = true ↔ j ≤ running := decide_eq_true_iff

/-- A slot is free while fewer are running. -/
theorem noFreeSlot_some_eq_false_iff {j : ℤ} {running : ℕ} :
    noFreeSlot (some j) running = false ↔ (running : ℤ) < j := by
  rw [Bool.eq_false_iff, Ne, noFreeSlot_some_iff, not_le]

/-! ## What each action does -/

/-- One step of a pool. -/
inductive PoolStep (recipe : PoolRecipe) (limit : Option ℤ) : Pool T → PoolAct → Pool T → Prop
  | poll {target : T} {rest : List T} {jobs : List (Job T)} {failed : ℕ} :
    noFreeSlot limit (jobs.countP Job.running) = true →
    PoolStep recipe limit ⟨.test, target :: rest, jobs, failed⟩ .poll
      ⟨.test, target :: rest, jobs, failed⟩
  | slot {target : T} {rest : List T} {jobs : List (Job T)} {failed : ℕ} :
    noFreeSlot limit (jobs.countP Job.running) = false →
    PoolStep recipe limit ⟨.test, target :: rest, jobs, failed⟩ .script
      ⟨.launch, target :: rest, jobs, failed⟩
  | launch {target : T} {rest : List T} {jobs : List (Job T)} {failed : ℕ} :
    PoolStep recipe limit ⟨.launch, target :: rest, jobs, failed⟩ .script
      ⟨.test, rest, jobs ++ [⟨target, none⟩], failed⟩
  | launched {jobs : List (Job T)} {failed : ℕ} :
    PoolStep recipe limit ⟨.test, [], jobs, failed⟩ .script ⟨.drain 0, [], jobs, failed⟩
  | drain {k : ℕ} {pending : List T} {jobs : List (Job T)} {failed : ℕ} {target : T} {ok : Bool} :
    recipe = .fuzzParallel → jobs[k]? = some ⟨target, some ok⟩ →
    PoolStep recipe limit ⟨.drain k, pending, jobs, failed⟩ .script
      ⟨.drain (k + 1), pending, jobs, countFailed failed ok⟩
  | summary {k : ℕ} {pending : List T} {jobs : List (Job T)} {failed : ℕ} :
    recipe = .fuzzParallel → jobs.length ≤ k →
    PoolStep recipe limit ⟨.drain k, pending, jobs, failed⟩ .script
      ⟨.exit (if failed = 0 then 0 else 1), pending, jobs, failed⟩
  | waited {k : ℕ} {pending : List T} {jobs : List (Job T)} {failed : ℕ} :
    recipe = .fuzzAflParallel → jobs.countP Job.running = 0 →
    PoolStep recipe limit ⟨.drain k, pending, jobs, failed⟩ .script ⟨.exit 0, pending, jobs, failed⟩
  | finish {line : PoolLine} {pending : List T} {jobs : List (Job T)} {failed i : ℕ} {target : T}
      {ok : Bool} :
    jobs[i]? = some ⟨target, none⟩ →
    PoolStep recipe limit ⟨line, pending, jobs, failed⟩ (.finish i ok)
      ⟨line, pending, jobs.set i ⟨target, some ok⟩, failed⟩

/-- The shell polls in front of a target, while there is no slot. -/
theorem poolStep_of_poll {p p' : Pool T} (h : p.poll limit = some p') :
    PoolStep recipe limit p .poll p' := by
  obtain ⟨line, pending, jobs, failed⟩ := p
  cases line <;> cases pending <;> simp only [Pool.poll] at h <;> try cases h
  split at h
  · cases h; exact .poll ‹_›
  · cases h

/-- The other steps of the shell. -/
theorem poolStep_of_script {p p' : Pool T} (h : p.script recipe limit = some p') :
    PoolStep recipe limit p .script p' := by
  obtain ⟨line, pending, jobs, failed⟩ := p
  cases line with
  | test =>
    cases pending with
    | nil => cases h; exact .launched
    | cons target rest =>
      simp only [Pool.script] at h
      split at h
      · cases h
      · cases h; exact .slot (Bool.eq_false_iff.mpr ‹_›)
  | launch =>
    cases pending with
    | nil => cases h
    | cons target rest => cases h; exact .launch
  | drain k =>
    cases recipe with
    | fuzzParallel =>
      simp only [Pool.script] at h
      split at h
      · cases h; exact .summary rfl (List.getElem?_eq_none_iff.mp ‹_›)
      · obtain ⟨ok, hok, heq⟩ := Option.map_eq_some_iff.mp h
        cases heq
        rename_i job hjob
        have hended : job = ⟨job.target, some ok⟩ := by rw [← hok]
        exact .drain rfl (hjob.trans (congrArg some hended))
    | fuzzAflParallel =>
      simp only [Pool.script] at h
      split at h
      · cases h; exact .waited rfl ‹_›
      · cases h
  | exit code => cases h

/-- Only a running process comes to its end. -/
theorem poolStep_of_finish {p p' : Pool T} {i : ℕ} {ok : Bool} (h : p.finish i ok = some p') :
    PoolStep recipe limit p (.finish i ok) p' := by
  obtain ⟨line, pending, jobs, failed⟩ := p
  unfold Pool.finish at h
  split at h
  · cases h; exact .finish ‹_›
  · cases h

/-- Every step of a pool is one of these. -/
theorem poolStep_of_step {p p' : Pool T} {a : PoolAct} (h : p.step recipe limit a = some p') :
    PoolStep recipe limit p a p' := by
  cases a with
  | poll => exact poolStep_of_poll h
  | script => exact poolStep_of_script h
  | finish i ok => exact poolStep_of_finish h

/-! ## The invariant -/

/-- A process that has ended without success. -/
def hasFailed (job : Job T) : Bool := job.status == some false

/-- The first `k` processes have ended, and `failed` counts those among them that failed. -/
structure Drained (p : Pool T) (k : ℕ) : Prop where
  le_length : k ≤ p.jobs.length
  ended : (p.jobs.take k).countP Job.running = 0
  failed_eq : p.failed = (p.jobs.take k).countP hasFailed

/-- What holds between any two actions. -/
structure PoolInv (recipe : PoolRecipe) (limit : Option ℤ) (targets : List T) (p : Pool T) :
    Prop where
  launched : p.jobs.map Job.target ++ p.pending = targets
  bounded : ∀ j, limit = some j → (p.running : ℤ) ≤ max j 0
  launching : p.line = .launch → p.pending ≠ [] ∧ noFreeSlot limit p.running = false
  counting : p.line = .test ∨ p.line = .launch → p.failed = 0
  draining : ∀ k, p.line = .drain k → p.pending = [] ∧ Drained p k
  exited : ∀ code, p.line = .exit code → p.pending = [] ∧ p.running = 0 ∧
    (recipe = .fuzzParallel → p.failed = p.jobs.countP hasFailed ∧
      code = if p.failed = 0 then 0 else 1)

/-- It holds at the start. -/
theorem poolInv_start (targets : List T) : PoolInv recipe limit targets (Pool.start targets) where
  launched := rfl
  bounded := fun j _ => le_max_right j 0
  launching := nofun
  counting := fun _ => rfl
  draining := nofun
  exited := nofun

/-- A free slot stays free when fewer are running. -/
theorem noFreeSlot_of_le {n m : ℕ} (hle : n ≤ m) (h : noFreeSlot limit m = false) :
    noFreeSlot limit n = false := by
  cases limit with
  | none => rfl
  | some j =>
    rw [noFreeSlot_some_eq_false_iff] at h ⊢
    omega

/-- The processes when the one at `i` ends. -/
theorem countP_running_set {jobs : List (Job T)} {i : ℕ} {target : T} {ok : Bool}
    (hi : jobs[i]? = some ⟨target, none⟩) :
    (jobs.set i ⟨target, some ok⟩).countP Job.running + 1 = jobs.countP Job.running := by
  obtain ⟨hlt, hget⟩ := List.getElem?_eq_some_iff.mp hi
  have hpos : 0 < jobs.countP Job.running :=
    List.countP_pos_iff.mpr ⟨_, List.getElem_mem hlt, by rw [hget]; rfl⟩
  rw [List.countP_set hlt, hget]
  simp only [Job.running, Option.isNone_none, Option.isNone_some, if_true, Bool.false_eq_true,
    if_false]
  omega

/-- A process that ends keeps its target. -/
theorem map_target_set {jobs : List (Job T)} {i : ℕ} {target : T} {status status' : Option Bool}
    (hi : jobs[i]? = some ⟨target, status⟩) :
    (jobs.set i ⟨target, status'⟩).map Job.target = jobs.map Job.target := by
  obtain ⟨hlt, hget⟩ := List.getElem?_eq_some_iff.mp hi
  have hlt' : i < (jobs.map Job.target).length := by rwa [List.length_map]
  have htarget : (jobs.map Job.target)[i] = target := by rw [List.getElem_map, hget]
  rw [List.map_set]
  change (jobs.map Job.target).set i target = _
  rw [← htarget, List.set_getElem_self]

/-- An ended process in the list of those that are drained. -/
theorem drained_succ {p : Pool T} {k : ℕ} {target : T} {ok : Bool} (h : Drained p k)
    (hk : p.jobs[k]? = some ⟨target, some ok⟩) :
    Drained { p with line := .drain (k + 1), failed := countFailed p.failed ok } (k + 1) := by
  obtain ⟨hlt, hget⟩ := List.getElem?_eq_some_iff.mp hk
  have htake : p.jobs.take (k + 1) = p.jobs.take k ++ [⟨target, some ok⟩] := by
    rw [List.take_succ_eq_append_getElem hlt, hget]
  refine ⟨hlt, ?_, ?_⟩
  · simp only [htake, List.countP_append, h.ended]
    rfl
  · simp only [htake, List.countP_append, ← h.failed_eq]
    cases ok <;> rfl

/-- A running process is not among the drained ones. -/
theorem drained_set {p : Pool T} {k i : ℕ} {target : T} {ok : Bool} (h : Drained p k)
    (hi : p.jobs[i]? = some ⟨target, none⟩) :
    Drained { p with jobs := p.jobs.set i ⟨target, some ok⟩ } k := by
  obtain ⟨hlt, hget⟩ := List.getElem?_eq_some_iff.mp hi
  have hle : k ≤ i := by
    by_contra hik
    have hmem : (⟨target, none⟩ : Job T) ∈ p.jobs.take k :=
      List.mem_take_iff_getElem.mpr ⟨i, by omega, hget⟩
    exact absurd (List.countP_eq_zero.mp h.ended _ hmem) (by simp [Job.running])
  have htake : (p.jobs.set i ⟨target, some ok⟩).take k = p.jobs.take k := List.take_set_of_le hle
  exact ⟨by simpa using h.le_length, by simpa only [htake] using h.ended,
    by simpa only [htake] using h.failed_eq⟩

/-- Every action keeps the invariant. -/
theorem poolInv_step {targets : List T} {p p' : Pool T} {a : PoolAct}
    (h : PoolInv recipe limit targets p) (hstep : p.step recipe limit a = some p') :
    PoolInv recipe limit targets p' := by
  cases poolStep_of_step hstep with
  | poll => exact h
  | slot hfree =>
    exact ⟨h.launched, h.bounded, fun _ => ⟨List.cons_ne_nil _ _, hfree⟩,
      fun _ => h.counting (.inl rfl), nofun, nofun⟩
  | launch =>
    rename_i target rest jobs failed
    obtain ⟨_, hfree⟩ := h.launching rfl
    refine ⟨by simpa using h.launched, ?_, nofun, fun _ => h.counting (.inr rfl), nofun, nofun⟩
    -- the slot that the shell has seen free is still free
    rintro j rfl
    have hless := noFreeSlot_some_eq_false_iff.mp hfree
    have hrunning : Pool.running ⟨.test, rest, jobs ++ [⟨target, none⟩], failed⟩ =
        Pool.running ⟨.launch, target :: rest, jobs, failed⟩ + 1 := List.countP_append
    rw [hrunning]
    omega
  | launched =>
    refine ⟨h.launched, h.bounded, nofun, by simp, ?_, nofun⟩
    rintro k hk
    cases hk
    exact ⟨rfl, Nat.zero_le _, rfl, h.counting (.inl rfl)⟩
  | drain _ hjob =>
    obtain ⟨hnil, hdrained⟩ := h.draining _ rfl
    refine ⟨h.launched, h.bounded, nofun, by simp, ?_, nofun⟩
    rintro k hk
    cases hk
    exact ⟨hnil, drained_succ hdrained hjob⟩
  | summary hrecipe hlen =>
    obtain ⟨hnil, hdrained⟩ := h.draining _ rfl
    -- all processes are among the drained ones now
    have hended := hdrained.ended
    have hfailed := hdrained.failed_eq
    rw [List.take_of_length_le hlen] at hended hfailed
    refine ⟨h.launched, h.bounded, nofun, by simp, nofun, ?_⟩
    rintro code hcode
    cases hcode
    exact ⟨hnil, hended, fun _ => ⟨hfailed, rfl⟩⟩
  | waited hrecipe hzero =>
    obtain ⟨hnil, _⟩ := h.draining _ rfl
    exact ⟨h.launched, h.bounded, nofun, by simp, nofun,
      fun code _ => ⟨hnil, hzero, fun hother => nomatch hrecipe.symm.trans hother⟩⟩
  | finish hi =>
    rename_i line pending jobs failed i target ok
    have hless : Pool.running ⟨line, pending, jobs.set i ⟨target, some ok⟩, failed⟩ + 1 =
        Pool.running ⟨line, pending, jobs, failed⟩ := countP_running_set hi
    refine ⟨by simpa only [map_target_set hi] using h.launched, fun j hj => ?_, fun hline => ?_,
      h.counting, fun k hline => ?_, fun code hline => ?_⟩
    · -- one process fewer is running
      have := h.bounded j hj
      omega
    · obtain ⟨hpending, hfree⟩ := h.launching hline
      exact ⟨hpending, noFreeSlot_of_le (by omega) hfree⟩
    · obtain ⟨hnil, hdrained⟩ := h.draining k hline
      exact ⟨hnil, drained_set hdrained hi⟩
    · -- nothing is running any more once the shell has exited
      obtain ⟨_, hzero, _⟩ := h.exited code hline
      omega

/-- The invariant holds after any actions in any order. -/
theorem poolInv_run {targets : List T} {acts : List PoolAct} {p : Pool T}
    (hrun : Runs.run (Pool.step recipe limit) acts (Pool.start targets) = some p) :
    PoolInv recipe limit targets p :=
  Runs.run_invariant (fun _ _ _ => poolInv_step) (poolInv_start targets) hrun

/-! ## The work that is left -/

/-- The actions ahead, without the polls: two launch a target, one ends it, one drains it. -/
def work (p : Pool T) : ℕ :=
  match p.line with
  | .test => 4 * p.pending.length + p.jobs.length + p.running + 2
  | .launch => 4 * p.pending.length + p.jobs.length + p.running + 1
  | .drain k => (p.jobs.length - k) + p.running + 1
  | .exit _ => p.running

/-- Every action but the polling of a full pool. -/
def moves : PoolAct → Bool
  | .poll => false
  | .script => true
  | .finish _ _ => true

/-- An action other than polling uses up work, and polling adds none. -/
theorem work_step {p p' : Pool T} {a : PoolAct} (hstep : p.step recipe limit a = some p') :
    work p' + (if moves a then 1 else 0) ≤ work p := by
  cases poolStep_of_step hstep with
  | poll => exact Nat.le_refl _
  | slot => exact Nat.le_refl _
  | launch =>
    simp only [work, Pool.running, moves, List.length_append, List.length_cons,
      List.countP_append, List.countP_singleton, Job.running, Option.isNone_none, if_true,
      List.length_nil]
    omega
  | launched => simp only [work, Pool.running, moves, if_true, List.length_nil]; omega
  | drain _ hjob =>
    obtain ⟨hlt, _⟩ := List.getElem?_eq_some_iff.mp hjob
    simp only [work, Pool.running, moves, if_true]
    omega
  | summary => simp only [work, Pool.running, moves, if_true]; omega
  | waited => simp only [work, Pool.running, moves, if_true]; omega
  | finish hi =>
    rename_i line pending jobs failed i target ok
    have hless := @countP_running_set T jobs i target ok hi
    cases line <;> simp only [work, Pool.running, moves, if_true, List.length_set] <;> omega

/-- A running process can end, in success or not. -/
theorem exists_finish {p : Pool T} (h : 0 < p.running) :
    ∃ i, ∀ ok, (p.step recipe limit (.finish i ok)).isSome := by
  obtain ⟨job, hmem, hrunning⟩ := List.countP_pos_iff.mp h
  obtain ⟨i, hi⟩ := List.mem_iff_getElem?.mp hmem
  obtain ⟨target, status⟩ := job
  obtain rfl : status = none := Option.isNone_iff_eq_none.mp hrunning
  exact ⟨i, fun ok => by simp only [Pool.step, Pool.finish, hi, Option.isSome_some]⟩

/-- The shell only waits for processes that are running. -/
theorem script_or_running {targets : List T} {p : Pool T} (h : PoolInv recipe limit targets p)
    (hlimit : ∀ j, limit = some j → 0 < j) (hexit : ∀ code, p.line ≠ .exit code) :
    (p.step recipe limit .script).isSome ∨ 0 < p.running := by
  obtain ⟨line, pending, jobs, failed⟩ := p
  cases line with
  | test =>
    cases pending with
    | nil => exact .inl rfl
    | cons target rest =>
      cases hfree : noFreeSlot limit (jobs.countP Job.running) with
      | false => exact .inl (by simp [Pool.step, Pool.script, Pool.running, hfree])
      | true =>
        -- the shell polls, and there is a process to wait for
        cases limit with
        | none => cases hfree
        | some j =>
          have hfull := noFreeSlot_some_iff.mp hfree
          have hpos := hlimit j rfl
          exact .inr (by simp only [Pool.running]; omega)
  | launch =>
    cases pending with
    | nil => exact absurd rfl (h.launching rfl).1
    | cons target rest => exact .inl rfl
  | drain k =>
    rcases Nat.eq_zero_or_pos (jobs.countP Job.running) with hzero | hpos
    · -- all have ended, so `wait` returns at once
      refine .inl ?_
      cases recipe with
      | fuzzParallel =>
        cases hk : jobs[k]? with
        | none => simp only [Pool.step, Pool.script, hk, Option.isSome_some]
        | some job =>
          have hended := List.countP_eq_zero.mp hzero job (List.mem_of_getElem? hk)
          obtain ⟨target, _ | ok⟩ := job
          · exact absurd rfl hended
          · simp only [Pool.step, Pool.script, hk, Option.map_some, Option.isSome_some]
      | fuzzAflParallel => simp [Pool.step, Pool.script, Pool.running, hzero]
    · exact .inr hpos
  | exit code => exact absurd rfl (hexit code)

/-- Some action other than polling is always enabled. -/
theorem exists_step_work_lt {targets : List T} {p : Pool T} (h : PoolInv recipe limit targets p)
    (hlimit : ∀ j, limit = some j → 0 < j) (hexit : ∀ code, p.line ≠ .exit code) :
    ∃ a p', p.step recipe limit a = some p' ∧ work p' < work p := by
  rcases script_or_running h hlimit hexit with hscript | hrunning
  · obtain ⟨p', hstep⟩ := Option.isSome_iff_exists.mp hscript
    exact ⟨.script, p', hstep, work_step hstep⟩
  · obtain ⟨i, hfinish⟩ := @exists_finish T recipe limit p hrunning
    obtain ⟨p', hstep⟩ := Option.isSome_iff_exists.mp (hfinish true)
    exact ⟨.finish i true, p', hstep, work_step hstep⟩

/-- Without a slot nothing ever starts. -/
theorem step_start_of_nonpos {j : ℤ} (hj : j ≤ 0) {targets : List T} (hne : targets ≠ [])
    {a : PoolAct} {p : Pool T}
    (hstep : (Pool.start targets).step recipe (some j) a = some p) : p = Pool.start targets := by
  cases targets with
  | nil => exact absurd rfl hne
  | cons target rest =>
    cases poolStep_of_step hstep with
    | poll => rfl
    | slot hfree =>
      have := noFreeSlot_some_eq_false_iff.mp hfree
      simp at this
      omega
    | finish hi => cases hi

/-! ## The pools -/

/-- In every interleaving: the targets launched so far and those that wait make up the list
    of targets, never more than `JOBS` processes run at once, the shell only polls while all
    slots are taken, and when it exits every target has been run to its end. `fuzz-parallel`
    then exits with 0 exactly when all of them have succeeded. -/
theorem pool_run_sound (recipe : PoolRecipe) (limit : Option ℤ) (targets : List T)
    (acts : List PoolAct) (p : Pool T)
    (hrun : Runs.run (Pool.step recipe limit) acts (Pool.start targets) = some p) :
    p.jobs.map Job.target ++ p.pending = targets ∧
      (∀ j, limit = some j → (p.running : ℤ) ≤ max j 0) ∧
      (∀ p', p.step recipe limit .poll = some p' →
        p' = p ∧ ∃ j, limit = some j ∧ (p.running : ℤ) = max j 0) ∧
      ∀ code, p.line = .exit code →
        p.jobs.map Job.target = targets ∧ (∀ job ∈ p.jobs, job.status.isSome) ∧
          (recipe = .fuzzParallel → p.failed = p.jobs.countP hasFailed ∧
            (code = 0 ↔ ∀ job ∈ p.jobs, job.status = some true)) := by
  have h := poolInv_run hrun
  refine ⟨h.launched, h.bounded, fun p' hpoll => ?_, fun code hcode => ?_⟩
  · cases poolStep_of_step hpoll with
    | poll hfull =>
      cases limit with
      | none => cases hfull
      | some j =>
        have hge := noFreeSlot_some_iff.mp hfull
        have hle := h.bounded j rfl
        refine ⟨rfl, j, rfl, ?_⟩
        simp only [Pool.running] at hle ⊢
        omega
  · obtain ⟨hnil, hzero, hcount⟩ := h.exited code hcode
    have hended (job : Job T) (hmem : job ∈ p.jobs) : job.status.isSome := by
      have hnot := List.countP_eq_zero.mp hzero job hmem
      rwa [Job.running, Bool.not_eq_true, Option.isNone_eq_false_iff] at hnot
    refine ⟨by simpa only [hnil, List.append_nil] using h.launched, hended, fun hrecipe => ?_⟩
    obtain ⟨hfailed, rfl⟩ := hcount hrecipe
    refine ⟨hfailed, ?_⟩
    rw [ite_eq_left_iff, hfailed]
    simp only [Nat.one_ne_zero, imp_false, not_not, List.countP_eq_zero]
    refine forall₂_congr fun job hmem => ?_
    obtain ⟨ok, hok⟩ := Option.isSome_iff_exists.mp (hended job hmem)
    cases ok <;> simp [hasFailed, hok]

/-- Two targets and one slot: the shell polls once, the first target fails, the second does
    not. -/
def singleSlotRun : List PoolAct :=
  [.script, .script, .poll, .finish 0 false, .script, .script, .script, .finish 1 true, .script,
    .script, .script]

/-- The exit code is 1, as the first target has failed. -/
theorem run_singleSlotRun :
    Runs.run (Pool.step .fuzzParallel (some 1)) singleSlotRun (Pool.start [7, 8]) =
      some ⟨.exit 1, [], [⟨7, some false⟩, ⟨8, some true⟩], 1⟩ := rfl

/-- An exit code other than 0 means that not all of them have succeeded. -/
theorem pool_run_sound_single_slot :
    ((1 : ℕ) = 0 ↔ ∀ job ∈ ([⟨7, some false⟩, ⟨8, some true⟩] : List (Job ℕ)),
      job.status = some true) :=
  (((pool_run_sound .fuzzParallel (some 1) [7, 8] singleSlotRun _
    run_singleSlotRun).2.2.2 1 rfl).2.2 rfl).2

/-- Every run takes at most four actions for each target and two for the end, polls apart.
    With a slot it can always be brought to its end; without one it never gets past the
    first target. -/
theorem pool_run_terminates (recipe : PoolRecipe) (limit : Option ℤ) (targets : List T)
    (acts : List PoolAct) (p : Pool T)
    (hrun : Runs.run (Pool.step recipe limit) acts (Pool.start targets) = some p) :
    acts.countP moves ≤ 4 * targets.length + 2 ∧
      ((∀ j, limit = some j → 0 < j) →
        ((∀ code, p.line ≠ .exit code) → (p.step recipe limit .script).isSome ∨
          ∃ i, ∀ ok, (p.step recipe limit (.finish i ok)).isSome) ∧
        ∃ acts' p' code, Runs.run (Pool.step recipe limit) acts' p = some p' ∧
          p'.line = .exit code) ∧
      ∀ j, limit = some j → j ≤ 0 → targets ≠ [] → p = Pool.start targets := by
  have h := poolInv_run hrun
  refine ⟨?_, fun hlimit => ⟨fun hexit => ?_, ?_⟩, ?_⟩
  · -- the work at the start pays for every action but the polls
    have hpay (p : Pool T) (a : PoolAct) (p' : Pool T)
        (hstep : p.step recipe limit a = some p') : work p' + (if moves a then 1 else 0) ≤ work p :=
      work_step hstep
    have hcount := Runs.run_countP_le hpay hrun
    have hwork : work (Pool.start targets) = 4 * targets.length + 2 := rfl
    omega
  · exact (script_or_running h hlimit hexit).imp_right exists_finish
  · obtain ⟨acts', p', hrun', code, hcode⟩ := Runs.exists_run_of_progress
      (I := PoolInv recipe limit targets) (m := work) (fun _ _ _ => poolInv_step)
      (fun p h hexit => exists_step_work_lt h hlimit (not_exists.mp hexit)) h
    exact ⟨acts', p', code, hrun', hcode⟩
  · -- without a slot the start is all there is
    rintro j rfl hj hne
    exact Runs.run_invariant (I := (· = Pool.start targets))
      (fun s a s' hs hstep => step_start_of_nonpos hj hne (hs ▸ hstep)) rfl hrun

/-- Its ten actions besides the poll are all that two targets allow. -/
theorem pool_run_terminates_single_slot : singleSlotRun.countP moves ≤ 4 * [7, 8].length + 2 :=
  (pool_run_terminates .fuzzParallel (some 1) [7, 8] singleSlotRun _ run_singleSlotRun).1

end LezFuzzing.Spec
