import LezFuzzing.ForStd.Runs

/-!
# The job pools (`Justfile`: `fuzz-parallel`, `fuzz-afl-parallel`)

Both recipes launch one background process for each target while fewer than `JOBS` are
running, and then wait for what is left. The shell and its processes take turns in any order:
`script` and `poll` are steps of the shell, `finish` is a process that comes to its end. That
`mkdir` and the shell itself do not fail is taken for granted.
-/

namespace LezFuzzing.Native

inductive PoolRecipe where
  | fuzzParallel
  | fuzzAflParallel
deriving DecidableEq

/-- A background process: its target, and whether it succeeded once it has ended. -/
structure Job (T : Type) where
  target : T
  status : Option Bool
deriving DecidableEq

/-- The line the shell is at. -/
inductive PoolLine where
  /-- the test of the `while` loop for the next target -/
  | test
  /-- behind that loop, in front of the `&` -/
  | launch
  /-- in front of the `wait` for the process with this index -/
  | drain (k : ℕ)
  | exit (code : ℕ)
deriving DecidableEq

structure Pool (T : Type) where
  line : PoolLine
  /-- the targets the `for` loop has not launched, from the current one on -/
  pending : List T
  /-- the processes in the order of `PIDS` -/
  jobs : List (Job T)
  failed : ℕ
deriving DecidableEq

inductive PoolAct where
  /-- `wait -n 2>/dev/null || sleep 0.5` -/
  | poll
  | script
  | finish (i : ℕ) (ok : Bool)
deriving DecidableEq

variable {T : Type}

def Job.running (job : Job T) : Bool := job.status.isNone

/-- `jobs -rp | wc -l` -/
def Pool.running (p : Pool T) : ℕ := p.jobs.countP Job.running

/-- `[ running -ge "JOBS" ]`: a text that is no integer makes the test fail, as a free slot
    does. -/
def noFreeSlot (limit : Option ℤ) (running : ℕ) : Bool :=
  match limit with
  | some j => j ≤ running
  | none => false

def Pool.start (targets : List T) : Pool T :=
  { line := .test, pending := targets, jobs := [], failed := 0 }

/-- `wait "$pid" || failed=$((failed + 1))` -/
def countFailed (failed : ℕ) (ok : Bool) : ℕ := if ok then failed else failed + 1

/-- The next step of the shell, apart from the body of the `while` loop. -/
def Pool.script (recipe : PoolRecipe) (limit : Option ℤ) (p : Pool T) : Option (Pool T) :=
  match p.line, p.pending with
  | .test, [] => some { p with line := .drain 0 }
  | .test, _ :: _ => if noFreeSlot limit p.running then none else some { p with line := .launch }
  | .launch, [] => none
  | .launch, target :: rest =>
    some { p with line := .test, pending := rest, jobs := p.jobs ++ [⟨target, none⟩] }
  | .drain k, _ =>
    match recipe with
    | .fuzzParallel =>
      match p.jobs[k]? with
      | none => some { p with line := .exit (if p.failed = 0 then 0 else 1) }
      | some job => job.status.map fun ok =>
        { p with line := .drain (k + 1), failed := countFailed p.failed ok }
    | .fuzzAflParallel => if p.running = 0 then some { p with line := .exit 0 } else none
  | .exit _, _ => none

/-- The body of the `while` loop changes nothing. -/
def Pool.poll (limit : Option ℤ) (p : Pool T) : Option (Pool T) :=
  match p.line, p.pending with
  | .test, _ :: _ => if noFreeSlot limit p.running then some p else none
  | _, _ => none

def Pool.finish (p : Pool T) (i : ℕ) (ok : Bool) : Option (Pool T) :=
  match p.jobs[i]? with
  | some ⟨target, none⟩ => some { p with jobs := p.jobs.set i ⟨target, some ok⟩ }
  | _ => none

def Pool.step (recipe : PoolRecipe) (limit : Option ℤ) (p : Pool T) : PoolAct → Option (Pool T)
  | .poll => p.poll limit
  | .script => p.script recipe limit
  | .finish i ok => p.finish i ok

end LezFuzzing.Native
