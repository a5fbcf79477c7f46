import Mathlib

/-!
# Runs of a labelled system

`step s a` is the state after the action `a`, or `none` where `a` is not enabled. A list of
actions is one interleaving, and `run` is the state it leads to. Safety is an invariant of
every step; that a system comes to an end is a measure that the actions use up.

## Key results

- `run_invariant`: what every step keeps holds after every run
- `run_countP_le`: a measure that some actions use up bounds how often a run takes them
- `exists_run_of_progress`: a system that can always move on can be driven to its end
-/

namespace Runs

variable {S A : Type} (step : S → A → Option S)

/-- The state after the actions, each of which is enabled in its turn. -/
def run (acts : List A) (s : S) : Option S := acts.foldlM step s

variable {step}

@[simp] theorem run_nil {s : S} : run step [] s = some s := rfl

theorem run_cons {a : A} {acts : List A} {s : S} :
    run step (a :: acts) s = (step s a).bind (run step acts) := rfl

theorem run_cons_eq_some_iff {a : A} {acts : List A} {s s' : S} :
    run step (a :: acts) s = some s' ↔
      ∃ mid, step s a = some mid ∧ run step acts mid = some s' := by
  rw [run_cons, Option.bind_eq_some_iff]

/-! ## Safety -/

/-- What every step keeps holds after every run. -/
theorem run_invariant {I : S → Prop} (hstep : ∀ s a s', I s → step s a = some s' → I s')
    {acts : List A} {s s' : S} (h : I s) (hrun : run step acts s = some s') : I s' := by
  induction acts generalizing s with
  | nil => exact Option.some.inj hrun ▸ h
  | cons a acts ih =>
    obtain ⟨mid, hfirst, hrest⟩ := run_cons_eq_some_iff.mp hrun
    exact ih (hstep s a mid h hfirst) hrest

/-! ## Termination -/

section Measure

variable {m : S → ℕ}

/-- A measure that some actions use up bounds how often a run takes them. -/
theorem run_countP_le {counts : A → Bool}
    (hpay : ∀ s a s', step s a = some s' → m s' + (if counts a then 1 else 0) ≤ m s)
    {acts : List A} {s s' : S} (hrun : run step acts s = some s') :
    m s' + acts.countP counts ≤ m s := by
  induction acts generalizing s with
  | nil => rw [Option.some.inj hrun]; exact Nat.le_refl _
  | cons a acts ih =>
    obtain ⟨mid, hfirst, hrest⟩ := run_cons_eq_some_iff.mp hrun
    have hpayRest := ih hrest
    have hpayFirst := hpay s a mid hfirst
    rw [List.countP_cons]
    omega

/-- Where some action uses the measure up until the end, some run leads there. -/
theorem exists_run_of_progress {I Done : S → Prop}
    (hkeep : ∀ s a s', I s → step s a = some s' → I s')
    (hmove : ∀ s, I s → ¬ Done s → ∃ a s', step s a = some s' ∧ m s' < m s) {s : S} (h : I s) :
    ∃ acts s', run step acts s = some s' ∧ Done s' := by
  induction hm : m s using Nat.strong_induction_on generalizing s with
  | h n ih =>
    by_cases hdone : Done s
    · exact ⟨[], s, rfl, hdone⟩
    · obtain ⟨a, mid, hfirst, hless⟩ := hmove s h hdone
      obtain ⟨acts, s', hrest, hend⟩ := ih (m mid) (hm ▸ hless) (hkeep s a mid h hfirst) rfl
      exact ⟨a :: acts, s', run_cons_eq_some_iff.mpr ⟨mid, hfirst, hrest⟩, hend⟩

end Measure

end Runs
