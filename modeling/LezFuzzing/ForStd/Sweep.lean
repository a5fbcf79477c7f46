import LezFuzzing.ForStd.Drive
import LezFuzzing.ForStd.Range

/-!
# An asserting program over all its inputs

A program that draws values and asserts something of them is run on one input at a time. What
it asserts over all of them is a proposition without inputs, which `Sweeps` attaches to it:
the program returns on every input exactly when `Q` holds. The ranges of the draws turn into
the quantifiers of `Q`.

For the rules to compose, a program that can return must be able to leave any input over.

## Key results

- `Sweeps.fails_iff`: a wrong assertion is found by some input
- `Sweeps.seq`: what two programs in a row assert
- `sweeps_bind`: a draw that always returns becomes a quantifier over its range
- `sweeps_attempt_bind`: so does one that may fail, if nothing is asserted then
- `drive_ensures_runSteps`, `drive_reaches_of_runSteps`: what a loop of draws leads to
-/

namespace Gen

variable {σ ε ε' α : Type}

/-- The program returns on every input exactly when `Q`, and then with any input left over. -/
structure Sweeps (g : Gen σ ε Unit) (Q : Prop) : Prop where
  succeeds_iff : g.Succeeds ↔ Q
  reaches : Q → g.Reaches ()

theorem Sweeps.congr {g : Gen σ ε Unit} {P Q : Prop} (h : g.Sweeps P) (hPQ : P ↔ Q) :
    g.Sweeps Q where
  succeeds_iff := h.succeeds_iff.trans hPQ
  reaches hq := h.reaches (hPQ.mpr hq)

theorem not_succeeds_iff {g : Gen σ ε α} : ¬ g.Succeeds ↔ ∃ s e s', g s = (.error e, s') := by
  rw [Succeeds, not_forall]
  refine exists_congr fun s => ?_
  cases hrun : g s with
  | mk result s' =>
    cases result with
    | ok a => exact iff_of_false (fun h => h ⟨a, s', rfl⟩) nofun
    | error e => exact iff_of_true nofun ⟨e, s', rfl⟩

/-- The program fails on some input exactly when what it asserts is wrong. -/
theorem Sweeps.fails_iff {g : Gen σ ε Unit} {Q : Prop} (h : g.Sweeps Q) :
    (∃ s e s', g s = (.error e, s')) ↔ ¬ Q := by
  rw [← not_succeeds_iff, h.succeeds_iff]

theorem sweeps_pure : (pure () : Gen σ ε Unit).Sweeps True where
  succeeds_iff := iff_of_true succeeds_pure trivial
  reaches _ := reaches_pure

/-- Assertions without draws. -/
theorem sweeps_lift [Nonempty σ] {hard : ε' → ε} {x : Except ε' Unit} :
    (lift hard x : Gen σ ε Unit).Sweeps x.Returns := by
  cases x with
  | error e =>
    refine ⟨iff_of_false (fun h => ?_) (Except.not_returns_error e),
      fun hreturns => absurd hreturns (Except.not_returns_error e)⟩
    obtain ⟨_, _, hrun⟩ := h (Classical.arbitrary σ)
    exact nomatch (Prod.mk.inj hrun).1
  | ok a => exact ⟨iff_of_true (fun s => ⟨a, s, rfl⟩) ⟨a, rfl⟩, fun _ rest => ⟨rest, rfl⟩⟩

/-- Two programs in a row: the second runs on whatever the first leaves over. -/
theorem Sweeps.seq {g h : Gen σ ε Unit} {P Q : Prop} (hg : g.Sweeps P) (hh : h.Sweeps Q) :
    (g >>= fun _ => h).Sweeps (P ∧ Q) where
  succeeds_iff := by
    constructor
    · intro hseq
      have hp : P := hg.succeeds_iff.mp fun s => by
        obtain ⟨_, _, hrun⟩ := hseq s
        obtain ⟨a, mid, hfirst, _⟩ := exists_of_bind_eq_ok hrun
        exact ⟨a, mid, hfirst⟩
      refine ⟨hp, hh.succeeds_iff.mp fun rest => ?_⟩
      obtain ⟨s, hfirst⟩ := hg.reaches hp rest
      obtain ⟨b, s', hrun⟩ := hseq s
      exact ⟨b, s', (bind_of_eq_ok hfirst).symm.trans hrun⟩
    · rintro ⟨hp, hq⟩
      exact succeeds_bind (hg.succeeds_iff.mpr hp) fun _ => hh.succeeds_iff.mpr hq
  reaches h := reaches_bind (hg.reaches h.1) (hh.reaches h.2)

/-- A draw that always returns, whose values outside of `P` meet no assertion. -/
theorem sweeps_bind {g : Gen σ ε α} {k : α → Gen σ ε Unit} {P Q : α → Prop} (hg : g.Succeeds)
    (hensures : g.Ensures fun a => P a ∨ (k a).Succeeds) (hreach : ∀ a, P a → g.Reaches a)
    (hne : ∃ a, P a) (hk : ∀ a, P a → (k a).Sweeps (Q a)) :
    (g >>= k).Sweeps (∀ a, P a → Q a) where
  succeeds_iff := by
    constructor
    · refine fun hseq a ha => (hk a ha).succeeds_iff.mp fun rest => ?_
      obtain ⟨s, hfirst⟩ := hreach a ha rest
      obtain ⟨b, s', hrun⟩ := hseq s
      exact ⟨b, s', (bind_of_eq_ok hfirst).symm.trans hrun⟩
    · intro hq s
      obtain ⟨a, mid, hfirst⟩ := hg s
      rw [bind_of_eq_ok hfirst]
      rcases hensures s a mid hfirst with ha | hsucceeds
      · exact (hk a ha).succeeds_iff.mpr (hq a ha) mid
      · exact hsucceeds mid
  reaches hq := by
    obtain ⟨a, ha⟩ := hne
    exact reaches_bind (hreach a ha) ((hk a ha).reaches (hq a ha))

/-- A draw that always returns. -/
theorem sweeps_draw {g : Gen σ ε α} {k : α → Gen σ ε Unit} {P Q : α → Prop} (hg : g.Succeeds)
    (hrange : g.HasRange P) (hne : ∃ a, P a) (hk : ∀ a, P a → (k a).Sweeps (Q a)) :
    (g >>= k).Sweeps (∀ a, P a → Q a) :=
  sweeps_bind hg (fun s a s' hrun => .inl (hrange.ensures s a s' hrun)) (fun _ => hrange.reaches)
    hne hk

/-- A draw that may fail softly, in which case nothing is asserted. -/
theorem sweeps_attempt_bind {soft : ε → Bool} {g : Gen σ ε α} {k : Option α → Gen σ ε Unit}
    {P Q : α → Prop} (hrange : g.HasRange P) (hfails : g.FailsWith fun e => soft e = true)
    (hne : ∃ a, P a) (hnone : (k none).Succeeds) (hk : ∀ a, P a → (k (some a)).Sweeps (Q a)) :
    (attempt soft g >>= k).Sweeps (∀ a, P a → Q a) := by
  have hensures : (attempt soft g).Ensures fun o =>
      (∃ a, o = some a ∧ P a) ∨ (k o).Succeeds := by
    intro s o s' hrun
    cases hfirst : g s with
    | mk result mid =>
      cases result with
      | ok a =>
        rw [attempt_of_eq_ok hfirst] at hrun
        obtain rfl := Except.ok.inj (Prod.mk.inj hrun).1
        exact .inl ⟨a, rfl, hrange.ensures s a mid hfirst⟩
      | error e =>
        rw [attempt_of_eq_error (hfails s e mid hfirst) hfirst] at hrun
        obtain rfl := Except.ok.inj (Prod.mk.inj hrun).1
        exact .inr hnone
  have hreach (o : Option α) (ho : ∃ a, o = some a ∧ P a) : (attempt soft g).Reaches o := by
    obtain ⟨a, rfl, ha⟩ := ho
    intro rest
    obtain ⟨s, hrun⟩ := hrange.reaches ha rest
    exact ⟨s, attempt_of_eq_ok hrun⟩
  obtain ⟨a₀, ha₀⟩ := hne
  refine (sweeps_bind (Q := fun o => ∀ a, o = some a → Q a) (attempt_succeeds hfails) hensures
    hreach ⟨some a₀, a₀, rfl, ha₀⟩ ?_).congr ?_
  · rintro _ ⟨a, rfl, ha⟩
    exact (hk a ha).congr ⟨fun hq b hb => Option.some.inj hb ▸ hq, fun hq => hq a rfl⟩
  · constructor
    · exact fun hq a ha => hq (some a) ⟨a, rfl, ha⟩ a rfl
    · rintro hq _ ⟨a, rfl, ha⟩ b hb
      obtain rfl := Option.some.inj hb
      exact hq a ha

/-! ## Loops of draws -/

section Loops

variable {S : Type} {soft : ε → Bool} {hard : ε' → ε} {g : Gen σ ε α}
  {body : ℕ → S → α → Except ε' S}

/-- A driver ends in what its steps make of at most `n` values. -/
theorem drive_ensures_runSteps {P : α → Prop} (hg : g.Ensures P) {n k : ℕ} {state : S} :
    (drive soft hard (fun _ => g) body n k state).Ensures fun state' =>
      ∃ as, as.length ≤ n ∧ (∀ a ∈ as, P a) ∧ runSteps body k state as = .ok state' := by
  induction n generalizing k state with
  | zero => exact ensures_pure ⟨[], Nat.le_refl 0, nofun, rfl⟩
  | succ n ih =>
    intro s state' s' hrun
    obtain ⟨o, mid, hfirst, hrest⟩ := exists_of_bind_eq_ok hrun
    cases o with
    | none =>
      obtain rfl := Except.ok.inj (Prod.mk.inj hrest).1
      exact ⟨[], Nat.zero_le _, nofun, rfl⟩
    | some a =>
      obtain ⟨next, mid', hlift, hloop⟩ := exists_of_bind_eq_ok hrest
      have hstep := exists_lift_eq_ok_iff.mp ⟨mid', hlift⟩
      obtain ⟨as, hlen, has, hsteps⟩ := ih mid' state' s' hloop
      refine ⟨a :: as, Nat.succ_le_succ hlen, List.forall_mem_cons.mpr ⟨?_, has⟩, ?_⟩
      · exact hg s a mid (eq_ok_of_attempt_eq_some hfirst)
      · rw [runSteps, hstep]
        exact hsteps

/-- It can end in what its steps make of any values that can be drawn. -/
theorem drive_reaches_of_runSteps {as : List α} (has : ∀ a ∈ as, g.Reaches a) {k : ℕ}
    {state state' : S} (hsteps : runSteps body k state as = .ok state') :
    (drive soft hard (fun _ => g) body as.length k state).Reaches state' := by
  induction as generalizing k state with
  | nil =>
    obtain rfl := Except.ok.inj hsteps
    exact reaches_pure
  | cons a as ih =>
    obtain ⟨ha, has⟩ := List.forall_mem_cons.mp has
    obtain ⟨next, hstep, hrest⟩ := Except.bind_eq_ok_iff.mp hsteps
    intro rest
    obtain ⟨mid, hloop⟩ := ih has hrest rest
    obtain ⟨s, hdraw⟩ := ha mid
    refine ⟨s, ?_⟩
    rw [List.length_cons, drive_succ_of_eq_ok hdraw hstep, hloop]

end Loops

/-- Collecting the values appends them. -/
theorem runSteps_push {k : ℕ} {acc as : List α} :
    runSteps (fun _ acc a => (.ok (acc ++ [a]) : Except ε' (List α))) k acc as =
      .ok (acc ++ as) := by
  induction as generalizing k acc with
  | nil => rw [runSteps, List.append_nil]
  | cons a as ih =>
    rw [runSteps, Except.ok_bind, ih, List.append_assoc, List.singleton_append]

end Gen
