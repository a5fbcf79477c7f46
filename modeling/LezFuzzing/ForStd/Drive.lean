import LezFuzzing.ForStd.Gen

/-!
# Loops that draw as they go

A driver draws the input of each step when its turn comes, against the state that the steps
before it have left behind, and the step asserts what it expects. A draw that fails softly
ends the loop; any other failure ends the program.

What a driver has checked is read off its `transcript`, the steps it takes when nothing
asserts. That is a list for each input, since what is drawn depends on the states passed.

## Key results

- `attempt_succeeds`: a draw that only fails softly can be attempted anywhere
- `drive_succeeds`: a driver whose steps assert nothing
- `exists_drive_eq_ok_iff`: a driver returns exactly when each step of its transcript is good
- `exists_drive_eq_ok_iff_runSteps`: draws that ignore the state can be made in advance
-/

namespace Gen

variable {σ ε ε' α β S : Type}

/-- The value, or `none` where the generator fails softly. -/
def attempt (soft : ε → Bool) (g : Gen σ ε α) : Gen σ ε (Option α) := fun s =>
  match g s with
  | (.ok a, s') => (.ok (some a), s')
  | (.error e, s') => if soft e then (.ok none, s') else (.error e, s')

/-- A program without input. -/
def lift (hard : ε' → ε) (x : Except ε' α) : Gen σ ε α := fun s => (x.mapError hard, s)

section Drive

variable (soft : ε → Bool) (hard : ε' → ε) (draw : S → Gen σ ε α)

/-- At most `n` steps, from the `k`th on. -/
def drive (body : ℕ → S → α → Except ε' S) : ℕ → ℕ → S → Gen σ ε S
  | 0, _, state => pure state
  | n + 1, k, state => do
    match ← attempt soft (draw state) with
    | none => pure state
    | some a =>
      let state ← lift hard (body k state a)
      drive body n (k + 1) state

/-- A step: its number, the state it starts in, and what is drawn for it. -/
structure Drawn (S α : Type) where
  index : ℕ
  state : S
  value : α

variable (next : ℕ → S → α → S)

/-- The steps of a driver without assertions. -/
def transcript : ℕ → ℕ → S → σ → List (Drawn S α)
  | 0, _, _, _ => []
  | n + 1, k, state, s =>
    match draw state s with
    | (.ok a, s') => ⟨k, state, a⟩ :: transcript n (k + 1) (next k state a) s'
    | (.error _, _) => []

/-- The state a driver without assertions ends in. -/
def driven : ℕ → ℕ → S → σ → S
  | 0, _, state, _ => state
  | n + 1, k, state, s =>
    match draw state s with
    | (.ok a, s') => driven n (k + 1) (next k state a) s'
    | (.error _, _) => state

end Drive

/-- The values a generator returns in a row, up to `n` or the first failure. -/
def collected (g : Gen σ ε α) : ℕ → σ → List α
  | 0, _ => []
  | n + 1, s =>
    match g s with
    | (.ok a, s') => a :: collected g n s'
    | (.error _, _) => []

/-- The steps of a driver on given values, from the `k`th on. -/
def runSteps (body : ℕ → S → α → Except ε' S) : ℕ → S → List α → Except ε' S
  | _, state, [] => .ok state
  | k, state, a :: as => do
    let state ← body k state a
    runSteps body (k + 1) state as

/-! ## One step -/

theorem attempt_of_eq_ok {soft : ε → Bool} {g : Gen σ ε α} {s s' : σ} {a : α}
    (h : g s = (.ok a, s')) : attempt soft g s = (.ok (some a), s') := by
  simp only [attempt, h]

theorem attempt_of_eq_error {soft : ε → Bool} {g : Gen σ ε α} {s s' : σ} {e : ε}
    (hsoft : soft e = true) (h : g s = (.error e, s')) : attempt soft g s = (.ok none, s') := by
  simp only [attempt, h, hsoft, ↓reduceIte]

/-- Only a value that was returned is some value. -/
theorem eq_ok_of_attempt_eq_some {soft : ε → Bool} {g : Gen σ ε α} {s s' : σ} {a : α}
    (h : attempt soft g s = (.ok (some a), s')) : g s = (.ok a, s') := by
  cases hrun : g s with
  | mk result mid =>
    cases result with
    | ok b =>
      rw [attempt_of_eq_ok hrun] at h
      cases h
      rfl
    | error e =>
      simp only [attempt, hrun] at h
      split at h <;> cases h

theorem lift_ok {hard : ε' → ε} {a : α} {s : σ} :
    lift hard (.ok a : Except ε' α) s = (.ok a, s) := rfl

theorem lift_error {hard : ε' → ε} {e : ε'} {s : σ} :
    (lift hard (.error e) : Gen σ ε α) s = (.error (hard e), s) := rfl

theorem exists_lift_eq_ok_iff {hard : ε' → ε} {x : Except ε' α} {a : α} {s : σ} :
    (∃ s', lift hard x s = (.ok a, s')) ↔ x = .ok a := by
  cases x with
  | error e => exact ⟨fun ⟨_, h⟩ => (nomatch (Prod.mk.inj h).1), nofun⟩
  | ok b =>
    constructor
    · rintro ⟨s', h⟩
      exact congrArg _ (Except.ok.inj (Prod.mk.inj h).1)
    · intro h
      exact ⟨s, by rw [h, lift_ok]⟩

/-- A program whose value is dropped counts as one that returns or not. -/
theorem exists_lift_bind_eq_ok_iff {hard : ε' → ε} {x : Except ε' α} {b : β} {s : σ} :
    (∃ s', (lift hard x >>= fun _ => pure b) s = (.ok b, s')) ↔ x.Returns := by
  cases x with
  | error e => exact ⟨fun ⟨_, h⟩ => (nomatch (Prod.mk.inj h).1), nofun⟩
  | ok a => exact ⟨fun _ => ⟨a, rfl⟩, fun _ => ⟨s, rfl⟩⟩

/-- Two programs without input, one after the other, are one. -/
theorem lift_bind {hard : ε' → ε} (x : Except ε' α) (f : α → Except ε' β) :
    (lift hard x >>= fun a => lift hard (f a) : Gen σ ε β) = lift hard (x >>= f) := by
  funext s
  cases x with
  | error e => rfl
  | ok a => rfl

/-- A draw that only fails softly can be attempted anywhere. -/
theorem attempt_succeeds {soft : ε → Bool} {g : Gen σ ε α}
    (hg : g.FailsWith fun e => soft e = true) : (attempt soft g).Succeeds := by
  intro s
  cases hrun : g s with
  | mk result s' =>
    cases result with
    | ok a => exact ⟨some a, s', attempt_of_eq_ok hrun⟩
    | error e => exact ⟨none, s', attempt_of_eq_error (hg s e s' hrun) hrun⟩

/-- Where a soft failure leads to `b`, what counts is what follows a value. -/
theorem exists_attempt_bind_eq_ok_iff {soft : ε → Bool} {g : Gen σ ε α}
    (hg : g.FailsWith fun e => soft e = true) {f : Option α → Gen σ ε β} {b : β}
    (hnone : ∀ s, ∃ s', f none s = (.ok b, s')) {s : σ} :
    (∃ s', (attempt soft g >>= f) s = (.ok b, s')) ↔
      ∀ a mid, g s = (.ok a, mid) → ∃ s', f (some a) mid = (.ok b, s') := by
  rw [exists_bind_eq_ok_iff (attempt_succeeds hg)]
  constructor
  · intro h a mid hrun
    exact h (some a) mid (attempt_of_eq_ok hrun)
  · intro h o mid hrun
    cases hfirst : g s with
    | mk result mid' =>
      cases result with
      | ok a =>
        obtain ⟨hok, rfl⟩ := Prod.mk.inj ((attempt_of_eq_ok hfirst).symm.trans hrun)
        obtain rfl := Except.ok.inj hok
        exact h a mid' hfirst
      | error e =>
        have hattempt := attempt_of_eq_error (hg s e mid' hfirst) hfirst
        obtain ⟨hok, rfl⟩ := Prod.mk.inj (hattempt.symm.trans hrun)
        obtain rfl := Except.ok.inj hok
        exact hnone mid'

section Rules

variable {soft : ε → Bool} {hard : ε' → ε} {draw : S → Gen σ ε α}
  {body : ℕ → S → α → Except ε' S}

/-- A step that draws and returns goes on from the state it returns. -/
theorem drive_succ_of_eq_ok {n k : ℕ} {state state' : S} {s mid : σ} {a : α}
    (hdraw : draw state s = (.ok a, mid)) (hbody : body k state a = .ok state') :
    drive soft hard draw body (n + 1) k state s =
      drive soft hard draw body n (k + 1) state' mid := by
  rw [drive, bind_of_eq_ok (attempt_of_eq_ok hdraw)]
  simp only [hbody, bind_of_eq_ok lift_ok]

/-- A step whose body stops ends the driver. -/
theorem drive_succ_of_body_error {n k : ℕ} {state : S} {s mid : σ} {a : α} {e : ε'}
    (hdraw : draw state s = (.ok a, mid)) (hbody : body k state a = .error e) :
    drive soft hard draw body (n + 1) k state s = (.error (hard e), mid) := by
  rw [drive, bind_of_eq_ok (attempt_of_eq_ok hdraw)]
  simp only [hbody, bind, lift_error]

/-- A draw that fails softly ends the loop. -/
theorem drive_succ_of_eq_error {n k : ℕ} {state : S} {s mid : σ} {e : ε} (hsoft : soft e = true)
    (hdraw : draw state s = (.error e, mid)) :
    drive soft hard draw body (n + 1) k state s = (.ok state, mid) := by
  rw [drive, bind_of_eq_ok (attempt_of_eq_error hsoft hdraw)]
  rfl

/-- A driver never fails if its draws fail only softly and its steps assert nothing. -/
theorem drive_succeeds (hfails : ∀ state, (draw state).FailsWith fun e => soft e = true)
    (hbody : ∀ k state a, ∃ state', body k state a = .ok state') {n k : ℕ} {state : S} :
    (drive soft hard draw body n k state).Succeeds := by
  intro s
  induction n generalizing k state s with
  | zero => exact ⟨state, s, rfl⟩
  | succ n ih =>
    cases hrun : draw state s with
    | mk result mid =>
      cases result with
      | error e =>
        exact ⟨state, mid, drive_succ_of_eq_error (hfails state s e mid hrun) hrun⟩
      | ok a =>
        obtain ⟨state', hstep⟩ := hbody k state a
        rw [drive_succ_of_eq_ok hrun hstep]
        exact ih mid

/-- Let `next` be the step without its assertions, and `Good` what they assert. A driver
    returns exactly when every step of its transcript is good, in the state it is driven to. -/
theorem exists_drive_eq_ok_iff {next : ℕ → S → α → S} {Good : ℕ → S → α → Prop}
    (hfails : ∀ state, (draw state).FailsWith fun e => soft e = true)
    (hbody : ∀ k state a state', body k state a = .ok state' ↔
      Good k state a ∧ state' = next k state a)
    {n k : ℕ} {state state' : S} {s : σ} :
    (∃ s', drive soft hard draw body n k state s = (.ok state', s')) ↔
      (∀ d ∈ transcript draw next n k state s, Good d.index d.state d.value) ∧
        state' = driven draw next n k state s := by
  induction n generalizing k state s with
  | zero =>
    constructor
    · rintro ⟨s', hrun⟩
      exact ⟨nofun, (Except.ok.inj (Prod.mk.inj hrun).1).symm⟩
    · rintro ⟨_, rfl⟩
      exact ⟨s, rfl⟩
  | succ n ih =>
    cases hrun : draw state s with
    | mk result mid =>
      cases result with
      | error e =>
        rw [drive_succ_of_eq_error (hfails state s e mid hrun) hrun]
        simp only [transcript, driven, hrun, List.not_mem_nil, false_implies, implies_true,
          true_and]
        constructor
        · rintro ⟨s', heq⟩
          exact (Except.ok.inj (Prod.mk.inj heq).1).symm
        · rintro rfl
          exact ⟨mid, rfl⟩
      | ok a =>
        simp only [transcript, driven, hrun, List.forall_mem_cons]
        cases hstep : body k state a with
        | error e =>
          rw [drive_succ_of_body_error hrun hstep]
          constructor
          · rintro ⟨s', heq⟩
            exact nomatch (Prod.mk.inj heq).1
          · rintro ⟨⟨hgood, _⟩, _⟩
            exact nomatch hstep.symm.trans ((hbody k state a _).mpr ⟨hgood, rfl⟩)
        | ok mid' =>
          obtain ⟨hgood, rfl⟩ := (hbody k state a mid').mp hstep
          rw [drive_succ_of_eq_ok hrun hstep, ih]
          tauto

/-- Where the draws do not look at the state, drawing on the way is drawing in advance. -/
theorem exists_drive_eq_ok_iff_runSteps {g : Gen σ ε α} (hdraw : ∀ state, draw state = g)
    (hfails : g.FailsWith fun e => soft e = true) {n k : ℕ} {state state' : S} {s : σ} :
    (∃ s', drive soft hard draw body n k state s = (.ok state', s')) ↔
      runSteps body k state (collected g n s) = .ok state' := by
  induction n generalizing k state s with
  | zero =>
    constructor
    · rintro ⟨s', hrun⟩
      obtain rfl := Except.ok.inj (Prod.mk.inj hrun).1
      rfl
    · intro h
      obtain rfl := Except.ok.inj h
      exact ⟨s, rfl⟩
  | succ n ih =>
    cases hrun : g s with
    | mk result mid =>
      have hfirst : draw state s = (result, mid) := by rw [hdraw, hrun]
      cases result with
      | error e =>
        rw [drive_succ_of_eq_error (hfails s e mid hrun) hfirst]
        simp only [collected, hrun, runSteps]
        constructor
        · rintro ⟨s', heq⟩
          obtain rfl := Except.ok.inj (Prod.mk.inj heq).1
          rfl
        · intro heq
          obtain rfl := Except.ok.inj heq
          exact ⟨mid, rfl⟩
      | ok a =>
        simp only [collected, hrun, runSteps]
        cases hstep : body k state a with
        | error e =>
          rw [drive_succ_of_body_error hfirst hstep]
          exact ⟨fun ⟨_, heq⟩ => (nomatch (Prod.mk.inj heq).1), nofun⟩
        | ok next =>
          rw [drive_succ_of_eq_ok hfirst hstep]
          exact ih

/-- The same with a program without input behind the loop. -/
theorem exists_drive_lift_eq_ok_iff {g : Gen σ ε α} (hdraw : ∀ state, draw state = g)
    (hfails : g.FailsWith fun e => soft e = true) {final : S → Except ε' β} {n k : ℕ} {state : S}
    {s : σ} {b : β} :
    (∃ s', (drive soft hard draw body n k state >>= fun state => lift hard (final state)) s =
        (.ok b, s')) ↔
      ∃ state', runSteps body k state (collected g n s) = .ok state' ∧ final state' = .ok b := by
  constructor
  · rintro ⟨s', hrun⟩
    obtain ⟨state', mid, hloop, hfinal⟩ := exists_of_bind_eq_ok hrun
    exact ⟨state', (exists_drive_eq_ok_iff_runSteps hdraw hfails).mp ⟨mid, hloop⟩,
      exists_lift_eq_ok_iff.mp ⟨s', hfinal⟩⟩
  · rintro ⟨state', hsteps, hfinal⟩
    obtain ⟨mid, hloop⟩ : ∃ mid, drive soft hard draw body n k state s = (.ok state', mid) :=
      (exists_drive_eq_ok_iff_runSteps hdraw hfails).mpr hsteps
    obtain ⟨s', hlift⟩ : ∃ s', lift hard (final state') mid = (.ok b, s') :=
      exists_lift_eq_ok_iff.mpr hfinal
    exact ⟨s', by rw [bind_of_eq_ok hloop, hlift]⟩

/-- The steps of a transcript are numbered, and an invariant of the steps without
    assertions holds where each of them starts. -/
theorem transcript_inv {next : ℕ → S → α → S} {Inv : ℕ → S → Prop} {P : S → α → Prop}
    (hdraw : ∀ state, (draw state).Ensures (P state))
    (hnext : ∀ k state a, Inv k state → P state a → Inv (k + 1) (next k state a))
    {n k : ℕ} {state : S} (h : Inv k state) {s : σ} :
    ∀ d ∈ transcript draw next n k state s,
      k ≤ d.index ∧ d.index < k + n ∧ Inv d.index d.state ∧ P d.state d.value := by
  induction n generalizing k state s with
  | zero => exact nofun
  | succ n ih =>
    rw [transcript]
    split
    · rename_i a mid hrun
      rw [List.forall_mem_cons]
      refine ⟨⟨Nat.le_refl k, Nat.lt_add_of_pos_right (Nat.succ_pos n), h,
        hdraw state s a mid hrun⟩, fun d hd => ?_⟩
      obtain ⟨hlow, hhigh, hinv, hvalue⟩ :=
        ih (hnext k state a h (hdraw state s a mid hrun)) d hd
      exact ⟨by omega, by omega, hinv, hvalue⟩
    · exact nofun

end Rules

end Gen
