import LezFuzzing.ForStd.Except

/-!
# Fallible generators

A generator reads from an input, may fail, and leaves the rest of the input behind
whether it failed or not. `Gen σ ε α` is that shape with nothing else: the input is
an arbitrary state type. What a generator's results have in common is an `Ensures`
statement, proved along the structure of the generator.

How it can fail is a second, independent statement, `FailsWith`.

## Key results

- `ensures_bind`, `failsWith_bind`: the sequencing rules
- `ensures_iterate`, `failsWith_iterate`: a loop that threads an accumulator
- `ensures_traverse`, `failsWith_traverse`: a loop that collects one value an element
- `exists_of_bind_eq_ok`: where a sequence that returned has been in between
-/

/-- A computation that reads input of type `σ` and returns an `α` or fails with an `ε`. -/
def Gen (σ ε α : Type) := σ → Except ε α × σ

namespace Gen

variable {σ ε α β : Type}

instance : Monad (Gen σ ε) where
  pure a := fun s => (.ok a, s)
  bind g f := fun s =>
    match g s with
    | (.ok a, s') => f a s'
    | (.error e, s') => (.error e, s')

instance : LawfulMonad (Gen σ ε) := by
  refine LawfulMonad.mk' (Gen σ ε) (fun g => funext fun s => ?_) (fun _ _ => rfl)
    fun g f h => funext fun s => ?_
  · show (match g s with | (.ok a, s') => _ | (.error e, s') => _) = g s
    rcases g s with ⟨_ | _, s'⟩ <;> rfl
  · simp only [bind]
    rcases g s with ⟨_ | _, s'⟩ <;> rfl

/-- Fail without reading. -/
def fail (e : ε) : Gen σ ε α := fun s => (.error e, s)

/-- Run `step` on an accumulator `n` times. -/
def iterate (step : α → Gen σ ε α) : ℕ → α → Gen σ ε α
  | 0, a => pure a
  | n + 1, a => step a >>= iterate step n

/-- Run `f` on every element and collect the values, up to the first failure. -/
def traverse (f : α → Gen σ ε β) : List α → Gen σ ε (List β)
  | [] => pure []
  | a :: as => do
    let b ← f a
    let bs ← traverse f as
    return b :: bs

/-- Every value the generator returns satisfies `P`. -/
def Ensures (g : Gen σ ε α) (P : α → Prop) : Prop :=
  ∀ s a s', g s = (.ok a, s') → P a

/-- Every error the generator stops with satisfies `E`. -/
def FailsWith (g : Gen σ ε α) (E : ε → Prop) : Prop :=
  ∀ s e s', g s = (.error e, s') → E e

/-- The generator returns a value on every input. -/
def Succeeds (g : Gen σ ε α) : Prop := ∀ s, ∃ a s', g s = (.ok a, s')

/-! ## Values -/

theorem bind_of_eq_ok {g : Gen σ ε α} {f : α → Gen σ ε β} {s mid : σ} {a : α}
    (h : g s = (.ok a, mid)) : (g >>= f) s = f a mid := by
  simp only [bind, h]

theorem succeeds_pure {a : α} : (pure a : Gen σ ε α).Succeeds := fun s => ⟨a, s, rfl⟩

/-- A sequence returns where both parts do. -/
theorem succeeds_bind {g : Gen σ ε α} {f : α → Gen σ ε β} (hg : g.Succeeds)
    (hf : ∀ a, (f a).Succeeds) : (g >>= f).Succeeds := by
  intro s
  obtain ⟨a, mid, hfirst⟩ := hg s
  rw [bind_of_eq_ok hfirst]
  exact hf a mid

/-- A sequence that returned has passed through a value and a state. -/
theorem exists_of_bind_eq_ok {g : Gen σ ε α} {f : α → Gen σ ε β} {s s' : σ} {b : β}
    (h : (g >>= f) s = (.ok b, s')) : ∃ a mid, g s = (.ok a, mid) ∧ f a mid = (.ok b, s') := by
  simp only [bind] at h
  cases hfirst : g s with
  | mk result mid =>
    rw [hfirst] at h
    cases result with
    | error e => cases (Prod.mk.inj h).1
    | ok a => exact ⟨a, mid, rfl, h⟩

/-- Behind a part that always returns, what counts is the rest. -/
theorem exists_bind_eq_ok_iff {g : Gen σ ε α} (hg : g.Succeeds) {f : α → Gen σ ε β} {s : σ}
    {b : β} :
    (∃ s', (g >>= f) s = (.ok b, s')) ↔
      ∀ a mid, g s = (.ok a, mid) → ∃ s', f a mid = (.ok b, s') := by
  constructor
  · rintro ⟨s', hrun⟩ a mid hfirst
    exact ⟨s', (bind_of_eq_ok hfirst).symm.trans hrun⟩
  · intro h
    obtain ⟨a, mid, hfirst⟩ := hg s
    obtain ⟨s', hrest⟩ := h a mid hfirst
    exact ⟨s', (bind_of_eq_ok hfirst).trans hrest⟩

theorem ensures_pure {a : α} {P : α → Prop} (h : P a) : (pure a : Gen σ ε α).Ensures P := by
  intro s b s' hrun
  obtain ⟨hok, _⟩ := Prod.mk.inj hrun
  exact Except.ok.inj hok ▸ h

theorem ensures_fail {e : ε} {P : α → Prop} : (fail e : Gen σ ε α).Ensures P :=
  fun _ _ _ hrun => nomatch (Prod.mk.inj hrun).1

/-- Nothing is known about what is drawn. -/
theorem ensures_true (g : Gen σ ε α) : g.Ensures fun _ => True := fun _ _ _ _ => trivial

/-- A sequence ensures what its second part ensures on every value of the first. -/
theorem ensures_bind {g : Gen σ ε α} {f : α → Gen σ ε β} {P : α → Prop} {Q : β → Prop}
    (hg : g.Ensures P) (hf : ∀ a, P a → (f a).Ensures Q) : (g >>= f).Ensures Q := by
  intro s b s' hrun
  obtain ⟨a, mid, hfirst, hrest⟩ := exists_of_bind_eq_ok hrun
  exact hf a (hg s a mid hfirst) mid b s' hrest

/-- `ensures_bind` for a draw whose value does not matter. -/
theorem ensures_bind_any {g : Gen σ ε α} {f : α → Gen σ ε β} {Q : β → Prop}
    (hf : ∀ a, (f a).Ensures Q) : (g >>= f).Ensures Q :=
  ensures_bind (ensures_true g) fun a _ => hf a

/-- The invariant of a loop may count the steps taken. -/
theorem ensures_iterate {step : α → Gen σ ε α} {Inv : ℕ → α → Prop}
    (hstep : ∀ k a, Inv k a → (step a).Ensures (Inv (k + 1))) {k : ℕ} (n : ℕ) {a : α}
    (ha : Inv k a) : (iterate step n a).Ensures (Inv (k + n)) := by
  induction n generalizing k a with
  | zero => exact ensures_pure ha
  | succ n ih =>
    refine ensures_bind (hstep k a ha) fun b hb => ?_
    have hrest := ih hb
    rwa [Nat.add_right_comm] at hrest

/-- A collecting loop returns one value an element, each as its generator ensures. -/
theorem ensures_traverse {f : α → Gen σ ε β} {R : α → β → Prop} (h : ∀ a, (f a).Ensures (R a))
    (as : List α) : (traverse f as).Ensures (List.Forall₂ R as) := by
  induction as with
  | nil => exact ensures_pure List.Forall₂.nil
  | cons a as ih =>
    refine ensures_bind (h a) fun b hb => ensures_bind ih fun bs hbs => ?_
    exact ensures_pure (List.Forall₂.cons hb hbs)

/-! ## Errors -/

section Errors

variable {E : ε → Prop}

theorem failsWith_pure {a : α} : (pure a : Gen σ ε α).FailsWith E :=
  fun _ _ _ hrun => nomatch (Prod.mk.inj hrun).1

/-- A sequence fails as its first part does, or its second one on what the first returns. -/
theorem failsWith_bind_of_ensures {g : Gen σ ε α} {f : α → Gen σ ε β} {P : α → Prop}
    (hg : g.FailsWith E) (hP : g.Ensures P) (hf : ∀ a, P a → (f a).FailsWith E) :
    (g >>= f).FailsWith E := by
  intro s e s' hrun
  simp only [bind] at hrun
  cases hfirst : g s with
  | mk result mid =>
    rw [hfirst] at hrun
    cases result with
    | error e' =>
      obtain rfl := Except.error.inj (Prod.mk.inj hrun).1
      exact hg s e' mid hfirst
    | ok a => exact hf a (hP s a mid hfirst) mid e s' hrun

/-- A sequence fails as one of its parts does. -/
theorem failsWith_bind {g : Gen σ ε α} {f : α → Gen σ ε β} (hg : g.FailsWith E)
    (hf : ∀ a, (f a).FailsWith E) : (g >>= f).FailsWith E :=
  failsWith_bind_of_ensures hg (ensures_true g) fun a _ => hf a

/-- A loop fails as one of its steps does, if it takes any. -/
theorem failsWith_iterate {step : α → Gen σ ε α} {n : ℕ}
    (h : 0 < n → ∀ a, (step a).FailsWith E) (a : α) : (iterate step n a).FailsWith E := by
  induction n generalizing a with
  | zero => exact failsWith_pure
  | succ n ih => exact failsWith_bind (h (by omega) a) (ih fun _ => h (by omega))

/-- A collecting loop fails as one of its elements does. -/
theorem failsWith_traverse {f : α → Gen σ ε β} (h : ∀ a, (f a).FailsWith E) (as : List α) :
    (traverse f as).FailsWith E := by
  induction as with
  | nil => exact failsWith_pure
  | cons a as ih =>
    exact failsWith_bind (h a) fun b => failsWith_bind ih fun bs => failsWith_pure

end Errors

end Gen
