import Mathlib

/-!
# Asserting programs

A program that checks its own assertions either returns a value or stops with an
error, which is `Except ε α`. This file gives such programs their rules: a set of
`= .ok _` equivalences that peel a `do` block apart, the loops over a list, and the
induction rules that turn what one step does into what a whole loop does.

## Key results

- `bind_eq_ok_iff`, `assert_eq_ok_iff`, `expect_eq_ok_iff`: one statement at a time
- `forM_eq_ok_iff`, `mapM_eq_ok_iff_map`, `findSomeM?_eq_ok_none_iff`: loops without state
- `foldlM_simulates`: a loop that follows another one step by step
- `foldlM_returns_iff`: an asserting loop returns exactly when the assertion-free
  run passes the assertion of every step
-/

namespace Except

variable {ε α β σ τ : Type}

/-- The program returns: no assertion of it fails. -/
def Returns (x : Except ε α) : Prop := ∃ a, x = .ok a

/-- Stop with `e` unless `p` holds. -/
def assert (p : Prop) [Decidable p] (e : ε) : Except ε Unit :=
  if p then .ok () else .error e

/-- The value of an option, or stop with `e`. -/
def expect (o : Option α) (e : ε) : Except ε α :=
  match o with
  | some a => .ok a
  | none => .error e

/-! ## One statement -/

@[simp] theorem returns_ok (a : α) : (ok a : Except ε α).Returns := ⟨a, rfl⟩

@[simp] theorem not_returns_error (e : ε) : ¬ (error e : Except ε α).Returns := nofun

@[simp] theorem pure_eq_ok (a : α) : (pure a : Except ε α) = .ok a := rfl

@[simp] theorem throw_eq_error (e : ε) : (throw e : Except ε α) = .error e := rfl

@[simp] theorem ok_bind (a : α) (f : α → Except ε β) : (ok a >>= f) = f a := rfl

@[simp] theorem error_bind (e : ε) (f : α → Except ε β) :
    ((error e : Except ε α) >>= f) = .error e := rfl

/-- A sequence returns exactly when both parts do. -/
theorem bind_eq_ok_iff {x : Except ε α} {f : α → Except ε β} {b : β} :
    (x >>= f) = .ok b ↔ ∃ a, x = .ok a ∧ f a = .ok b := by
  cases x <;> simp

/-- `bind_eq_ok_iff`, without the value. -/
theorem returns_bind_iff {x : Except ε α} {f : α → Except ε β} :
    (x >>= f).Returns ↔ ∃ a, x = .ok a ∧ (f a).Returns := by
  cases x <;> simp

@[simp] theorem assert_eq_ok_iff {p : Prop} [Decidable p] {e : ε} {u : Unit} :
    assert p e = .ok u ↔ p := by
  unfold assert
  split <;> simp [*]

@[simp] theorem returns_assert_iff {p : Prop} [Decidable p] {e : ε} :
    (assert p e).Returns ↔ p := by
  simp [Returns]

/-- An assertion in front of a program. -/
theorem returns_assert_bind_iff {p : Prop} [Decidable p] {e : ε} {f : Unit → Except ε β} :
    (assert p e >>= f).Returns ↔ p ∧ (f ()).Returns := by
  rw [returns_bind_iff]
  exact ⟨fun ⟨(), hp, hf⟩ => ⟨assert_eq_ok_iff.mp hp, hf⟩,
    fun ⟨hp, hf⟩ => ⟨(), assert_eq_ok_iff.mpr hp, hf⟩⟩

/-- A check returns one value only. -/
theorem returns_unit_iff {x : Except ε Unit} : x.Returns ↔ x = .ok () :=
  ⟨fun ⟨(), h⟩ => h, fun h => ⟨(), h⟩⟩

@[simp] theorem expect_eq_ok_iff {o : Option α} {e : ε} {a : α} :
    expect o e = .ok a ↔ o = some a := by
  cases o <;> simp [expect]

@[simp] theorem expect_some (a : α) (e : ε) : expect (some a) e = .ok a := rfl

/-! ## Loops without state -/

/-- A loop of checks returns exactly when every check does. -/
theorem forM_eq_ok_iff {xs : List α} {f : α → Except ε Unit} {u : Unit} :
    xs.forM f = .ok u ↔ ∀ x ∈ xs, f x = .ok () := by
  induction xs with
  | nil => simp
  | cons x xs ih =>
    rw [List.forM_eq_forM] at ih
    rw [List.forM_eq_forM, List.forM_cons, bind_eq_ok_iff, List.forall_mem_cons, ← ih]
    exact ⟨fun ⟨(), hx, hxs⟩ => ⟨hx, hxs⟩, fun ⟨hx, hxs⟩ => ⟨(), hx, hxs⟩⟩

/-- A collecting loop returns exactly when every element does. -/
theorem mapM_eq_ok_iff {xs : List α} {f : α → Except ε β} {ys : List β} :
    xs.mapM f = .ok ys ↔ List.Forall₂ (fun x y => f x = .ok y) xs ys := by
  induction xs generalizing ys with
  | nil => simp [eq_comm]
  | cons x xs ih =>
    rw [List.mapM_cons, List.forall₂_cons_left_iff, bind_eq_ok_iff]
    constructor
    · intro h
      obtain ⟨y, hy, h⟩ := h
      obtain ⟨zs, hzs, h⟩ := bind_eq_ok_iff.mp h
      obtain rfl := Except.ok.inj h
      exact ⟨y, zs, hy, ih.mp hzs, rfl⟩
    · intro h
      obtain ⟨y, zs, hy, hzs, rfl⟩ := h
      exact ⟨y, hy, bind_eq_ok_iff.mpr ⟨zs, ih.mpr hzs, rfl⟩⟩

/-- A collecting loop whose elements are read by `g` and fail where `p` does not hold. -/
theorem mapM_eq_ok_iff_map {xs : List α} {f : α → Except ε β} {p : α → Prop} {g : α → β}
    {ys : List β} (h : ∀ x y, f x = .ok y ↔ p x ∧ y = g x) :
    xs.mapM f = .ok ys ↔ (∀ x ∈ xs, p x) ∧ ys = xs.map g := by
  rw [mapM_eq_ok_iff]
  induction xs generalizing ys with
  | nil => simp
  | cons x xs ih =>
    rw [List.forall₂_cons_left_iff, List.forall_mem_cons, List.map_cons]
    constructor
    · intro hrun
      obtain ⟨y, zs, hy, hzs, heq⟩ := hrun
      obtain ⟨hpx, rfl⟩ := (h x y).mp hy
      obtain ⟨hpxs, rfl⟩ := ih.mp hzs
      exact ⟨⟨hpx, hpxs⟩, heq⟩
    · intro hmap
      obtain ⟨⟨hpx, hpxs⟩, heq⟩ := hmap
      exact ⟨g x, xs.map g, (h x _).mpr ⟨hpx, rfl⟩, ih.mpr ⟨hpxs, rfl⟩, heq⟩

/-- A search finds nothing exactly when every element is checked and passes. -/
theorem findSomeM?_eq_ok_none_iff {xs : List α} {f : α → Except ε (Option β)} :
    xs.findSomeM? f = .ok none ↔ ∀ x ∈ xs, f x = .ok none := by
  induction xs with
  | nil => simp
  | cons x xs ih =>
    rw [List.findSomeM?_cons, bind_eq_ok_iff, List.forall_mem_cons, ← ih]
    constructor
    · intro h
      obtain ⟨_ | b, hx, h⟩ := h
      · exact ⟨hx, h⟩
      · simp at h
    · intro h
      obtain ⟨hx, h⟩ := h
      exact ⟨none, hx, h⟩

/-! ## Loops that thread a state -/

/-- A loop whose body follows `g` wherever it returns ends where `g` does. -/
theorem foldlM_simulates {f : σ → α → Except ε σ} {g : τ → α → τ} {R : σ → τ → Prop}
    {xs : List α} (hsim : ∀ s t, ∀ x ∈ xs, ∀ s', R s t → f s x = .ok s' → R s' (g t x))
    {s s' : σ} {t : τ} (hR : R s t) (h : xs.foldlM f s = .ok s') : R s' (xs.foldl g t) := by
  induction xs generalizing s t with
  | nil => obtain rfl := Except.ok.inj h; exact hR
  | cons x xs ih =>
    obtain ⟨s₁, h₁, h₂⟩ := bind_eq_ok_iff.mp h
    exact ih (fun s t y hy => hsim s t y (List.mem_cons_of_mem _ hy))
      (hsim s t x List.mem_cons_self s₁ hR h₁) h₂

/-- Let `g` be the loop body without its assertions and `P t x` what the body asserts
    when it runs `x` in state `t`. If the asserting body `f` returns exactly when `P`
    holds, and then follows `g`, the loop returns exactly when `P` holds at every
    step of the assertion-free run. -/
theorem foldlM_returns_iff {f : σ → α → Except ε σ} {g : τ → α → τ} {R : σ → τ → Prop}
    {P : τ → α → Prop} {xs : List α}
    (hstep : ∀ s t, ∀ x ∈ xs, R s t → ((f s x).Returns ↔ P t x))
    (hsim : ∀ s t, ∀ x ∈ xs, ∀ s', R s t → f s x = .ok s' → R s' (g t x)) {s : σ} {t : τ}
    (hR : R s t) :
    (xs.foldlM f s).Returns ↔
      ∀ pre x post, xs = pre ++ x :: post → P (pre.foldl g t) x := by
  induction xs generalizing s t with
  | nil => simp
  | cons x xs ih =>
    have ih' : ∀ s₁, f s x = .ok s₁ → ((xs.foldlM f s₁).Returns ↔
        ∀ pre y post, xs = pre ++ y :: post → P (pre.foldl g (g t x)) y) := fun s₁ h₁ =>
      ih (fun s t y hy => hstep s t y (List.mem_cons_of_mem _ hy))
        (fun s t y hy => hsim s t y (List.mem_cons_of_mem _ hy))
        (hsim s t x List.mem_cons_self s₁ hR h₁)
    rw [List.foldlM_cons, returns_bind_iff]
    constructor
    · rintro ⟨s₁, h₁, hret⟩ pre y post heq
      cases pre with
      | nil =>
        obtain ⟨rfl, rfl⟩ := List.cons.inj heq
        exact (hstep s t x List.mem_cons_self hR).mp ⟨s₁, h₁⟩
      | cons z pre =>
        obtain ⟨rfl, rfl⟩ := List.cons.inj heq
        exact (ih' s₁ h₁).mp hret pre y post rfl
    · intro h
      obtain ⟨s₁, h₁⟩ := (hstep s t x List.mem_cons_self hR).mpr (h [] x xs rfl)
      exact ⟨s₁, h₁, (ih' s₁ h₁).mpr fun pre y post heq =>
        h (x :: pre) y post (by rw [heq, List.cons_append])⟩

end Except
