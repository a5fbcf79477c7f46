import LezFuzzing.ForStd.Uniq

/-!
# Greedy selection

`greedy clash xs` goes through `xs` from the left and keeps a value unless it clashes with
one kept before. It is the loop that appends to its result what does not collide with it,
for any notion of collision.

Read from the right it is Mathlib's `pwFilter`, which knows that the result is a pairwise
compatible sublist and that nothing more is dropped from such a list. What it does not know
is which values are dropped: a `Justified` record of the run flags each value as kept or
dropped, every dropped one behind a kept one it clashes with, and `greedy_eq_iff` says that
no other selection has such a record.

## Key results

- `greedy_eq_pwFilter`: greedy selection as Mathlib has it
- `greedy_sublist`, `pairwise_greedy`, `greedy_eq_self_iff`: what is kept
- `exists_justified`: why the rest is dropped
- `greedy_eq_iff`: both together leave one selection
-/

namespace List

variable {α : Type} (clash : α → α → Prop) [DecidableRel clash]

/-- Append a value unless it clashes with one that is there. -/
def pushUnless (kept : List α) (x : α) : List α :=
  if ∃ y ∈ kept, clash y x then kept else kept ++ [x]

/-- What is kept of a list, from the left. -/
def greedy (xs : List α) : List α :=
  xs.foldl (pushUnless clash) []

@[simp] theorem greedy_nil : greedy clash [] = [] := rfl

theorem greedy_concat (xs : List α) (x : α) :
    greedy clash (xs ++ [x]) = pushUnless clash (greedy clash xs) x := by
  simp only [greedy, foldl_append, foldl_cons, foldl_nil]

variable {clash} in
theorem pushUnless_of_clash {kept : List α} {x : α} (h : ∃ y ∈ kept, clash y x) :
    pushUnless clash kept x = kept := if_pos h

variable {clash} in
theorem pushUnless_of_not_clash {kept : List α} {x : α} (h : ¬∃ y ∈ kept, clash y x) :
    pushUnless clash kept x = kept ++ [x] := if_neg h

/-! ## What is kept -/

/-- Greedy selection filters from the other end than `pwFilter` does. -/
theorem greedy_eq_pwFilter (xs : List α) :
    greedy clash xs = (xs.reverse.pwFilter fun x y => ¬clash y x).reverse := by
  induction xs using reverseRecOn with
  | nil => rfl
  | append_singleton xs x ih =>
    rw [greedy_concat, reverse_concat, ih]
    by_cases h : ∃ y ∈ xs.reverse.pwFilter (fun x y => ¬clash y x), clash y x
    · rw [pushUnless_of_clash (by simpa using h), pwFilter_cons_of_neg (by simpa using h)]
    · rw [pushUnless_of_not_clash (by simpa using h), pwFilter_cons_of_pos (by simpa using h),
        reverse_cons]

theorem greedy_sublist (xs : List α) : (greedy clash xs).Sublist xs := by
  rw [greedy_eq_pwFilter]
  simpa using (pwFilter_sublist (R := fun x y => ¬clash y x) xs.reverse).reverse

theorem pairwise_greedy (xs : List α) : (greedy clash xs).Pairwise fun x y => ¬clash x y := by
  rw [greedy_eq_pwFilter, pairwise_reverse]
  exact pairwise_pwFilter xs.reverse

/-- Nothing is dropped exactly when nothing clashes. -/
theorem greedy_eq_self_iff {xs : List α} :
    greedy clash xs = xs ↔ xs.Pairwise fun x y => ¬clash x y := by
  rw [greedy_eq_pwFilter, reverse_eq_iff, pwFilter_eq_self, pairwise_reverse]

/-- Selecting again drops nothing more. -/
theorem greedy_greedy (xs : List α) : greedy clash (greedy clash xs) = greedy clash xs :=
  (greedy_eq_self_iff clash).mpr (pairwise_greedy clash xs)

/-- A push leaves something. -/
theorem pushUnless_ne_nil (kept : List α) (x : α) : pushUnless clash kept x ≠ [] := by
  by_cases h : ∃ y ∈ kept, clash y x
  · rw [pushUnless_of_clash h]
    obtain ⟨y, hy, _⟩ := h
    exact ne_nil_of_mem hy
  · rw [pushUnless_of_not_clash h]
    exact concat_ne_nil x kept

/-- Something is kept of every list that has something. -/
theorem greedy_eq_nil_iff {xs : List α} : greedy clash xs = [] ↔ xs = [] := by
  induction xs using reverseRecOn with
  | nil => simp
  | append_singleton xs x _ =>
    rw [greedy_concat]
    exact iff_of_false (pushUnless_ne_nil clash _ x) (concat_ne_nil x xs)

/-! ## What is dropped -/

/-- A record of a selection flags every value as kept or dropped. It is justified when every
    dropped value stands behind a kept one that it clashes with. -/
def Justified (R : List (α × Bool)) : Prop :=
  ∀ pre x post, R = pre ++ (x, false) :: post → ∃ y ∈ flagged pre, clash y x

variable {clash}

omit [DecidableRel clash] in
theorem justified_nil : Justified clash [] := by
  intro pre x post h
  exact absurd h.symm (append_ne_nil_of_right_ne_nil pre (cons_ne_nil _ post))

omit [DecidableRel clash] in
/-- The last entry of a record is judged by the entries in front of it. -/
theorem justified_concat_iff {R : List (α × Bool)} {x : α} {flag : Bool} :
    Justified clash (R ++ [(x, flag)]) ↔
      Justified clash R ∧ (flag = false → ∃ y ∈ flagged R, clash y x) := by
  constructor
  · intro h
    refine ⟨fun pre y post hR => ?_, fun hflag => ?_⟩
    · exact h pre y (post ++ [(x, flag)]) (by rw [hR, append_assoc, cons_append])
    · exact h R x [] (by rw [hflag])
  · rintro ⟨hR, hlast⟩ pre y post hsplit
    -- the dropped entry is the last one, or one of the others
    cases post using reverseRecOn with
    | nil =>
      obtain ⟨rfl, hentry⟩ := append_inj' hsplit rfl
      obtain ⟨rfl, rfl⟩ := Prod.mk.inj (singleton_inj.mp hentry)
      exact hlast rfl
    | append_singleton post entry =>
      rw [← cons_append, ← append_assoc] at hsplit
      exact hR pre y post (append_inj' hsplit rfl).1

/-- The run itself is a justified record. -/
theorem exists_justified (xs : List α) :
    ∃ R : List (α × Bool), R.map Prod.fst = xs ∧ flagged R = greedy clash xs ∧
      Justified clash R := by
  induction xs using reverseRecOn with
  | nil => exact ⟨[], rfl, rfl, justified_nil⟩
  | append_singleton xs x ih =>
    obtain ⟨R, hxs, hkept, hR⟩ := ih
    rw [greedy_concat, ← hkept]
    by_cases h : ∃ y ∈ flagged R, clash y x
    · refine ⟨R ++ [(x, false)], ?_, ?_, justified_concat_iff.mpr ⟨hR, fun _ => h⟩⟩
      · rw [map_append, hxs, map_singleton]
      · rw [pushUnless_of_clash h, flagged_append]
        exact append_nil _
    · refine ⟨R ++ [(x, true)], ?_, ?_, justified_concat_iff.mpr ⟨hR, nofun⟩⟩
      · rw [map_append, hxs, map_singleton]
      · rw [pushUnless_of_not_clash h, flagged_append]
        rfl

/-- A justified record of compatible values is the run. -/
theorem flagged_eq_greedy {R : List (α × Bool)} (hR : Justified clash R)
    (hkept : (flagged R).Pairwise fun x y => ¬clash x y) :
    flagged R = greedy clash (R.map Prod.fst) := by
  induction R using reverseRecOn with
  | nil => rfl
  | append_singleton R entry ih =>
    obtain ⟨x, flag⟩ := entry
    obtain ⟨hR, hlast⟩ := justified_concat_iff.mp hR
    rw [flagged_append, pairwise_append] at hkept
    obtain ⟨hfront, _, hcross⟩ := hkept
    rw [map_append, map_singleton, greedy_concat, ← ih hR hfront, flagged_append]
    cases flag with
    | false =>
      rw [pushUnless_of_clash (hlast rfl)]
      exact append_nil _
    | true =>
      rw [pushUnless_of_not_clash]
      · rfl
      · rintro ⟨y, hy, hclash⟩
        exact hcross y hy x (mem_singleton_self x) hclash

/-- Greedy selection keeps compatible values and can justify what it drops; no other
    selection does both. -/
theorem greedy_eq_iff {xs kept : List α} :
    greedy clash xs = kept ↔
      (kept.Pairwise fun x y => ¬clash x y) ∧
        ∃ R : List (α × Bool), R.map Prod.fst = xs ∧ flagged R = kept ∧ Justified clash R := by
  constructor
  · rintro rfl
    exact ⟨pairwise_greedy clash xs, exists_justified xs⟩
  · rintro ⟨hkept, R, rfl, rfl, hR⟩
    exact (flagged_eq_greedy hR hkept).symm

/-- Pairs that must differ in both places; the third one clashes with each of the first two. -/
example : greedy (fun x y : ℕ × ℕ => x.1 = y.1 ∨ x.2 = y.2) [(1, 1), (2, 2), (1, 2), (3, 3)] =
    [(1, 1), (2, 2), (3, 3)] := by
  decide

end List
