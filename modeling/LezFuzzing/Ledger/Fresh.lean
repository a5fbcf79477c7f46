import Mathlib

/-!
# Registries that are only ever added to

A registry remembers every key it was given and accepts a key once. What one insertion asks
and does composes: a run of insertions is one insertion of all their keys, so no key is
accepted twice in the whole run, however far apart.

## Key results

- `Inserts.append`: two insertions are one
- `Inserts.not_again`: a key that was inserted is never inserted again
-/

namespace Ledger

variable {K : Type} {a b c d : Set K} {xs ys : List K}

/-- `after` is `before` with the given keys, which were not there and come once each. -/
structure Inserts (before : Set K) (keys : List K) (after : Set K) : Prop where
  nodup : keys.Nodup
  fresh : ∀ k ∈ keys, k ∉ before
  after_eq : after = before ∪ {k | k ∈ keys}

namespace Inserts

theorem nil : Inserts a [] a where
  nodup := List.nodup_nil
  fresh := nofun
  after_eq := by simp

theorem mem_after (h : Inserts a xs b) {k : K} : k ∈ b ↔ k ∈ a ∨ k ∈ xs := by
  rw [h.after_eq]
  exact Iff.rfl

theorem subset (h : Inserts a xs b) : a ⊆ b := fun _ hk => h.mem_after.mpr (.inl hk)

/-- Two insertions are one. -/
theorem append (h : Inserts a xs b) (h' : Inserts b ys c) : Inserts a (xs ++ ys) c where
  nodup := by
    refine List.nodup_append.mpr ⟨h.nodup, h'.nodup, fun x hx y hy heq => ?_⟩
    exact h'.fresh y hy (heq ▸ h.mem_after.mpr (.inr hx))
  fresh k hk := by
    rcases List.mem_append.mp hk with hk | hk
    · exact h.fresh k hk
    · exact fun hmem => h'.fresh k hk (h.subset hmem)
  after_eq := by
    ext k
    rw [h'.mem_after, h.mem_after, or_assoc, ← List.mem_append]
    exact Iff.rfl

/-- A key that was inserted is never inserted again. -/
theorem not_again (h : Inserts a xs b) (hsub : b ⊆ c) {k : K} (hx : k ∈ xs) (hy : k ∈ ys) :
    ¬ Inserts c ys d := fun h' =>
  h'.fresh k hy (hsub (h.mem_after.mpr (.inr hx)))

end Inserts

end Ledger
