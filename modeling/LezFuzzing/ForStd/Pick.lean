import LezFuzzing.ForStd.BitVec

/-!
# Picking by residue

`Fin.pick e raw` is the value that an arbitrary number picks out of `n` values by its
residue, as `xs[raw % n]` does. Numbers pick the same value exactly when they are
congruent, and among the first `m` numbers each value is picked equally often, up to one.

`Fin.others i` numbers the indices other than `i`, going round from the one behind it.
Picking through it draws an index that is never `i`.

## Key results

- `pick_eq_iff`, `pick_eq_pick_iff`: picking is congruence
- `count_pick`, `ncard_pick`: how often a value is picked, by numbers and by words
- `val_others`: the arithmetic behind `others`
-/

namespace Fin

section Pick

variable {n : ℕ} [NeZero n] {β : Type} (e : Fin n ≃ β)

/-- The value that a number picks by its residue. -/
def pick (raw : ℕ) : β := e (Fin.ofNat n raw)

variable {e}

/-- A value is picked by the numbers congruent to its own. -/
theorem pick_eq_iff {raw : ℕ} {b : β} : pick e raw = b ↔ raw ≡ (e.symm b).val [MOD n] := by
  unfold pick
  rw [← Equiv.eq_symm_apply, Fin.ext_iff, Fin.val_ofNat, Nat.ModEq,
    Nat.mod_eq_of_lt (e.symm b).isLt]

theorem pick_eq_pick_iff {raw raw' : ℕ} : pick e raw = pick e raw' ↔ raw ≡ raw' [MOD n] := by
  unfold pick
  rw [e.apply_eq_iff_eq, Fin.ext_iff, Fin.val_ofNat, Fin.val_ofNat, Nat.ModEq]

/-- Every value is picked within the first `n` numbers. -/
theorem exists_pick_eq (b : β) : ∃ raw < n, pick e raw = b :=
  ⟨(e.symm b).val, (e.symm b).isLt, pick_eq_iff.mpr rfl⟩

variable [DecidableEq β]

/-- How often a value is picked by the first `m` numbers. -/
theorem count_pick (m : ℕ) (b : β) :
    m.count (pick e · = b) = m / n + if (e.symm b).val < m % n then 1 else 0 := by
  have hcount := Nat.count_modEq_card m (Nat.pos_of_neZero n) (e.symm b).val
  rw [Nat.mod_eq_of_lt (e.symm b).isLt] at hcount
  rw [← hcount]
  congr 1
  funext raw
  exact propext pick_eq_iff

/-- As many words have a property of their values as numbers below `2 ^ w` have it. -/
theorem ncard_toNat (w : ℕ) (p : ℕ → Prop) [DecidablePred p] :
    {x : BitVec w | p x.toNat}.ncard = (2 ^ w).count p := by
  have himage : BitVec.toNat '' {x : BitVec w | p x.toNat} = (Finset.range (2 ^ w)).filter p := by
    ext k
    simp only [Set.mem_image, Set.mem_ofPred_eq, Finset.coe_filter, Finset.mem_range]
    constructor
    · rintro ⟨x, hp, rfl⟩
      exact ⟨x.isLt, hp⟩
    · rintro ⟨hlt, hp⟩
      obtain ⟨x, rfl⟩ := BitVec.exists_toNat_eq hlt
      exact ⟨x, hp, rfl⟩
  have hinjective : Function.Injective (BitVec.toNat : BitVec w → ℕ) :=
    fun _ _ => BitVec.eq_of_toNat_eq
  rw [← Set.ncard_image_of_injective _ hinjective, himage, Set.ncard_coe_finset,
    Nat.count_eq_card_filter_range]

/-- How many words pick a value. -/
theorem ncard_pick (w : ℕ) (b : β) :
    {raw : BitVec w | pick e raw.toNat = b}.ncard =
      2 ^ w / n + if (e.symm b).val < 2 ^ w % n then 1 else 0 := by
  rw [ncard_toNat w (pick e · = b), count_pick]

end Pick

/-! ## All indices but one -/

variable {n : ℕ}

/-- The indices other than `i`, from the one behind it on. -/
def others (i : Fin (n + 1)) : Fin n ≃ {j : Fin (n + 1) // j ≠ i} :=
  (finSuccAboveEquiv 0).trans ((Equiv.addLeft i).subtypeEquiv fun j => by simp)

theorem val_others (i : Fin (n + 1)) (k : Fin n) :
    (others i k).val.val = (i.val + (1 + k.val)) % (n + 1) := by
  have hval : (others i k).val = i + k.succ := rfl
  rw [hval, Fin.val_add, Fin.val_succ, Nat.add_comm k.val 1]

end Fin
