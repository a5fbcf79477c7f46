import Mathlib

/-!
# Checked machine arithmetic

The overflow-aware operations a Rust program applies to its unsigned integers
(`checked_add`, `checked_sub`, `saturating_add`, a `try_fold` of `checked_add`, and the
remainder, which panics at zero), over `BitVec w` for an arbitrary width. Each operation has
one lemma that reads it as arithmetic on natural numbers, so that proofs never unfold it.

## Key results

- `checkedAdd_eq_some_iff` / `checkedSub_eq_some_iff`: success is the exact equation
- `checkedSum_eq_some_iff`: a checked sum succeeds exactly at the mathematical sum
- `exists_toNat_eq`: a number that fits is the value of a word
- `toNat_add_one_eq_iff`: a counter one ahead of another was incremented from it
-/

namespace BitVec

variable {w : Nat}

/-- Addition that fails when the sum does not fit the width. -/
def checkedAdd (x y : BitVec w) : Option (BitVec w) :=
  if x.toNat + y.toNat < 2 ^ w then some (x + y) else none

/-- Subtraction that fails when the result would be negative. -/
def checkedSub (x y : BitVec w) : Option (BitVec w) :=
  if y.toNat ≤ x.toNat then some (x - y) else none

/-- The remainder, where the divisor is not zero. -/
def checkedRem (x y : BitVec w) : Option (BitVec w) :=
  if y = 0 then none else some (x % y)

/-- Addition that sticks at the largest value of the width. -/
def saturatingAdd (x y : BitVec w) : BitVec w :=
  if x.toNat + y.toNat < 2 ^ w then x + y else allOnes w

/-- Sum of a list, adding from the left and stopping at the first overflow. -/
def checkedSum (xs : List (BitVec w)) : Option (BitVec w) :=
  xs.foldlM checkedAdd 0#w

/-! ## Single operations -/

/-- A checked addition succeeds exactly with the mathematical sum. -/
theorem checkedAdd_eq_some_iff {x y z : BitVec w} :
    x.checkedAdd y = some z ↔ x.toNat + y.toNat = z.toNat := by
  unfold checkedAdd
  constructor
  · intro h
    split at h
    · rename_i hlt
      obtain rfl := Option.some.inj h
      exact (toNat_add_of_lt hlt).symm
    · exact nomatch h
  · intro h
    have hlt : x.toNat + y.toNat < 2 ^ w := h ▸ z.isLt
    rw [if_pos hlt, Option.some.injEq, ← toNat_inj, toNat_add_of_lt hlt, h]

/-- A checked addition fails exactly when the sum overflows. -/
theorem checkedAdd_eq_none_iff {x y : BitVec w} :
    x.checkedAdd y = none ↔ 2 ^ w ≤ x.toNat + y.toNat := by
  unfold checkedAdd
  split <;> simp <;> omega

/-- A checked subtraction succeeds exactly with the mathematical difference. -/
theorem checkedSub_eq_some_iff {x y z : BitVec w} :
    x.checkedSub y = some z ↔ x.toNat = y.toNat + z.toNat := by
  unfold checkedSub
  constructor
  · intro h
    split at h
    · rename_i hle
      obtain rfl := Option.some.inj h
      rw [toNat_sub_of_le hle]
      omega
    · exact nomatch h
  · intro h
    have hle : y.toNat ≤ x.toNat := by omega
    rw [if_pos hle, Option.some.injEq, ← toNat_inj, toNat_sub_of_le hle]
    omega

/-- A checked remainder succeeds exactly with the mathematical one, for a divisor that is
    not zero. -/
theorem checkedRem_eq_some_iff {x y z : BitVec w} :
    x.checkedRem y = some z ↔ y.toNat ≠ 0 ∧ x.toNat % y.toNat = z.toNat := by
  unfold checkedRem
  have hzero : y = 0 ↔ y.toNat = 0 := by
    rw [← toNat_inj]
    exact Iff.rfl
  split
  · rename_i hy
    exact iff_of_false nofun fun h => h.1 (hzero.mp hy)
  · rename_i hy
    rw [Option.some.injEq, ← toNat_inj, toNat_umod]
    exact (and_iff_right fun h => hy (hzero.mpr h)).symm

/-- A sum that fits is the wrapped sum. -/
theorem checkedAdd_of_lt {x y : BitVec w} (h : x.toNat + y.toNat < 2 ^ w) :
    x.checkedAdd y = some (x + y) := if_pos h

/-- A difference that is not negative is the wrapped difference. -/
theorem checkedSub_of_le {x y : BitVec w} (h : y.toNat ≤ x.toNat) :
    x.checkedSub y = some (x - y) := if_pos h

/-- Saturating addition is the sum, capped at the largest value. -/
theorem toNat_saturatingAdd (x y : BitVec w) :
    (x.saturatingAdd y).toNat = min (x.toNat + y.toNat) (2 ^ w - 1) := by
  unfold saturatingAdd
  split
  · rw [toNat_add_of_lt ‹_›]
    omega
  · rw [toNat_allOnes]
    omega

/-! ## Values and counters -/

/-- A number that fits the width is the value of a word. -/
theorem exists_toNat_eq {n : Nat} (h : n < 2 ^ w) : ∃ x : BitVec w, n = x.toNat :=
  ⟨BitVec.ofNat w n, by rw [toNat_ofNat, Nat.mod_eq_of_lt h]⟩

/-- Incrementing a counter, with the wrap to zero. -/
theorem toNat_add_one (hw : 0 < w) (x : BitVec w) :
    (x + 1).toNat = if x.toNat + 1 < 2 ^ w then x.toNat + 1 else 0 := by
  have hone : (1 : BitVec w).toNat = 1 := Nat.mod_eq_of_lt (Nat.one_lt_two_pow (by omega))
  have hlt := x.isLt
  rw [toNat_add, hone]
  split
  · rename_i hfit
    exact Nat.mod_eq_of_lt hfit
  · -- only the largest value wraps
    have hmax : x.toNat + 1 = 2 ^ w := by omega
    rw [hmax, Nat.mod_self]

/-- A counter that can go on is incremented without wrapping. -/
theorem toNat_add_one_of_lt {x : BitVec w} (hw : 0 < w) (h : x.toNat + 1 < 2 ^ w) :
    (x + 1).toNat = x.toNat + 1 := by
  rw [toNat_add_one hw, if_pos h]

/-- A counter one ahead of another was incremented from it. -/
theorem toNat_add_one_eq_iff {x y : BitVec w} (hw : 0 < w) :
    (x + 1).toNat = y.toNat + 1 ↔ x = y ∧ y.toNat + 1 < 2 ^ w := by
  rw [toNat_add_one hw, ← toNat_inj]
  split <;> omega

/-- Incrementing changes a counter, even where it wraps. -/
theorem add_one_ne (hw : 0 < w) (x : BitVec w) : x + 1 ≠ x := by
  intro heq
  have hnat := congrArg BitVec.toNat heq
  have hpow : 1 < 2 ^ w := Nat.one_lt_two_pow (by omega)
  rw [toNat_add_one hw] at hnat
  split at hnat <;> omega

/-! ## Sums -/

/-- A checked fold succeeds exactly when accumulator plus sum is the result. -/
private theorem foldlM_checkedAdd_eq_some_iff (acc : BitVec w) (xs : List (BitVec w))
    (z : BitVec w) :
    xs.foldlM checkedAdd acc = some z ↔ acc.toNat + (xs.map BitVec.toNat).sum = z.toNat := by
  induction xs generalizing acc with
  | nil => simp [toNat_inj]
  | cons x xs ih =>
    simp only [List.foldlM_cons, List.map_cons, List.sum_cons]
    cases hadd : acc.checkedAdd x with
    | none =>
      rw [checkedAdd_eq_none_iff] at hadd
      have := z.isLt
      simp only [Option.bind_eq_bind, Option.bind_none, reduceCtorEq, false_iff]
      omega
    | some y =>
      rw [checkedAdd_eq_some_iff] at hadd
      simp only [Option.bind_eq_bind, Option.bind_some, ih, ← hadd]
      omega

/-- A checked sum succeeds exactly with the mathematical sum. -/
theorem checkedSum_eq_some_iff {xs : List (BitVec w)} {z : BitVec w} :
    checkedSum xs = some z ↔ (xs.map BitVec.toNat).sum = z.toNat := by
  simp [checkedSum, foldlM_checkedAdd_eq_some_iff]

end BitVec
