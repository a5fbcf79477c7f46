import Mathlib

/-!
# Merkle trees over any hash

A tree of depth `d` hashes `2 ^ d` leaves in pairs, level by level. An authentication path
holds the sibling of each node on the way up, and `recompute` climbs it again. Nothing is
assumed of the hash: where a path leads from a wrong leaf to the right root, two different
pairs with the same hash are met on the way, and `findCollision` finds them.

## Key results

- `recompute_path`: the path of a leaf leads to the root
- `leaf_eq_of_findCollision_eq_none`: a path to the root starts at the leaf, short of a collision
- `findCollision_sound`: what is found is a collision
-/

namespace Merkle

variable {H : Type} (node : H → H → H)

/-- The next level up. -/
def level (f : ℕ → H) : ℕ → H := fun i => node (f (2 * i)) (f (2 * i + 1))

/-- The root of the tree over the first `2 ^ d` leaves. -/
def root : ℕ → (ℕ → H) → H
  | 0, f => f 0
  | d + 1, f => root d (level node f)

/-- The other child of the same parent. -/
def sibling (i : ℕ) : ℕ := if i % 2 = 0 then i + 1 else i - 1

/-- The siblings on the way from leaf `i` to the root. -/
def path : ℕ → (ℕ → H) → ℕ → List H
  | 0, _, _ => []
  | d + 1, f, i => f (sibling i) :: path d (level node f) (i / 2)

/-- A node at index `i` next to its sibling, in the order of the tree. -/
def pair (i : ℕ) (x s : H) : H × H := if i % 2 = 0 then (x, s) else (s, x)

/-- The root that a leaf at index `i` and a path lead to. -/
def recompute (x : H) (i : ℕ) : List H → H
  | [] => x
  | s :: p => recompute ((node.uncurry) (pair i x s)) (i / 2) p

/-- The lowest two different pairs with one hash, of a tree and of a path from `x`. -/
def findCollision [DecidableEq H] (f : ℕ → H) (x : H) (i : ℕ) : List H → Option ((H × H) × H × H)
  | [] => none
  | s :: p =>
    match findCollision (level node f) (node.uncurry (pair i x s)) (i / 2) p with
    | some found => some found
    | none =>
      let j := i / 2 % 2 ^ p.length
      if (f (2 * j), f (2 * j + 1)) ≠ pair i x s ∧ level node f j = node.uncurry (pair i x s) then
        some ((f (2 * j), f (2 * j + 1)), pair i x s)
      else
        none

theorem length_path (d : ℕ) (f : ℕ → H) (i : ℕ) : (path node d f i).length = d := by
  induction d generalizing f i with
  | zero => rfl
  | succ d ih => rw [path, List.length_cons, ih]

/-- A leaf and its sibling are the two children of their parent. -/
theorem uncurry_pair_sibling (f : ℕ → H) (i : ℕ) :
    node.uncurry (pair i (f i) (f (sibling i))) = level node f (i / 2) := by
  unfold pair sibling level
  split
  · have hleft : 2 * (i / 2) = i := by omega
    rw [hleft]
    rfl
  · have hleft : 2 * (i / 2) = i - 1 := by omega
    have hright : i - 1 + 1 = i := by omega
    rw [hleft, hright]
    rfl

/-- The path of a leaf leads to the root. -/
theorem recompute_path {d : ℕ} (f : ℕ → H) {i : ℕ} (hi : i < 2 ^ d) :
    recompute node (f i) i (path node d f i) = root node d f := by
  induction d generalizing f i with
  | zero =>
    obtain rfl : i = 0 := Nat.lt_one_iff.mp hi
    rfl
  | succ d ih =>
    rw [path, recompute, uncurry_pair_sibling, root]
    exact ih (level node f) (Nat.div_lt_of_lt_mul (Nat.pow_succ' ▸ hi))

/-- What is found are two different pairs with the same hash. -/
theorem findCollision_sound [DecidableEq H] {f : ℕ → H} {x : H} {i : ℕ} {p : List H}
    {left right : H × H} (h : findCollision node f x i p = some (left, right)) :
    left ≠ right ∧ node.uncurry left = node.uncurry right := by
  induction p generalizing f x i with
  | nil => exact nomatch h
  | cons s p ih =>
    rw [findCollision] at h
    split at h
    · rename_i found hfound
      exact ih (hfound.trans h)
    · dsimp only at h
      split at h
      · rename_i hpair
        obtain ⟨rfl, rfl⟩ := Prod.mk.inj (Option.some.inj h)
        exact hpair
      · exact nomatch h

/-- A path that leads to the root starts at the leaf, if there is no collision on its way. -/
theorem leaf_eq_of_findCollision_eq_none [DecidableEq H] {d : ℕ} {f : ℕ → H} {x : H} {i : ℕ}
    {p : List H} (hlen : p.length = d) (hroot : recompute node x i p = root node d f)
    (hnone : findCollision node f x i p = none) : f (i % 2 ^ d) = x := by
  induction d generalizing f x i p with
  | zero =>
    obtain rfl := List.length_eq_zero_iff.mp hlen
    rw [Nat.pow_zero, Nat.mod_one]
    exact hroot.symm
  | succ d ih =>
    cases p with
    | nil => exact nomatch hlen
    | cons s p =>
      rw [List.length_cons, Nat.add_right_cancel_iff] at hlen
      rw [findCollision] at hnone
      split at hnone
      · exact nomatch hnone
      · rename_i habove
        -- the parents agree, so the pairs below them do
        have hparent := ih hlen hroot habove
        rw [hlen] at hnone
        have hchildren : (f (2 * (i / 2 % 2 ^ d)), f (2 * (i / 2 % 2 ^ d) + 1)) = pair i x s :=
          by_contra fun hne => nomatch (ite_eq_right_iff.mp hnone) ⟨hne, hparent⟩
        have hindex : i % 2 ^ (d + 1) = 2 * (i / 2 % 2 ^ d) + i % 2 := by
          rw [Nat.pow_succ', Nat.mod_mul]
          omega
        unfold pair at hchildren
        split at hchildren
        · rename_i heven
          rw [hindex, heven]
          exact congrArg Prod.fst hchildren
        · rename_i hodd
          have hone : i % 2 = 1 := by omega
          rw [hindex, hone]
          exact congrArg Prod.snd hchildren

end Merkle
