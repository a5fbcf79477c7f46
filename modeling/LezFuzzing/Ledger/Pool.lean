import Mathlib

/-!
# Pools of commitments and nullifiers

A pool remembers every commitment added to it, every nullifier spent and every root it
ever had, next to the nonces of its signers. A spend is admitted when its nonce is
current, its commitment new, its nullifier unspent and its root known; settling it adds
the first two and advances the signer. Roots are only ever added.

## Key results

- `Settles.not_admits`: a nullifier is spent at most once
- `Step.conflict`: of two spends of one nullifier, the first admitted one wins
- `Step.conflict_comm`: their order does not decide how many are accepted
-/

namespace Ledger

/-- The shared state: nonces by signer, commitments, nullifiers and historical roots. -/
structure Pool (ι ν C N R : Type) where
  nonce : ι → ν
  commitments : Set C
  nullifiers : Set N
  roots : Set R

/-- What a spend declares. -/
structure Spend (ι ν C N R : Type) where
  signer : ι
  nonce : ν
  commitment : C
  nullifier : N
  root : R

namespace Pool

variable {ι ν C N R : Type} {p p₁ p₂ : Pool ι ν C N R} {s t : Spend ι ν C N R}

/-- The rules of admission. -/
def Admits (p : Pool ι ν C N R) (t : Spend ι ν C N R) : Prop :=
  t.nonce = p.nonce t.signer ∧ t.commitment ∉ p.commitments ∧ t.nullifier ∉ p.nullifiers ∧
    t.root ∈ p.roots

/-- `p'` is `p` after the spend `t`. How many roots are added is left open. -/
structure Settles [DecidableEq ι] [Add ν] [One ν] (p : Pool ι ν C N R) (t : Spend ι ν C N R)
    (p' : Pool ι ν C N R) : Prop where
  nonce : p'.nonce = Function.update p.nonce t.signer (p.nonce t.signer + 1)
  commitments : p'.commitments = insert t.commitment p.commitments
  nullifiers : p'.nullifiers = insert t.nullifier p.nullifiers
  roots : p.roots ⊆ p'.roots

variable [DecidableEq ι] [Add ν] [One ν]

/-- One attempt: an admitted spend settles, any other leaves the pool alone. -/
inductive Step (p : Pool ι ν C N R) (t : Spend ι ν C N R) : Bool → Pool ι ν C N R → Prop where
  | accept {p' : Pool ι ν C N R} (hadm : p.Admits t) (hsettle : p.Settles t p') : Step p t true p'
  | reject (hadm : ¬ p.Admits t) : Step p t false p

/-- A spend is not admitted once its nullifier is spent. -/
theorem Settles.not_admits (h : p.Settles s p₁) (hconflict : t.nullifier = s.nullifier) :
    ¬ p₁.Admits t := by
  intro hadm
  obtain ⟨_, _, hunspent, _⟩ := hadm
  rw [h.nullifiers, hconflict] at hunspent
  exact hunspent (Set.mem_insert _ _)

/-- The outcome of an attempt is whether the spend was admitted. -/
theorem Step.outcome {r : Bool} (h : p.Step t r p₁) : r = true ↔ p.Admits t := by
  cases h with
  | accept hadm => simp [hadm]
  | reject hadm => simp [hadm]

/-- Of two spends of one nullifier attempted in turn, the first is accepted if the pool
    admits it, and the second if the pool admits only it. -/
theorem Step.conflict {r₁ r₂ : Bool} (hconflict : t.nullifier = s.nullifier)
    (h₁ : p.Step s r₁ p₁) (h₂ : p₁.Step t r₂ p₂) :
    (r₁ = true ↔ p.Admits s) ∧ (r₂ = true ↔ ¬ p.Admits s ∧ p.Admits t) := by
  refine ⟨h₁.outcome, h₂.outcome.trans ?_⟩
  cases h₁ with
  | accept hadm hsettle =>
    have hnot := hsettle.not_admits hconflict
    exact ⟨fun h => absurd h hnot, fun h => absurd hadm h.1⟩
  | reject hadm => exact ⟨fun h => ⟨hadm, h⟩, And.right⟩

/-- In either order at most one of them is accepted, and equally many are. -/
theorem Step.conflict_comm {r₁ r₂ q₁ q₂ : Bool} {p₁' p₂' : Pool ι ν C N R}
    (hconflict : t.nullifier = s.nullifier)
    (hs : p.Step s r₁ p₁) (hst : p₁.Step t r₂ p₂)
    (ht : p.Step t q₁ p₁') (hts : p₁'.Step s q₂ p₂') :
    ¬ (r₁ = true ∧ r₂ = true) ∧ ¬ (q₁ = true ∧ q₂ = true) ∧
      r₁.toNat + r₂.toNat = q₁.toNat + q₂.toNat := by
  obtain ⟨hr₁, hr₂⟩ := hs.conflict hconflict hst
  obtain ⟨hq₁, hq₂⟩ := ht.conflict hconflict.symm hts
  by_cases hadm : p.Admits s <;> by_cases hadm' : p.Admits t <;>
    simp_all

end Pool

end Ledger
