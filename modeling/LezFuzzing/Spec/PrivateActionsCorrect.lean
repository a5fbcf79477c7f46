import LezFuzzing.ForStd.Greedy
import LezFuzzing.Native.PrivacyGenerators

/-!
# The private actions of a message

The validator wants the nullifiers and the commitments of a message's private actions to be
unique, each by themselves. The generator pushes one candidate after the other unless it
repeats either, so what it collects is a greedy selection of candidates that do not clash.

## Key results

- `pushPrivateActionIfUnique_eq`, `actionsUnique_iff`: the loop is greedy selection
- `foldl_push_eq_iff`: the selection is the only one that keeps unique actions and drops an
  action only for one kept before it
- `foldl_push_greedy`: what becomes of any list of candidates
-/

namespace LezFuzzing.Spec

open LezFuzzing.Native

variable {M : Machine} {P : PrivacyCrates M}

/-- Private actions that share neither a nullifier nor a commitment. -/
structure ActionsUnique (actions : List (PrivateAction P.toPrivacyTypes)) : Prop where
  nullifiers : (actions.map (·.nullifier)).Nodup
  commitments : (actions.map (·.commitment)).Nodup

/-- Two actions that the validator does not accept in one message. -/
def Clash (a b : PrivateAction P.toPrivacyTypes) : Prop :=
  a.nullifier = b.nullifier ∨ a.commitment = b.commitment

instance : DecidableRel (Clash (P := P)) := fun _ _ => inferInstanceAs (Decidable (_ ∨ _))

/-- Every candidate is kept or dropped, and a dropped one clashes with a kept one in front of
    it. -/
def DropsOnlyClashes (candidates kept : List (PrivateAction P.toPrivacyTypes)) : Prop :=
  ∃ flags : List (PrivateAction P.toPrivacyTypes × Bool),
    flags.map Prod.fst = candidates ∧ List.flagged flags = kept ∧
    ∀ front action rest, flags = front ++ (action, false) :: rest →
      ∃ earlier ∈ List.flagged front,
        earlier.nullifier = action.nullifier ∨ earlier.commitment = action.commitment

/-- The push drops exactly the clashes. -/
theorem pushPrivateActionIfUnique_eq :
    pushPrivateActionIfUnique (P := P) = List.pushUnless Clash := by
  funext actions action
  unfold pushPrivateActionIfUnique
  by_cases h : ∃ earlier ∈ actions, Clash earlier action
  · rw [List.pushUnless_of_clash h]
    exact if_pos (by simpa [Clash] using h)
  · rw [List.pushUnless_of_not_clash h]
    exact if_neg (by simpa [Clash] using h)

/-- Actions are unique in both fields when no two of them clash. -/
theorem actionsUnique_iff {actions : List (PrivateAction P.toPrivacyTypes)} :
    ActionsUnique actions ↔ actions.Pairwise fun a b => ¬Clash a b := by
  simp only [Clash, not_or, List.pairwise_and_iff]
  constructor
  · intro h
    exact ⟨List.pairwise_map.mp h.nullifiers, List.pairwise_map.mp h.commitments⟩
  · rintro ⟨hnullifiers, hcommitments⟩
    exact ⟨List.pairwise_map.mpr hnullifiers, List.pairwise_map.mpr hcommitments⟩

/-- Pushing candidate after candidate selects greedily. -/
theorem foldl_push_eq (candidates : List (PrivateAction P.toPrivacyTypes)) :
    candidates.foldl pushPrivateActionIfUnique [] = List.greedy Clash candidates := by
  rw [pushPrivateActionIfUnique_eq, List.greedy]

/-- The selection keeps unique actions and drops only what clashes with a kept action in
    front of it. These two conditions leave no other selection. -/
theorem foldl_push_eq_iff {candidates kept : List (PrivateAction P.toPrivacyTypes)} :
    candidates.foldl pushPrivateActionIfUnique [] = kept ↔
      ActionsUnique kept ∧ DropsOnlyClashes candidates kept := by
  rw [foldl_push_eq, actionsUnique_iff]
  exact List.greedy_eq_iff

/-- What becomes of a list of candidates: a subsequence without a repeated nullifier and
    without a repeated commitment, from which a candidate is missing only where it repeats a
    field of an action kept before it. The subsequence is empty for the empty list alone, it
    is the whole list for unique candidates alone, and selecting from it again keeps it. -/
theorem foldl_push_greedy (candidates : List (PrivateAction P.toPrivacyTypes)) :
    let kept := candidates.foldl pushPrivateActionIfUnique []
    kept.Sublist candidates ∧
      (kept.map (·.nullifier)).Nodup ∧ (kept.map (·.commitment)).Nodup ∧
      DropsOnlyClashes candidates kept ∧
      (kept = [] ↔ candidates = []) ∧
      (kept = candidates ↔ ActionsUnique candidates) ∧
      kept.foldl pushPrivateActionIfUnique [] = kept := by
  intro kept
  obtain ⟨hunique, hdropped⟩ := foldl_push_eq_iff.mp (rfl : _ = kept)
  have hkept : kept = List.greedy Clash candidates := foldl_push_eq candidates
  refine ⟨?_, hunique.nullifiers, hunique.commitments, hdropped, ?_, ?_, ?_⟩
  · rw [hkept]
    exact List.greedy_sublist Clash candidates
  · rw [hkept]
    exact List.greedy_eq_nil_iff Clash
  · rw [hkept, actionsUnique_iff]
    exact List.greedy_eq_self_iff Clash
  · rw [foldl_push_eq, hkept]
    exact List.greedy_greedy Clash candidates

end LezFuzzing.Spec
