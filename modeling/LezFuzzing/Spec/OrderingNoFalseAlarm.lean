import LezFuzzing.Spec.HarnessCorrect
import LezFuzzing.Spec.PrivacyTransitionCorrect

/-!
# The ordering target raises no false alarm

The seeding loop may leave any state behind, and the pair is built against that state. On a
machine that executes private transactions like a pool, the two orders agree from every
state, so the target returns on all bytes.

## Key results

- `arbConflictingNullifierPair_failsWith`: the pair builder does not panic
- `seeding_succeeds`: the seeding loop reaches some state
- `fuzzTransactionOrderingIndependence_no_false_alarm`: the target, from the bytes on
-/

namespace LezFuzzing.Spec

open LezFuzzing.Native Ledger

section Ordering

variable {M : Machine} {P : PrivacyCrates M} {C : EffectCrates P.toPrivacyTypes} {u : Unstructured}
  (hu : DrawsDoNotPanic u)
include hu

theorem signerIndices_failsWith {n : ℕ} (hpos : 0 < n) :
    (signerIndices u n).FailsWith IsErr := by
  rw [signerIndices_eq u hpos]
  exact Gen.failsWith_bind hu.u8 fun _ => Gen.failsWith_bind hu.u8 fun _ => Gen.failsWith_pure

/-- The pair builder fails with errors only. -/
theorem arbConflictingNullifierPair_failsWith (state : M.State)
    (accounts : List (FuzzAccount M.toKeys)) :
    (arbConflictingNullifierPair P u state accounts).FailsWith IsErr := by
  have hfail : (Gen.fail (.err .incorrectFormat) : Gen u.Bytes GenError
      (M.PrivacyPreservingTransaction × M.PrivacyPreservingTransaction)).FailsWith IsErr :=
    fun _ _ _ hrun => ⟨_, (Except.error.inj (Prod.mk.inj hrun).1).symm⟩
  unfold arbConflictingNullifierPair
  split
  · exact hfail
  · have htwo : 2 ≤ accounts.length := by omega
    refine Gen.failsWith_bind_of_ensures (signerIndices_failsWith hu (by omega))
      (signerIndices_ensures u htwo) fun indices hindices => ?_
    obtain ⟨i, j⟩ := indices
    obtain ⟨hi, hj, _⟩ := hindices
    dsimp only at hi hj ⊢
    -- both indices are in range
    rw [indexed_eq hi]
    refine Gen.failsWith_bind Gen.failsWith_pure fun accountB => ?_
    rw [indexed_eq hj]
    refine Gen.failsWith_bind Gen.failsWith_pure fun accountC => ?_
    split
    · exact hfail
    · refine Gen.failsWith_bind hu.bytes32 fun nullAid => ?_
      refine Gen.failsWith_bind (arbCommitment_failsWith hu) fun commB => ?_
      refine Gen.failsWith_bind (arbCommitment_failsWith hu) fun commC => ?_
      split
      · exact hfail
      · refine Gen.failsWith_bind (arbEncryptedAccountData_failsWith hu) fun encryptedB => ?_
        exact Gen.failsWith_bind (arbEncryptedAccountData_failsWith hu) fun encryptedC =>
          Gen.failsWith_pure

/-- Seeding asserts nothing, so it ends in some state. -/
theorem seeding_succeeds (fuzzAccs : List (FuzzAccount M.toKeys)) (n : ℕ) (base : M.State) :
    (forDrawn n base (fun base => arbPrivacyPreservingTx P C u base fuzzAccs)
      fun i base tx => .ok (applySeed i base tx)).Succeeds :=
  Gen.drive_succeeds (fun state => isErr_of_failsWith (arbPrivacyPreservingTx_failsWith hu state _))
    fun k state tx => ⟨applySeed k state tx, rfl⟩

end Ordering

/-- The ordering target never panics where private transactions execute like a pool and the
    stateless gate hands a transaction back as it is, on any bytes: the seeding may accept or
    reject what it draws, and whatever pair follows is accepted at most once in either order and
    equally often in both. -/
theorem fuzzTransactionOrderingIndependence_no_false_alarm (M : Machine) (P : PrivacyCrates M)
    (V : ShieldedView P) (h : ExecutesPool V)
    (hsame : ∀ tx tx', M.transactionStatelessCheck tx = .ok tx' → tx' = tx)
    (G : GenesisCrates M) (C : EffectCrates P.toPrivacyTypes) (u : Unstructured)
    (hu : DrawsDoNotPanic u) (hseed : (M.tryNew knownGoodSeed).isSome) (input : u.Bytes) :
    ∃ rest, fuzzTransactionOrderingIndependenceEntry P u G C input = (.ok (), rest) := by
  have hsucceeds : (fuzzTransactionOrderingIndependenceEntry P u G C).Succeeds := by
    refine withFuzzState_succeeds hu hseed fun fuzzAccs _ => ?_
    split
    · exact Gen.succeeds_pure
    · refine Gen.succeeds_bind (unwrapOr_succeeds hu.u8 0) fun byte => ?_
      refine Gen.succeeds_bind (seeding_succeeds hu fuzzAccs _ _) fun base start => ?_
      have hfails := isErr_of_failsWith
        (arbConflictingNullifierPair_failsWith (P := P) hu base fuzzAccs)
      refine ⟨(), (Gen.exists_attempt_bind_eq_ok_iff hfails fun s => ⟨s, rfl⟩).mpr ?_⟩
      intro txs mid htxs
      obtain ⟨pair, rfl⟩ := arbConflictingNullifierPair_ensures u base fuzzAccs start txs mid htxs
      -- the pool lets one of the pair through, whichever comes first
      obtain ⟨hcount, hnotBC, hnotCB, _⟩ := pair.outcomes h
      exact Gen.exists_lift_eq_ok_iff.mpr (Except.returns_unit_iff.mp
        (assertOrderIndependence_returns hsame rfl rfl hnotBC hnotCB hcount))
  obtain ⟨_, rest, hrun⟩ := hsucceeds input
  exact ⟨rest, hrun⟩

/-- Draws from 17 on give two accounts, seeding transactions and a pair. -/
theorem fuzzTransactionOrderingIndependence_no_false_alarm_plain :
    ∃ rest, fuzzTransactionOrderingIndependenceEntry plainCrates countingDraws shieldedGenesis
      plainEffects (17 : ℕ) = (.ok (), rest) :=
  fuzzTransactionOrderingIndependence_no_false_alarm plainShielded plainCrates plainView
    plainShielded_executesPool (fun _ _ hcheck => (Except.ok.inj hcheck).symm) shieldedGenesis
    plainEffects countingDraws countingDraws_doNotPanic rfl (17 : ℕ)

end LezFuzzing.Spec
