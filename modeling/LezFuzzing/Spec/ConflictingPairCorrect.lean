import LezFuzzing.Spec.PrivacyGeneratorsCorrect

/-!
# The contract of the conflicting-pair builder

The builder gives up where it cannot make two transactions that differ in signer and
commitment. With draws that succeed there are two such places: fewer than two accounts, and
two equal commitments. The second index is repaired when it collides with the first, so
accounts with distinct ids never run into the signer check.

## Key results

- `signerIndices_of_eq_ok`: the indices that two bytes give are in range, and differ
- `arbConflictingNullifierPair_run`: the builder on accounts with distinct ids
- `arbConflictingNullifierPair_contract`: when it returns, and what
-/

namespace LezFuzzing.Spec

open LezFuzzing.Native

/-! ## When the builder returns -/

/-- Every draw returns a value. -/
structure DrawsSucceed (u : Unstructured) : Prop where
  u8 : u.u8.Succeeds
  u128 : u.u128.Succeeds
  bytes32 : u.bytes32.Succeeds
  vecU8 : u.vecU8.Succeeds

section Returns

variable {M : Machine} {P : PrivacyCrates M} {u : Unstructured} (hu : DrawsSucceed u)
include hu

theorem arbAccount_succeeds : (arbAccount P u).Succeeds :=
  Gen.succeeds_bind hu.u128 fun _ => Gen.succeeds_bind hu.u128 fun _ => Gen.succeeds_pure

theorem arbCommitment_succeeds : (arbCommitment P u).Succeeds :=
  Gen.succeeds_bind hu.bytes32 fun _ =>
    Gen.succeeds_bind (arbAccount_succeeds hu) fun _ => Gen.succeeds_pure

theorem arbEncryptedAccountData_succeeds : (arbEncryptedAccountData P u).Succeeds := by
  refine Gen.succeeds_bind (arbAccount_succeeds hu) fun account => ?_
  refine Gen.succeeds_bind hu.bytes32 fun identifier => ?_
  refine Gen.succeeds_bind hu.bytes32 fun sharedSecret => ?_
  refine Gen.succeeds_bind hu.bytes32 fun nullifierId => ?_
  refine Gen.succeeds_bind hu.vecU8 fun epk => ?_
  exact Gen.succeeds_bind hu.u8 fun viewTag => Gen.succeeds_pure

end Returns

/-- The two commitments the builder draws: after the two index bytes and the nullifier's id. -/
def drawnCommitments {M : Machine} (P : PrivacyCrates M) (u : Unstructured) :
    Gen u.Bytes GenError (P.Commitment × P.Commitment) := do
  let _ ← u.u8
  let _ ← u.u8
  let _ ← u.bytes32
  let commB ← arbCommitment P u
  let commC ← arbCommitment P u
  return (commB, commC)

section Contract

variable {M : Machine} {P : PrivacyCrates M} {u : Unstructured} {state : M.State}
  {accounts : List (FuzzAccount M.toKeys)}

/-- The indices that two bytes give. -/
theorem signerIndices_of_eq_ok {n : ℕ} (htwo : 2 ≤ n) {s s₁ s₂ : u.Bytes}
    {iByte jByte : BitVec 8} (hi : u.u8 s = (.ok iByte, s₁)) (hj : u.u8 s₁ = (.ok jByte, s₂)) :
    ∃ i j, signerIndices u n s = (.ok (i, j), s₂) ∧ i < n ∧ j < n ∧ i ≠ j := by
  have hrun : signerIndices u n s =
      (.ok (iByte.toNat % n, movedOn n (iByte.toNat % n) (jByte.toNat % n)), s₂) := by
    rw [signerIndices_eq u (by omega), Gen.bind_of_eq_ok hi, Gen.bind_of_eq_ok hj]
    rfl
  exact ⟨_, _, hrun, signerIndices_ensures u htwo s _ s₂ hrun⟩

/-- On two or more accounts with distinct ids the builder draws two commitments, and then
    returns a pair unless they are equal. -/
theorem arbConflictingNullifierPair_run (P : PrivacyCrates M) (state : M.State)
    (hu : DrawsSucceed u) (htwo : 2 ≤ accounts.length)
    (hnd : (accounts.map fun acc => accountIdForKey M.toKeys acc.privateKey).Nodup)
    (input : u.Bytes) :
    ∃ commB commC mid, drawnCommitments P u input = (.ok (commB, commC), mid) ∧
      (commB = commC → arbConflictingNullifierPair P u state accounts input =
        (.error (.err .incorrectFormat), mid)) ∧
      (commB ≠ commC → ∃ txs rest,
        arbConflictingNullifierPair P u state accounts input = (.ok txs, rest)) := by
  obtain ⟨iByte, s₁, hi⟩ := hu.u8 input
  obtain ⟨jByte, s₂, hj⟩ := hu.u8 s₁
  obtain ⟨nullAid, s₃, hnull⟩ := hu.bytes32 s₂
  obtain ⟨commB, s₄, hB⟩ := arbCommitment_succeeds (P := P) hu s₃
  obtain ⟨commC, s₅, hC⟩ := arbCommitment_succeeds (P := P) hu s₄
  have hdrawn : drawnCommitments P u input = (.ok (commB, commC), s₅) := by
    unfold drawnCommitments
    rw [Gen.bind_of_eq_ok hi, Gen.bind_of_eq_ok hj, Gen.bind_of_eq_ok hnull, Gen.bind_of_eq_ok hB,
      Gen.bind_of_eq_ok hC]
    rfl
  obtain ⟨i, j, hindices, hilt, hjlt, hij⟩ := signerIndices_of_eq_ok htwo hi hj
  -- distinct indices pick accounts with distinct ids
  have hsigners : accountIdForKey M.toKeys accounts[i].privateKey ≠
      accountIdForKey M.toKeys accounts[j].privateKey := by
    intro heq
    have hget := List.inj_on_of_nodup_map hnd (List.getElem_mem _) (List.getElem_mem _) heq
    exact hij ((hnd.of_map _).getElem_inj_iff.mp hget)
  have hB' : (indexed accounts i : Gen u.Bytes GenError _) s₂ = (.ok accounts[i], s₂) := by
    rw [indexed_eq hilt]
    rfl
  have hC' : (indexed accounts j : Gen u.Bytes GenError _) s₂ = (.ok accounts[j], s₂) := by
    rw [indexed_eq hjlt]
    rfl
  refine ⟨commB, commC, s₅, hdrawn, ?_⟩
  -- the builder up to the commitment check
  unfold arbConflictingNullifierPair
  rw [if_neg (by omega), Gen.bind_of_eq_ok hindices]
  dsimp only
  rw [Gen.bind_of_eq_ok hB', Gen.bind_of_eq_ok hC', if_neg hsigners, Gen.bind_of_eq_ok hnull,
    Gen.bind_of_eq_ok hB, Gen.bind_of_eq_ok hC]
  refine ⟨fun heq => ?_, fun hne => ?_⟩
  · rw [if_pos heq]
    rfl
  · obtain ⟨encryptedB, s₆, hencB⟩ := arbEncryptedAccountData_succeeds (P := P) hu s₅
    obtain ⟨encryptedC, s₇, hencC⟩ := arbEncryptedAccountData_succeeds (P := P) hu s₆
    rw [if_neg hne, Gen.bind_of_eq_ok hencB, Gen.bind_of_eq_ok hencC]
    exact ⟨_, s₇, rfl⟩

/-! ## What it returns -/

/-- A transaction of one signer with one private action, bound to the live root, and
    nothing public. -/
structure PurePrivate (P : PrivacyCrates M) (state : M.State)
    (accounts : List (FuzzAccount M.toKeys)) (tx : M.PrivacyPreservingTransaction)
    (signer : AccountId) (action : PrivateAction P.toPrivacyTypes) : Prop where
  signers : signerAccountIds M (.PrivacyPreserving tx) = [signer]
  listed : ∃ acc ∈ accounts, signer = accountIdForKey M.toKeys acc.privateKey
  message : ∃ message proof keys,
    tx = P.newTransaction message (P.witnessSetForMessage message proof keys) ∧
    message.nonces = [M.nonce state signer] ∧ message.privateActions = [action] ∧
    message.publicActions = [] ∧ message.programImageClaims = [] ∧
    message.blockValidityWindow = P.newUnbounded ∧
    message.timestampValidityWindow = P.newUnbounded
  root : action.root = P.commitmentSetDigest state

/-- The builder's transactions are pure-private. -/
theorem purePrivate_build (hwit : WitnessPerKey P) {key : M.PrivateKey}
    (hlisted : ListedKey accounts key) {action : PrivateAction P.toPrivacyTypes}
    (hroot : action.root = P.commitmentSetDigest state) :
    PurePrivate P state accounts (buildPurePrivateTx P state key [action])
      (accountIdForKey M.toKeys key) action where
  signers := signerAccountIds_newTransaction hwit _ _ _
  listed := by
    obtain ⟨acc, hacc, rfl⟩ := hlisted
    exact ⟨acc, hacc, rfl⟩
  message := ⟨_, _, _, rfl, rfl, rfl, rfl, rfl, rfl, rfl⟩
  root := hroot

end Contract

/-- The contract of the conflicting-pair builder. With fewer than two accounts it fails; on
    two or more accounts with distinct key-derived ids it never panics and returns exactly
    when the two drawn commitments differ; and whatever it returns are two pure-private
    transactions of different listed signers, with one nullifier and two commitments. -/
theorem arbConflictingNullifierPair_contract {M : Machine} (P : PrivacyCrates M)
    (hwit : WitnessPerKey P) (u : Unstructured) (hu : DrawsSucceed u) (state : M.State)
    (accounts : List (FuzzAccount M.toKeys)) (input : u.Bytes) :
    (accounts.length < 2 → arbConflictingNullifierPair P u state accounts input =
      (.error (.err .incorrectFormat), input)) ∧
    (2 ≤ accounts.length →
      (accounts.map fun acc => accountIdForKey M.toKeys acc.privateKey).Nodup →
      (∀ p rest, arbConflictingNullifierPair P u state accounts input ≠
        (.error (.panic p), rest)) ∧
      ∃ commB commC mid, drawnCommitments P u input = (.ok (commB, commC), mid) ∧
        ((∃ txs rest, arbConflictingNullifierPair P u state accounts input = (.ok txs, rest)) ↔
          commB ≠ commC)) ∧
    ∀ txB txC rest, arbConflictingNullifierPair P u state accounts input = (.ok (txB, txC), rest) →
      ∃ signerB signerC actionB actionC,
        PurePrivate P state accounts txB signerB actionB ∧
        PurePrivate P state accounts txC signerC actionC ∧
        signerB ≠ signerC ∧ actionB.nullifier = actionC.nullifier ∧
        actionB.commitment ≠ actionC.commitment := by
  refine ⟨fun hlen => ?_, fun htwo hnd => ?_, fun txB txC rest hrun => ?_⟩
  · unfold arbConflictingNullifierPair
    rw [if_pos hlen]
    rfl
  · obtain ⟨commB, commC, mid, hdrawn, hequal, hdiffer⟩ :=
      arbConflictingNullifierPair_run P state hu htwo hnd input
    by_cases heq : commB = commC
    · have hrun := hequal heq
      refine ⟨fun p rest hpanic => ?_, commB, commC, mid, hdrawn, ?_⟩
      · rw [hrun] at hpanic
        cases (Prod.mk.inj hpanic).1
      · rw [hrun]
        constructor
        · intro h
          obtain ⟨txs, rest, hok⟩ := h
          cases (Prod.mk.inj hok).1
        · exact fun hne => absurd heq hne
    · obtain ⟨txs, rest, hrun⟩ := hdiffer heq
      refine ⟨fun p rest' hpanic => ?_, commB, commC, mid, hdrawn, ?_⟩
      · rw [hrun] at hpanic
        cases (Prod.mk.inj hpanic).1
      · exact ⟨fun _ => heq, fun _ => ⟨txs, rest, hrun⟩⟩
  · obtain ⟨pair, htxs, hB, hC⟩ :=
      arbConflictingNullifierPair_ensures_listed u state accounts input _ rest hrun
    obtain ⟨rfl, rfl⟩ := Prod.mk.inj htxs
    exact ⟨_, _, pair.actionB, pair.actionC, purePrivate_build hwit hB pair.rootB,
      purePrivate_build hwit hC pair.rootC, pair.signers_ne, pair.nullifier_eq.symm,
      pair.commitments_ne⟩

theorem countingDraws_succeed : DrawsSucceed countingDraws where
  u8 _ := ⟨_, _, rfl⟩
  u128 _ := ⟨_, _, rfl⟩
  bytes32 _ := ⟨_, _, rfl⟩
  vecU8 _ := ⟨_, _, rfl⟩

/-- Draws from 0 on give two transactions with different signers. -/
theorem arbConflictingNullifierPair_contract_counting : ∃ txB txC rest,
    arbConflictingNullifierPair plainCrates countingDraws emptyPool twoSigners (0 : ℕ) =
      (.ok (txB, txC), rest) ∧
    ∃ signerB signerC, signerB ≠ signerC ∧
      signerAccountIds plainShielded (.PrivacyPreserving txB) = [signerB] ∧
      signerAccountIds plainShielded (.PrivacyPreserving txC) = [signerC] := by
  have hcontract := arbConflictingNullifierPair_contract plainCrates plainCrates_witnessPerKey
    countingDraws countingDraws_succeed emptyPool twoSigners (0 : ℕ)
  obtain ⟨commB, commC, mid, hdrawn, hiff⟩ := (hcontract.2.1 (by decide) (by decide)).2
  have hdraws : drawnCommitments plainCrates countingDraws (0 : ℕ) =
      (.ok ((⟨3⟩, ⟨4, (5 : U128)⟩), (⟨6⟩, ⟨7, (8 : U128)⟩)), (9 : ℕ)) := rfl
  obtain ⟨hok, _⟩ := Prod.mk.inj (hdrawn.symm.trans hdraws)
  obtain ⟨rfl, rfl⟩ := Prod.mk.inj (Except.ok.inj hok)
  obtain ⟨txs, rest, hrun⟩ := hiff.mpr (by decide)
  obtain ⟨signerB, signerC, _, _, hB, hC, hne, _⟩ := hcontract.2.2 txs.1 txs.2 rest hrun
  exact ⟨txs.1, txs.2, rest, hrun, signerB, signerC, hne, hB.signers, hC.signers⟩

end LezFuzzing.Spec
