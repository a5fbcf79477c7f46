import LezFuzzing.Spec.SplitMachine

/-!
# When the two split-path targets return

Under the documented semantics the split-path target asks that the diff leaves the
signers' nonces alone. The consistency target asks for more: it compares the diff with
the executed state without the second step of the application, so it panics whenever a
signer is a genesis account or declared by the diff.

## Key results

- `fuzzApplyStateDiffSplitPath_iff`, `fuzzValidateExecuteConsistency_iff`: when each returns
- `splitPathOracles_return_iff`: when neither panics
- `splitPathOracles_false_alarm`: an ordinary transfer on which one of them does
-/

namespace LezFuzzing.Spec

open LezFuzzing.Native

section Oracles

variable {S : SplitMachine} {initAccs : List (AccountId × U128)} {state : S.State} {tx : S.Tx}
  {diff : S.ValidatedStateDiff}

/-! ## One application -/

/-- Execution of a validated transaction. -/
theorem TwoStep.execute_eq (h : TwoStep S) (hvalid : S.validateOnState tx state 1 0 = .ok diff) :
    ∃ appliedTx, S.executeCheckOnState tx state 1 0 =
        (.ok appliedTx, S.applyStateDiff state diff) ∧
      signerAccountIds S.toMachine appliedTx = signerAccountIds S.toMachine tx := by
  have hok := h.isOk_execute tx state 1 0
  have hstate := h.state_execute tx state 1 0 diff hvalid
  have hsigners := h.signers_execute tx state 1 0
  rw [hvalid] at hok
  cases hexec : S.executeCheckOnState tx state 1 0 with
  | mk result execState =>
    rw [hexec] at hok hstate hsigners
    cases result with
    | error e => exact nomatch hok
    | ok appliedTx => exact ⟨appliedTx, by rw [← hstate], hsigners appliedTx rfl⟩

/-- Execution of a transaction that validation rejects. -/
theorem HalvesAgree.execute_eq_error (h : HalvesAgree S) {e : S.Error}
    (hvalid : S.validateOnState tx state 1 0 = .error e) :
    ∃ e' execState, S.executeCheckOnState tx state 1 0 = (.error e', execState) := by
  have hok := h.isOk_execute tx state 1 0
  rw [hvalid] at hok
  cases hexec : S.executeCheckOnState tx state 1 0 with
  | mk result execState =>
    rw [hexec] at hok
    cases result with
    | error e' => exact ⟨e', execState, rfl⟩
    | ok appliedTx => exact nomatch hok

/-- An account that did not sign holds what the diff writes. -/
theorem TwoStep.get_apply_of_notMem (h : TwoStep S)
    (hvalid : S.validateOnState tx state 1 0 = .ok diff) {id : AccountId}
    (hid : id ∉ signerAccountIds S.toMachine tx) :
    S.getAccountById (S.applyStateDiff state diff) id =
      writeDiff (S.publicDiff diff) (S.getAccountById state) id := by
  rw [h.accounts_applyStateDiff tx state 1 0 diff hvalid, foldl_incrementNonce_of_notMem hid]

/-- A signer's nonce is one more than the diff writes. -/
theorem TwoStep.nonce_apply_of_mem (h : TwoStep S)
    (hvalid : S.validateOnState tx state 1 0 = .ok diff)
    (hnd : (signerAccountIds S.toMachine tx).Nodup) {id : AccountId}
    (hid : id ∈ signerAccountIds S.toMachine tx) :
    S.nonce (S.applyStateDiff state diff) id =
      (writeDiff (S.publicDiff diff) (S.getAccountById state) id).nonce + 1 := by
  rw [Machine.nonce, h.accounts_applyStateDiff tx state 1 0 diff hvalid,
    foldl_incrementNonce_of_mem hnd hid]

/-! ## The four invariants of the consistency target -/

/-- 2a: the diff matches the executed state exactly when it declares no signer. -/
theorem assertForwardAccuracy_iff (h : TwoStep S)
    (hvalid : S.validateOnState tx state 1 0 = .ok diff)
    (hnd : (signerAccountIds S.toMachine tx).Nodup) :
    assertForwardAccuracy S (S.publicDiff diff) (S.applyStateDiff state diff) = .ok () ↔
      ∀ id ∈ signerAccountIds S.toMachine tx, id ∉ S.publicDiff diff := by
  have hentry : assertForwardAccuracy S (S.publicDiff diff) (S.applyStateDiff state diff) =
      .ok () ↔ ∀ id account, (S.publicDiff diff).lookup id = some account →
        account = S.getAccountById (S.applyStateDiff state diff) id := by
    rw [assertForwardAccuracy, Except.forM_eq_ok_iff]
    simp only [Except.assert_eq_ok_iff]
    exact AList.forall_entries_iff (P := fun id account =>
      account = S.getAccountById (S.applyStateDiff state diff) id)
  rw [hentry]
  constructor
  · intro hmatch id hid hmem
    obtain ⟨account, hlook⟩ := Option.isSome_iff_exists.mp (AList.lookup_isSome.mpr hmem)
    -- the executed nonce is one ahead of the declared one
    have hnonce := h.nonce_apply_of_mem hvalid hnd hid
    rw [writeDiff_of_mem hlook] at hnonce
    have hdeclared := congrArg Account.nonce (hmatch id account hlook)
    exact BitVec.add_one_ne (by decide) account.nonce (hnonce.symm.trans hdeclared.symm)
  · intro hdisjoint id account hlook
    have hid : id ∉ signerAccountIds S.toMachine tx := fun hid =>
      hdisjoint id hid (AList.lookup_isSome.mp (by rw [hlook]; rfl))
    rw [h.get_apply_of_notMem hvalid hid, writeDiff_of_mem hlook]

/-- 2b: no account changes outside the diff exactly when no genesis account signs. -/
theorem assertReverseAccuracy_iff (h : TwoStep S)
    (hvalid : S.validateOnState tx state 1 0 = .ok diff)
    (hnd : (signerAccountIds S.toMachine tx).Nodup)
    (hdisjoint : ∀ id ∈ signerAccountIds S.toMachine tx, id ∉ S.publicDiff diff) :
    assertReverseAccuracy S initAccs state (S.publicDiff diff) (S.applyStateDiff state diff) =
        .ok () ↔
      ∀ id ∈ signerAccountIds S.toMachine tx, id ∉ initAccs.map Prod.fst := by
  have hcheck : assertReverseAccuracy S initAccs state (S.publicDiff diff)
      (S.applyStateDiff state diff) = .ok () ↔
        ∀ id ∈ knownIds initAccs (S.publicDiff diff), id ∉ S.publicDiff diff →
          S.getAccountById state id = S.getAccountById (S.applyStateDiff state diff) id := by
    rw [assertReverseAccuracy, Except.forM_eq_ok_iff]
    refine forall₂_congr fun id _ => ?_
    split
    · rename_i hchanged
      rw [Except.assert_eq_ok_iff]
      exact ⟨fun hmem hnot => absurd hmem hnot, fun hsame => by_contra fun hnot =>
        hchanged (hsame hnot)⟩
    · rename_i hsame
      exact ⟨fun _ _ => not_not.mp hsame, fun _ => rfl⟩
  rw [hcheck]
  constructor
  · intro hsame id hid hinit
    -- an undeclared signer is changed by its nonce
    have hget := hsame id (mem_knownIds.mpr (.inl hinit)) (hdisjoint id hid)
    have hnonce := h.nonce_apply_of_mem hvalid hnd hid
    rw [writeDiff_of_notMem (hdisjoint id hid), Machine.nonce, ← hget] at hnonce
    exact BitVec.add_one_ne (by decide) _ hnonce.symm
  · intro hinit id hknown hnot
    have hid : id ∉ signerAccountIds S.toMachine tx := fun hid =>
      (mem_knownIds.mp hknown).elim (hinit id hid) hnot
    rw [h.get_apply_of_notMem hvalid hid, writeDiff_of_notMem hnot]

/-- 3: the known total is conserved, so it is compared exactly when it can be computed. -/
theorem assertKnownTotal_iff (hconserves : Conserves S initAccs)
    (hvalid : S.validateOnState tx state 1 0 = .ok diff) :
    assertKnownTotal S initAccs state (S.publicDiff diff) (S.applyStateDiff state diff) =
        .ok () ↔
      (∀ id ∈ knownIds initAccs (S.publicDiff diff), (S.balance state id).isSome) ∧
      totalNat S.toMachine state (knownIds initAccs (S.publicDiff diff)) < 2 ^ 128 := by
  simp only [assertKnownTotal, Except.bind_eq_ok_iff, Except.assert_eq_ok_iff,
    sumNativeBalances_eq_ok_iff]
  constructor
  · intro h
    obtain ⟨before, ⟨hdec, hbefore⟩, _⟩ := h
    exact ⟨hdec, hbefore ▸ before.isLt⟩
  · intro h
    obtain ⟨hdec, hlt⟩ := h
    obtain ⟨hdec', htotal⟩ := hconserves tx state 1 0 diff hvalid hdec
    obtain ⟨total, hnat⟩ := BitVec.exists_toNat_eq hlt
    exact ⟨total, ⟨hdec, hnat⟩, total, ⟨hdec', htotal.trans hnat⟩, rfl⟩

/-! ## The two targets -/

/-- The nonce check of the split path, on the applied diff. -/
theorem assertNonceIncrementCorrectness_apply_iff (h : TwoStep S)
    (hvalid : S.validateOnState tx state 1 0 = .ok diff)
    (hnd : (signerAccountIds S.toMachine tx).Nodup)
    (hnonces : ∀ id ∈ signerAccountIds S.toMachine tx, (S.nonce state id).toNat + 1 < 2 ^ 128) :
    assertNonceIncrementCorrectness S.toMachine (signerAccountIds S.toMachine tx)
        (nonceSnapshot S.toMachine state (signerAccountIds S.toMachine tx))
        (S.applyStateDiff state diff) = .ok () ↔
      ∀ id ∈ signerAccountIds S.toMachine tx,
        (writeDiff (S.publicDiff diff) (S.getAccountById state) id).nonce = S.nonce state id := by
  rw [assertNonceIncrementCorrectness_iff]
  refine forall₂_congr fun id hid => ?_
  have hlook : (nonceSnapshot S.toMachine state (signerAccountIds S.toMachine tx)).nonces.lookup
      id = some (S.nonce state id) := by
    rw [lookup_nonceSnapshot, if_pos hid]
  rw [hlook, h.nonce_apply_of_mem hvalid hnd hid]
  simp only [Option.some.injEq, forall_eq']
  have hlt := hnonces id hid
  rw [BitVec.toNat_add_one_eq_iff (by decide)]
  exact ⟨fun ⟨_, heq, _⟩ => heq, fun heq => ⟨by omega, heq, hlt⟩⟩

/-- The split path asks that the diff leaves every signer's nonce as it was. -/
theorem fuzzApplyStateDiffSplitPath_iff (h : TwoStep S) {txRaw : S.Tx}
    (hcheck : S.transactionStatelessCheck txRaw = .ok tx)
    (hnd : (signerAccountIds S.toMachine tx).Nodup)
    (hnonces : ∀ id ∈ signerAccountIds S.toMachine tx, (S.nonce state id).toNat + 1 < 2 ^ 128) :
    (fuzzApplyStateDiffSplitPath S initAccs state txRaw).Returns ↔
      ∀ diff, S.validateOnState tx state 1 0 = .ok diff →
        ∀ id ∈ signerAccountIds S.toMachine tx,
          (writeDiff (S.publicDiff diff) (S.getAccountById state) id).nonce = S.nonce state id := by
  unfold fuzzApplyStateDiffSplitPath
  rw [hcheck]
  cases hvalid : S.validateOnState tx state 1 0 with
  | error e =>
    simp only [hvalid]
    exact ⟨fun _ => nofun, fun _ => ⟨(), rfl⟩⟩
  | ok diff =>
    obtain ⟨appliedTx, hexec, _⟩ := h.execute_eq hvalid
    have hnonce := assertNonceIncrementCorrectness_apply_iff h hvalid hnd hnonces
    simp only [hvalid, hexec, Except.returns_bind_iff, Except.ok.injEq, forall_eq']
    constructor
    · intro hret
      obtain ⟨_, hincr, _⟩ := hret
      exact hnonce.mp hincr
    · intro hkept
      -- both paths end in the same state, so the comparison that follows passes
      exact ⟨(), hnonce.mpr hkept, (), assertSameAccount_self ..⟩

/-- What both targets need of a validated transaction: no signer is known, as a genesis
    account or from the diff, and the known balances add up within a `u128`. -/
structure OraclesHold (S : SplitMachine) (initAccs : List (AccountId × U128)) (state : S.State)
    (tx : S.Tx) (diff : S.ValidatedStateDiff) : Prop where
  signers_unknown : ∀ id ∈ signerAccountIds S.toMachine tx,
    id ∉ knownIds initAccs (S.publicDiff diff)
  balances_decode : ∀ id ∈ knownIds initAccs (S.publicDiff diff), (S.balance state id).isSome
  total_lt : totalNat S.toMachine state (knownIds initAccs (S.publicDiff diff)) < 2 ^ 128

/-- The consistency target returns exactly under these conditions. -/
theorem fuzzValidateExecuteConsistency_iff (h : TwoStep S) (hconserves : Conserves S initAccs)
    {txRaw : S.Tx} (hcheck : S.transactionStatelessCheck txRaw = .ok tx)
    (hnd : (signerAccountIds S.toMachine tx).Nodup) :
    (fuzzValidateExecuteConsistency S initAccs state txRaw).Returns ↔
      ∀ diff, S.validateOnState tx state 1 0 = .ok diff →
        OraclesHold S initAccs state tx diff := by
  unfold fuzzValidateExecuteConsistency
  rw [hcheck]
  cases hvalid : S.validateOnState tx state 1 0 with
  | error e =>
    obtain ⟨e', execState, hexec⟩ := h.execute_eq_error hvalid
    simp only [hvalid, hexec]
    exact ⟨fun _ => nofun, fun _ => ⟨(), rfl⟩⟩
  | ok diff =>
    obtain ⟨appliedTx, hexec, hsigners⟩ := h.execute_eq hvalid
    have hforward := assertForwardAccuracy_iff h hvalid hnd
    have htotal := assertKnownTotal_iff hconserves hvalid
    simp only [hvalid, hexec, hsigners, Except.ok.injEq, forall_eq']
    constructor
    · intro hret
      obtain ⟨_, hret⟩ := hret
      obtain ⟨_, h2a, hret⟩ := Except.bind_eq_ok_iff.mp hret
      obtain ⟨_, h2b, hret⟩ := Except.bind_eq_ok_iff.mp hret
      obtain ⟨_, h3, _⟩ := Except.bind_eq_ok_iff.mp hret
      have hdisjoint := hforward.mp h2a
      have hinit := (assertReverseAccuracy_iff h hvalid hnd hdisjoint).mp h2b
      obtain ⟨hdec, hlt⟩ := htotal.mp h3
      exact ⟨fun id hid hknown => (mem_knownIds.mp hknown).elim (hinit id hid) (hdisjoint id hid),
        hdec, hlt⟩
    · intro hhold
      obtain ⟨hunknown, hdec, hlt⟩ := hhold
      have hdisjoint : ∀ id ∈ signerAccountIds S.toMachine tx, id ∉ S.publicDiff diff :=
        fun id hid hmem => hunknown id hid (mem_knownIds.mpr (.inr hmem))
      have hinit : ∀ id ∈ signerAccountIds S.toMachine tx, id ∉ initAccs.map Prod.fst :=
        fun id hid hmem => hunknown id hid (mem_knownIds.mpr (.inl hmem))
      have h2b := (assertReverseAccuracy_iff h hvalid hnd hdisjoint).mpr hinit
      -- 4: the snapshot holds genesis accounts only, so it knows no signer
      have h4 : assertNonceIncrementCorrectness S.toMachine (signerAccountIds S.toMachine tx)
          (nonceSnapshot S.toMachine state (initAccs.map Prod.fst))
          (S.applyStateDiff state diff) = .ok () := by
        refine assertNonceIncrementCorrectness_iff.mpr fun id hid n hn => ?_
        rw [lookup_nonceSnapshot, if_neg (hinit id hid)] at hn
        exact nomatch hn
      refine ⟨(), Except.bind_eq_ok_iff.mpr ⟨(), hforward.mpr hdisjoint, ?_⟩⟩
      refine Except.bind_eq_ok_iff.mpr ⟨(), h2b, ?_⟩
      exact Except.bind_eq_ok_iff.mpr ⟨(), htotal.mpr ⟨hdec, hlt⟩, h4⟩

end Oracles

/-! ## Both targets -/

/-- Neither target panics exactly when validation rejects the transaction, or no signer is
    known and the known balances add up. -/
theorem splitPathOracles_return_iff (S : SplitMachine) (h : TwoStep S)
    (initAccs : List (AccountId × U128)) (hconserves : Conserves S initAccs) (state : S.State)
    (txRaw tx : S.Tx) (hcheck : S.transactionStatelessCheck txRaw = .ok tx)
    (hnd : (signerAccountIds S.toMachine tx).Nodup)
    (hnonces : ∀ id ∈ signerAccountIds S.toMachine tx, (S.nonce state id).toNat + 1 < 2 ^ 128) :
    (fuzzApplyStateDiffSplitPath S initAccs state txRaw).Returns ∧
        (fuzzValidateExecuteConsistency S initAccs state txRaw).Returns ↔
      ∀ diff, S.validateOnState tx state 1 0 = .ok diff →
        OraclesHold S initAccs state tx diff := by
  rw [fuzzApplyStateDiffSplitPath_iff h hcheck hnd hnonces,
    fuzzValidateExecuteConsistency_iff h hconserves hcheck hnd]
  constructor
  · exact And.right
  · intro hhold
    -- an unknown signer is not in the diff, which then leaves its nonce alone
    refine ⟨fun diff hvalid id hid => ?_, hhold⟩
    have hnot : id ∉ S.publicDiff diff := fun hmem =>
      (hhold diff hvalid).signers_unknown id hid (mem_knownIds.mpr (.inr hmem))
    rw [writeDiff_of_notMem hnot]
    rfl

/-- A signer outside the genesis list and the diff passes both targets: the delegate, who signs
    for a transfer between two genesis accounts. -/
theorem splitPathOracles_return_stranger :
    let initAccs : List (AccountId × U128) := [(⟨1⟩, 10), (⟨2⟩, 3)]
    let state := ReferenceState.genesis initAccs
    let tx : plainSplit.Tx :=
      .Public (.inl { plainTransfer 1 0 2 4 with privateKey := (3 : Bytes32) })
    (fuzzApplyStateDiffSplitPath plainSplit initAccs state tx).Returns ∧
      (fuzzValidateExecuteConsistency plainSplit initAccs state tx).Returns := by
  intro initAccs state tx
  refine (splitPathOracles_return_iff plainSplit plainSplit_twoStep initAccs
    (plainSplit_conserves initAccs) state tx tx rfl (by decide) (by decide)).mpr ?_
  intro diff hvalid
  obtain rfl := Except.ok.inj hvalid
  exact ⟨by decide, by decide, by decide⟩

/-- A machine with the documented semantics, and a signed transfer of it between two
    genesis accounts on which the consistency target panics. -/
theorem splitPathOracles_false_alarm :
    let initAccs : List (AccountId × U128) := [(⟨1⟩, 10), (⟨2⟩, 3)]
    let state := ReferenceState.genesis initAccs
    let tx : plainSplit.Tx := .Public (.inl (plainTransfer 1 0 2 4))
    TwoStep plainSplit ∧ Conserves plainSplit initAccs ∧
      plainSplit.transactionStatelessCheck tx = .ok tx ∧
      (signerAccountIds plainSplit.toMachine tx).Nodup ∧
      (∀ id ∈ signerAccountIds plainSplit.toMachine tx,
        (plainSplit.nonce state id).toNat + 1 < 2 ^ 128) ∧
      ¬ ((fuzzApplyStateDiffSplitPath plainSplit initAccs state tx).Returns ∧
        (fuzzValidateExecuteConsistency plainSplit initAccs state tx).Returns) := by
  intro initAccs state tx
  refine ⟨plainSplit_twoStep, plainSplit_conserves initAccs, rfl, by decide, by decide, ?_⟩
  intro h
  obtain ⟨_, _, hret⟩ := h
  have hpanic : (fuzzValidateExecuteConsistency plainSplit initAccs state tx).isOk = false := by
    decide
  rw [hret] at hpanic
  exact nomatch hpanic

end LezFuzzing.Spec
