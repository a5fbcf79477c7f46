import LezFuzzing.Native.StateDiff
import LezFuzzing.Spec.ArbitraryTypesCorrect
import LezFuzzing.Spec.HarnessCorrect
import LezFuzzing.Spec.SplitPathCorrect

/-!
# What the targets want of a public diff

The second step of an application increments the nonces of the signers, whether the diff
declares them or not. So the diff target, which compares the diff with the executed state,
needs every affected signer in the diff, and the properties target asks for the same. The
consistency target needs the opposite: no signer in the diff.

## Key results

- `foldl_incrementNonce_nonce`: a signer's nonce counts its signatures
- `fuzzStateDiffComputation_returns_iff`: when the diff target returns, from the bytes on
- `publicDiffOracles_conflict`: no accepted signed transaction satisfies all three targets
-/

namespace LezFuzzing.Spec

open LezFuzzing.Native

/-- The public path of one transaction. The stateless check hands it back as it is, and a diff
    that `validate_on_state` accepts is the one that `from_public_transaction` computes. The
    converse is not asked for: `validate_on_state` goes on to guard the system accounts, and
    may reject what `from_public_transaction` accepts. -/
structure PublicHalf (D : DiffMachine) (state : D.State) (pubTx : D.PublicTransaction) :
    Prop where
  eq_of_stateless : ∀ tx, D.transactionStatelessCheck (.Public pubTx) = .ok tx →
    tx = .Public pubTx
  from_of_validate : ∀ diff, D.validateOnState (.Public pubTx) state 1 0 = .ok diff →
    D.fromPublicTransaction pubTx state 1 0 = .ok diff

/-- A signer's nonce counts its signatures. -/
theorem foldl_incrementNonce_nonce {Data : Type} (signers : List AccountId)
    (accounts : AccountId → Account Data) (id : AccountId) :
    (signers.foldl incrementNonce accounts id).nonce =
      (accounts id).nonce + .ofNat 128 (signers.count id) := by
  induction signers generalizing accounts with
  | nil => exact (BitVec.add_zero _).symm
  | cons signer signers ih =>
    rw [List.foldl_cons, ih, incrementNonce, List.count_cons]
    by_cases hid : id = signer
    · subst hid
      rw [if_pos rfl, beq_self_eq_true, if_pos rfl, BitVec.ofNat_add, BitVec.add_assoc]
      exact congrArg _ (BitVec.add_comm _ _)
    · rw [if_neg hid, if_neg (by simpa using Ne.symm hid), Nat.add_zero]

/-- An account is its nonce and its data. -/
private theorem Account.ext {Data : Type} {left right : Account Data}
    (hnonce : left.nonce = right.nonce) (hdata : left.data = right.data) : left = right := by
  cases left
  cases right
  exact congrArg₂ Account.mk hnonce hdata

section Diff

variable {D : DiffMachine} {state : D.State} {pubTx : D.PublicTransaction}
  {diff : D.ValidatedStateDiff}

/-- Outside the diff, execution changes an account exactly when its signatures do not add
    up to zero. -/
theorem TwoStep.changed_iff (h : TwoStep D.toSplitMachine) {tx : D.Tx}
    (hvalid : D.validateOnState tx state 1 0 = .ok diff) {id : AccountId}
    (hid : id ∉ D.publicDiff diff) :
    D.getAccountById state id ≠ D.getAccountById (D.applyStateDiff state diff) id ↔
      BitVec.ofNat 128 ((signerAccountIds D.toMachine tx).count id) ≠ 0 := by
  rw [h.accounts_applyStateDiff tx state 1 0 diff hvalid]
  have hnonce := foldl_incrementNonce_nonce (signerAccountIds D.toMachine tx)
    (writeDiff (D.publicDiff diff) (D.getAccountById state)) id
  have hdata : _ = (writeDiff (D.publicDiff diff) (D.getAccountById state) id).data :=
    foldl_incrementNonce_data (signerAccountIds D.toMachine tx) id
  rw [writeDiff_of_notMem hid] at hnonce hdata
  refine not_congr ⟨fun heq => ?_, fun hzero => ?_⟩
  · rw [← heq] at hnonce
    exact BitVec.self_eq_add_right.mp hnonce
  · rw [hzero] at hnonce
    exact Account.ext (hnonce.trans (BitVec.add_zero _)).symm hdata.symm

/-- The diff target: a diff within the declaration, and, if the transaction is executed, every
    affected signer in it. -/
structure DiffDeclared (D : DiffMachine) (state : D.State) (pubTx : D.PublicTransaction)
    (diff : D.ValidatedStateDiff) : Prop where
  contained : ∀ id ∈ D.publicDiff diff, id ∈ D.affectedPublicAccountIds pubTx
  complete : D.transactionStatelessCheck (.Public pubTx) = .ok (.Public pubTx) →
    D.validateOnState (.Public pubTx) state 1 0 = .ok diff →
    ∀ id ∈ D.affectedPublicAccountIds pubTx,
      BitVec.ofNat 128 ((signerAccountIds D.toMachine (.Public pubTx)).count id) ≠ 0 →
        id ∈ D.publicDiff diff

/-- Invariant 2 asks for the affected signers: the second step changes them, and the first
    changes nothing outside the diff. -/
theorem assertReverseCompleteness_iff (h : TwoStep D.toSplitMachine)
    (hvalid : D.validateOnState (.Public pubTx) state 1 0 = .ok diff) :
    (assertReverseCompleteness D (D.publicDiff diff) (D.affectedPublicAccountIds pubTx) state
        (D.applyStateDiff state diff)).Returns ↔
      ∀ id ∈ D.affectedPublicAccountIds pubTx,
        BitVec.ofNat 128 ((signerAccountIds D.toMachine (.Public pubTx)).count id) ≠ 0 →
          id ∈ D.publicDiff diff := by
  rw [assertReverseCompleteness, Except.returns_unit_iff, Except.forM_eq_ok_iff]
  refine forall₂_congr fun id _ => ?_
  by_cases hmem : id ∈ D.publicDiff diff
  · simp only [hmem, implies_true, iff_true]
    split <;> rfl
  · rw [← h.changed_iff hvalid hmem]
    split
    · rename_i hchanged
      rw [Except.assert_eq_ok_iff]
      exact ⟨fun hin _ => hin, fun hin => hin hchanged⟩
    · rename_i hsame
      exact ⟨fun _ hchanged => absurd hchanged hsame, fun _ => rfl⟩

/-- The diff target on one transaction. -/
private theorem diffTarget_returns_iff (h : TwoStep D.toSplitMachine)
    (hp : PublicHalf D state pubTx) :
    (fuzzStateDiffComputation D state pubTx).Returns ↔
      ∀ diff, D.fromPublicTransaction pubTx state 1 0 = .ok diff →
        DiffDeclared D state pubTx diff := by
  unfold fuzzStateDiffComputation
  cases hfrom : D.fromPublicTransaction pubTx state 1 0 with
  | error e => exact ⟨fun _ => nofun, fun _ => ⟨(), rfl⟩⟩
  | ok diff =>
    have hcontained : (assertForwardContainment D (D.publicDiff diff)
        (D.affectedPublicAccountIds pubTx) = .ok ()) ↔
        ∀ id ∈ D.publicDiff diff, id ∈ D.affectedPublicAccountIds pubTx := by
      rw [assertForwardContainment, Except.forM_eq_ok_iff]
      simp only [Except.assert_eq_ok_iff, AList.mem_keys]
    simp only [Except.ok.injEq, forall_eq', Except.returns_bind_iff]
    cases hcheck : D.transactionStatelessCheck (.Public pubTx) with
    | error e =>
      constructor
      · rintro ⟨_, hforward, _⟩
        exact ⟨hcontained.mp hforward, fun hpass => nomatch hcheck.symm.trans hpass⟩
      · intro hdeclared
        exact ⟨(), hcontained.mpr hdeclared.contained, (), rfl⟩
    | ok tx =>
      obtain rfl := hp.eq_of_stateless _ hcheck
      cases hvalid : D.validateOnState (.Public pubTx) state 1 0 with
      | error e =>
        -- the guards reject the transaction, so it is not executed
        obtain ⟨e', execState, hexec⟩ := h.toHalvesAgree.execute_eq_error hvalid
        simp only [hexec]
        constructor
        · rintro ⟨_, hforward, _⟩
          exact ⟨hcontained.mp hforward, fun _ hpass => nomatch hvalid.symm.trans hpass⟩
        · intro hdeclared
          exact ⟨(), hcontained.mpr hdeclared.contained, (), rfl⟩
      | ok validated =>
        -- the guards let it pass, with the diff that the target has at hand
        obtain rfl := Except.ok.inj (hfrom.symm.trans (hp.from_of_validate _ hvalid))
        obtain ⟨appliedTx, hexec, _⟩ := h.execute_eq hvalid
        have hreverse := assertReverseCompleteness_iff h hvalid
        simp only [hexec]
        constructor
        · rintro ⟨_, hforward, hrest⟩
          exact ⟨hcontained.mp hforward, fun _ _ => hreverse.mp hrest⟩
        · intro hdeclared
          exact ⟨(), hcontained.mpr hdeclared.contained,
            hreverse.mpr (hdeclared.complete hcheck hvalid)⟩

/-- The properties target wants the signers in the declaration and in the diff. -/
theorem fuzzTransactionProperties_iff
    (hcheck : D.transactionStatelessCheck (.Public pubTx) = .ok (.Public pubTx))
    (hfrom : D.fromPublicTransaction pubTx state 1 0 = .ok diff) :
    (fuzzTransactionProperties D state (.Public pubTx)).Returns ↔
      (∀ id ∈ signerAccountIds D.toMachine (.Public pubTx),
        id ∈ D.affectedPublicAccountIds pubTx) ∧
      ∀ id ∈ signerAccountIds D.toMachine (.Public pubTx), id ∈ D.publicDiff diff := by
  unfold fuzzTransactionProperties
  simp only [hcheck, hfrom, Except.returns_bind_iff, Except.returns_unit_iff,
    Except.forM_eq_ok_iff, Except.assert_eq_ok_iff]
  exact ⟨fun ⟨_, h⟩ => h, fun h => ⟨(), h⟩⟩

/-- The consistency target wants no signer in the diff. -/
theorem notMem_of_consistency_returns (h : TwoStep D.toSplitMachine) {tx : D.Tx}
    {initAccs : List (AccountId × U128)} (hcheck : D.transactionStatelessCheck tx = .ok tx)
    (hvalid : D.validateOnState tx state 1 0 = .ok diff)
    (hnd : (signerAccountIds D.toMachine tx).Nodup)
    (hret : (fuzzValidateExecuteConsistency D.toSplitMachine initAccs state tx).Returns) :
    ∀ id ∈ signerAccountIds D.toMachine tx, id ∉ D.publicDiff diff := by
  obtain ⟨appliedTx, hexec, _⟩ := h.execute_eq hvalid
  unfold fuzzValidateExecuteConsistency at hret
  simp only [hcheck, hvalid, hexec, Except.returns_bind_iff] at hret
  obtain ⟨_, hforward, _⟩ := hret
  exact (assertForwardAccuracy_iff h hvalid hnd).mp hforward

end Diff

/-! ## An instance that runs -/

/-- A machine with a guard behind its validation. -/
@[reducible] def guardedSplit (S : SplitMachine)
    (guard : S.State → S.ValidatedStateDiff → Except S.Error Unit) : SplitMachine := { S with
  validateOnState := fun tx state blockId timestamp =>
    match S.validateOnState tx state blockId timestamp with
    | .error e => .error e
    | .ok diff => (guard state diff).map fun _ => diff
  executeCheckOnState := fun tx state blockId timestamp =>
    match S.validateOnState tx state blockId timestamp with
    | .error e => (.error e, state)
    | .ok diff =>
      match guard state diff with
      | .error e => (.error e, state)
      | .ok () => S.executeCheckOnState tx state blockId timestamp }

/-- What passes the guard was valid without it. -/
theorem validate_of_guardedSplit {S : SplitMachine}
    {guard : S.State → S.ValidatedStateDiff → Except S.Error Unit} {tx : S.Tx} {state : S.State}
    {blockId timestamp : U64} {diff : S.ValidatedStateDiff}
    (h : (guardedSplit S guard).validateOnState tx state blockId timestamp = .ok diff) :
    S.validateOnState tx state blockId timestamp = .ok diff ∧ guard state diff = .ok () := by
  dsimp only at h
  split at h
  · exact nomatch h
  · rename_i validated hvalid
    cases hguard : guard state validated with
    | error e =>
      rw [hguard] at h
      exact nomatch h
    | ok u =>
      rw [hguard] at h
      obtain rfl := Except.ok.inj h
      exact ⟨hvalid, hguard⟩

theorem signerAccountIds_guardedSplit {S : SplitMachine}
    {guard : S.State → S.ValidatedStateDiff → Except S.Error Unit} (tx : S.Tx) :
    signerAccountIds (guardedSplit S guard).toMachine tx = signerAccountIds S.toMachine tx := by
  cases tx <;> rfl

/-- A guard leaves the two steps as they are. -/
theorem TwoStep.guarded {S : SplitMachine} (h : TwoStep S)
    (guard : S.State → S.ValidatedStateDiff → Except S.Error Unit) :
    TwoStep (guardedSplit S guard) where
  isOk_execute tx state blockId timestamp := by
    have hok := h.isOk_execute tx state blockId timestamp
    dsimp only
    cases hvalid : S.validateOnState tx state blockId timestamp with
    | error e => rfl
    | ok diff =>
      dsimp only
      rw [hvalid] at hok
      cases guard state diff with
      | error e => rfl
      | ok u => exact hok
  state_execute tx state blockId timestamp diff hguarded := by
    obtain ⟨hvalid, hguard⟩ := validate_of_guardedSplit hguarded
    dsimp only
    rw [hvalid]
    dsimp only
    rw [hguard]
    exact h.state_execute tx state blockId timestamp diff hvalid
  signers_execute tx state blockId timestamp appliedTx hexec := by
    dsimp only at hexec
    split at hexec
    · exact nomatch hexec
    · split at hexec
      · exact nomatch hexec
      · rw [signerAccountIds_guardedSplit, signerAccountIds_guardedSplit]
        exact h.signers_execute tx state blockId timestamp appliedTx hexec
  accounts_applyStateDiff tx state blockId timestamp diff hguarded := by
    rw [signerAccountIds_guardedSplit]
    exact h.accounts_applyStateDiff tx state blockId timestamp diff
      (validate_of_guardedSplit hguarded).1

/-- The system account of this instance, which no transaction may touch. -/
def guardedId : AccountId := ⟨1000⟩

/-- `plainSplit` with a guard of the system account. -/
@[reducible] def bridgeSplit : SplitMachine :=
  guardedSplit plainSplit fun _ diff => if guardedId ∈ diff.1 then .error () else .ok ()

/-- The accounts of a transfer are the affected ones; `from_public_transaction` has no guard. -/
@[reducible] def plainDiff : DiffMachine where
  toSplitMachine := bridgeSplit
  fromPublicTransaction tx state _ _ := plainValidate state (.Public tx)
  affectedPublicAccountIds
    | .inl t => [t.sender, t.recipient]
    | .inr () => []

theorem plainDiff_twoStep : TwoStep plainDiff.toSplitMachine := plainSplit_twoStep.guarded _

theorem plainDiff_publicHalf (state : ReferenceState) (pubTx : NativeTransfer plainKeys ⊕ Unit) :
    PublicHalf plainDiff state pubTx where
  eq_of_stateless _ h := (Except.ok.inj h).symm
  from_of_validate _ h := (validate_of_guardedSplit h).1

/-- Whatever is drawn, the transaction is a transfer of 4. -/
def diffArb : PublicTxCrates plainDiff.toMachine where
  ProgramShardSelector := Unit
  programShardSelectorNew _ _ := ()
  FeeDeclaration := Unit
  feeDeclarationNew _ _ _ _ := ()
  Message := Unit
  messageNewPreserialized _ _ _ _ _ := ()
  signature _ := ()
  publicKeyTryNew bytes := some bytes
  WitnessSet := Unit
  fromRawParts _ := ()
  publicTransactionNew _ _ := .inl (plainTransfer 1 0 2 4)

/-- The genesis of `plainGenesis`. -/
def diffGenesis : GenesisCrates plainDiff.toMachine := { plainGenesis with
  new := plainGenesis.new
  withPublicAccounts := plainGenesis.withPublicAccounts
  withPrivateAccounts := fun state _ => state
  withNamedPrograms := fun state _ => state }

/-- The accounts 1 and 2 with balances 10 and 3; the rest of the tape reads as zeros. -/
def diffTape : List (BitVec 8) :=
  1 :: leBytes 32 1 ++ leBytes 16 80 ++ leBytes 32 2 ++ leBytes 16 24

/-! ## The targets -/

/-- When the diff target returns, from the bytes on: exactly when for the drawn accounts and
    the drawn transaction, a diff that `from_public_transaction` yields stays within the
    declared accounts, and, if the transaction passes the stateless gate and
    `validate_on_state` accepts it too, holds every declared account that signs it. What
    `validate_on_state` alone rejects is not executed, and the second half is not tested. -/
theorem fuzzStateDiffComputation_returns_iff (D : DiffMachine) (h : TwoStep D.toSplitMachine)
    (hp : ∀ state pubTx, PublicHalf D state pubTx) (G : GenesisCrates D.toMachine)
    (A : PublicTxCrates D.toMachine) (u : WideUnstructured) (hu : WideDrawsDoNotPanic u)
    (hseed : (D.tryNew knownGoodSeed).isSome) (input : u.Bytes) :
    (∃ rest, fuzzStateDiffComputationEntry D G A u input = (.ok (), rest)) ↔
      ∀ fuzzAccs mid,
        arbitraryFuzzState D.toKeys u.toUnstructured (reservedAccountIds G) input =
          (.ok fuzzAccs, mid) →
      ∀ pubTx rest, arbPublicTransaction A u mid = (.ok pubTx, rest) →
      ∀ diff, D.fromPublicTransaction pubTx (genesisState G (initAccounts fuzzAccs) []) 1 0 =
        .ok diff → DiffDeclared D (genesisState G (initAccounts fuzzAccs) []) pubTx diff := by
  rw [fuzzStateDiffComputationEntry, withFuzzState_returns_iff hu.toDrawsDoNotPanic hseed]
  refine forall₃_congr fun fuzzAccs mid _ => ?_
  refine (Gen.exists_attempt_bind_eq_ok_iff
    (isErr_of_failsWith (arbPublicTransaction_failsWith hu hseed)) fun s => ⟨s, rfl⟩).trans ?_
  refine forall₃_congr fun pubTx rest _ => ?_
  rw [← diffTarget_returns_iff h (hp _ pubTx), Except.returns_unit_iff]
  exact Gen.exists_lift_eq_ok_iff

/-- The target returns on this tape, so the diff of the transfer is declared. -/
theorem fuzzStateDiffComputation_returns_iff_tape : DiffDeclared plainDiff
    (genesisState diffGenesis [(⟨1⟩, 10), (⟨2⟩, 3)] []) (.inl (plainTransfer 1 0 2 4))
    (transferDiff (ReferenceState.genesis [(⟨1⟩, 10), (⟨2⟩, 3)]) (plainTransfer 1 0 2 4), [⟨1⟩]) :=
  (fuzzStateDiffComputation_returns_iff plainDiff plainDiff_twoStep plainDiff_publicHalf
    diffGenesis diffArb byteTape byteTape_doNotPanic rfl diffTape).mp ⟨_, rfl⟩ _ _ rfl _ _ rfl _ rfl

/-- The targets contradict each other on every public transaction that is signed, by distinct
    accounts, and accepted: it passes the stateless gate unchanged, and `validate_on_state`
    accepts it with the diff that `from_public_transaction` computes. Where the properties
    target returns, the diff target asks only that the diff stays within the declaration, but
    the consistency target panics; and where the signers are declared, not both the diff target
    and the consistency target return. -/
theorem publicDiffOracles_conflict (D : DiffMachine) (h : TwoStep D.toSplitMachine)
    (initAccs : List (AccountId × U128)) (state : D.State) (pubTx : D.PublicTransaction)
    (diff : D.ValidatedStateDiff)
    (hcheck : D.transactionStatelessCheck (.Public pubTx) = .ok (.Public pubTx))
    (hvalid : D.validateOnState (.Public pubTx) state 1 0 = .ok diff)
    (hfrom : D.fromPublicTransaction pubTx state 1 0 = .ok diff)
    (hnd : (signerAccountIds D.toMachine (.Public pubTx)).Nodup)
    (hsigned : signerAccountIds D.toMachine (.Public pubTx) ≠ []) :
    let properties := (fuzzTransactionProperties D state (.Public pubTx)).Returns
    let declared := (fuzzStateDiffComputation D state pubTx).Returns
    let consistent :=
      (fuzzValidateExecuteConsistency D.toSplitMachine initAccs state (.Public pubTx)).Returns
    (properties → (declared ↔
        ∀ id ∈ D.publicDiff diff, id ∈ D.affectedPublicAccountIds pubTx) ∧ ¬ consistent) ∧
    ((∀ id ∈ signerAccountIds D.toMachine (.Public pubTx),
        id ∈ D.affectedPublicAccountIds pubTx) → ¬ (declared ∧ consistent)) := by
  intro properties declared consistent
  have hp : PublicHalf D state pubTx :=
    ⟨fun tx htx => Except.ok.inj (htx.symm.trans hcheck),
      fun validated hvalidated => hfrom.trans (hvalid.symm.trans hvalidated)⟩
  have hdeclared : declared ↔ DiffDeclared D state pubTx diff := by
    rw [show declared ↔ _ from diffTarget_returns_iff h hp]
    simp only [hfrom, Except.ok.injEq, forall_eq']
  have hnone : consistent → ∀ id ∈ signerAccountIds D.toMachine (.Public pubTx),
      id ∉ D.publicDiff diff := notMem_of_consistency_returns h hcheck hvalid hnd
  obtain ⟨signer, hsigner⟩ := List.exists_mem_of_ne_nil _ hsigned
  constructor
  · intro hproperties
    obtain ⟨_, hmem⟩ := (fuzzTransactionProperties_iff hcheck hfrom).mp hproperties
    refine ⟨hdeclared.trans ⟨DiffDeclared.contained, fun hcontained => ?_⟩, fun hconsistent => ?_⟩
    · refine ⟨hcontained, fun _ _ id _ hcount => ?_⟩
      -- an account that is counted signs, and the signers are in the diff
      exact hmem id (by_contra fun hnot => hcount (congrArg _ (List.count_eq_zero.mpr hnot)))
    · exact hnone hconsistent signer hsigner (hmem signer hsigner)
  · rintro haffected ⟨hdiff, hconsistent⟩
    -- a signer that signs once counts as changed, so the diff target wants it in the diff
    have hcount := List.count_eq_one_of_mem hnd hsigner
    refine hnone hconsistent signer hsigner ((hdeclared.mp hdiff).complete hcheck hvalid signer
      (haffected signer hsigner) ?_)
    rw [hcount]
    decide

/-- On an ordinary transfer the properties target returns, so the consistency target panics. -/
theorem publicDiffOracles_conflict_transfer :
    ¬ (fuzzValidateExecuteConsistency bridgeSplit [(⟨1⟩, 10), (⟨2⟩, 3)]
      (ReferenceState.genesis [(⟨1⟩, 10), (⟨2⟩, 3)])
      (.Public (.inl (plainTransfer 1 0 2 4)))).Returns :=
  ((publicDiffOracles_conflict plainDiff plainDiff_twoStep [(⟨1⟩, 10), (⟨2⟩, 3)]
    (ReferenceState.genesis [(⟨1⟩, 10), (⟨2⟩, 3)]) (.inl (plainTransfer 1 0 2 4)) _ rfl rfl rfl
    (by decide) (by decide)).1 ⟨(), rfl⟩).2

end LezFuzzing.Spec
