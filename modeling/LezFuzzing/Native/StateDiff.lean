import LezFuzzing.Native.ArbitraryTypes
import LezFuzzing.Native.Harness
import LezFuzzing.Native.SplitPath

/-!
# State diffs and declared accounts

A public transaction declares the accounts it may touch. `fuzz_state_diff_computation.rs`
validates one on a generated genesis and compares the diff with the declaration, in both
directions: the diff stays within it, and what execution changes of it is in the diff.
`fuzz_transaction_properties.rs` wants the signers of a transfer in both; of that target
only its second part is here, the one with a generated transfer.
-/

namespace LezFuzzing.Native

/-- A machine that shows how it validates a public transaction. -/
structure DiffMachine extends SplitMachine where
  fromPublicTransaction : PublicTransaction → State → U64 → U64 →
    Except Error ValidatedStateDiff
  affectedPublicAccountIds : PublicTransaction → List AccountId

variable (D : DiffMachine)

/-- Invariant 1: the diff changes declared accounts only. -/
def assertForwardContainment (publicDiff : HashMap AccountId (Account D.Data))
    (affected : List AccountId) : Except Panic Unit :=
  publicDiff.keys.forM fun changedId =>
    Except.assert (changedId ∈ affected)
      ⟨s!"INVARIANT VIOLATION: diff modified account {repr changedId} which is not in " ++
        s!"affected_public_account_ids() {repr affected}"⟩

/-- Invariant 2: a declared account that execution changed is in the diff. -/
def assertReverseCompleteness (publicDiff : HashMap AccountId (Account D.Data))
    (affected : List AccountId) (state execState : D.State) : Except Panic Unit :=
  affected.forM fun accId =>
    if D.getAccountById state accId ≠ D.getAccountById execState accId then
      Except.assert (accId ∈ publicDiff)
        ⟨s!"INVARIANT VIOLATION: account {repr accId} is declared in " ++
          "affected_public_account_ids() and was modified by execute_check_on_state but is " ++
          "absent from ValidatedStateDiff (silent under-report)"⟩
    else
      return ()

/-- `fuzz_state_diff_computation`, from its genesis state on. -/
def fuzzStateDiffComputation (state : D.State) (pubTx : D.PublicTransaction) :
    Except Panic Unit :=
  let affected := D.affectedPublicAccountIds pubTx
  match D.fromPublicTransaction pubTx state 1 0 with
  | .error _ => return ()
  | .ok diff => do
    assertForwardContainment D (D.publicDiff diff) affected
    -- execution works on a clone of the state
    match D.transactionStatelessCheck (.Public pubTx) with
    | .error _ => return ()
    | .ok checkedTx =>
      match D.executeCheckOnState checkedTx state 1 0 with
      | (.error _, _) => return ()
      | (.ok _, execState) =>
        assertReverseCompleteness D (D.publicDiff diff) affected state execState

/-- `fuzz_state_diff_computation` -/
def fuzzStateDiffComputationEntry (G : GenesisCrates D.toMachine) (A : PublicTxCrates D.toMachine)
    (u : WideUnstructured) : Gen u.Bytes GenError Unit :=
  withFuzzState G u.toUnstructured fun _ state => do
    match ← attempt (arbPublicTransaction A u) with
    | none => return ()
    | some pubTx => checked (fuzzStateDiffComputation D state pubTx)

/-- The second part of `fuzz_transaction_properties`, from its genesis state and transfer on. -/
def fuzzTransactionProperties (state : D.State) (tx : D.Tx) : Except Panic Unit :=
  match D.transactionStatelessCheck tx with
  | .error _ => return ()
  | .ok (.PrivacyPreserving _) => return ()
  | .ok (.Public pubTx) => do
    let signers := signerAccountIds D.toMachine (.Public pubTx)
    let affected := D.affectedPublicAccountIds pubTx
    signers.forM fun signer =>
      Except.assert (signer ∈ affected) (.violation "AffectedAccountsContainSigners"
        s!"affected_public_account_ids must include signer {repr signer}")
    match D.fromPublicTransaction pubTx state 1 0 with
    | .error _ => return ()
    | .ok diff =>
      signers.forM fun signer =>
        Except.assert (signer ∈ D.publicDiff diff) (.violation "PublicDiffNonEmptyOnSuccess"
          (s!"public_diff must contain signer account {repr signer} after successful " ++
            "validation (nonce must have been updated)"))

end LezFuzzing.Native
