import LezFuzzing.Native.Harness
import LezFuzzing.Native.PublicEffects

/-!
# The privacy-preserving executor (`fuzz_privacy_preserving_state_transition.rs`)

Up to five transactions are drawn and executed in turn, each against the state that the
ones before it have left. A rejected transaction must have changed nothing; an accepted one
must have inserted its commitments, incremented its signers' nonces and applied its public
effects, and must be rejected when it is replayed in the next block.
-/

namespace LezFuzzing.Native

/-- What the target reads of a transaction and of the state, beside its native effects. -/
structure PrivacyTarget {M : Machine} (P : PrivacyCrates M) extends NativeToken M where
  /-- `PrivacyPreservingTransaction::message` -/
  message : M.PrivacyPreservingTransaction → PPMessage P.toPrivacyTypes
  /-- `Message::public_account_ids` -/
  publicAccountIds : PPMessage P.toPrivacyTypes → List AccountId
  /-- `Message::commitments` -/
  commitments : PPMessage P.toPrivacyTypes → List P.Commitment
  MembershipProof : Type
  getProofForCommitment : M.State → P.Commitment → Option MembershipProof

/-- Run one rule and panic on a violation. -/
def assertInvariant {M : Machine} (inv : ProtocolInvariant M) (ctx : InvariantCtx M) :
    Except Panic Unit := do
  match ← inv.check ctx with
  | some violation => throw (.violation violation.invariant violation.message)
  | none => return ()

variable {M : Machine} {P : PrivacyCrates M} (T : PrivacyTarget P)

/-- A rejected transaction leaves the accounts in the snapshots and the commitment set alone. -/
def assertRejected (ctx : InvariantCtx M) (digestBefore : CommitmentSetDigest) :
    Except Panic Unit := do
  assertInvariant (StateIsolationOnFailure M) ctx
  assertInvariant (FailedTxNonceStability M) ctx
  if !ctx.executionSucceeded then
    Except.assert (P.commitmentSetDigest ctx.stateAfter = digestBefore)
      (.violation "PrivateStateIsolationOnFailure"
        "commitment set changed despite privacy-preserving transaction rejection")

/-- Every commitment of an accepted transaction is a member of the commitment set. -/
def assertCommitmentInsertion (state : M.State) (newCommitments : List P.Commitment) :
    Except Panic Unit :=
  newCommitments.forM fun commitment =>
    Except.assert (T.getProofForCommitment state commitment).isSome
      (.violation "CommitmentInsertion"
        "accepted commitment was not inserted into the commitment set")

/-- The body of the loop, for the `i`th transaction. -/
def applyPrivacyPreserving (initAccs : List (AccountId × U128)) (i : ℕ) (state : M.State)
    (tx : M.PrivacyPreservingTransaction) : Except Panic M.State :=
  let signerIds := (M.privacyPreservingWitness tx).map fun (_, pk) => M.accountIdFrom pk
  let publicAccountIds := T.publicAccountIds (T.message tx)
  let publicActions := (T.message tx).publicActions
  let newCommitments := T.commitments (T.message tx)
  match M.transactionStatelessCheck (.PrivacyPreserving tx) with
  | .error _ => return state
  | .ok leeTx => do
    let tracked := trackedAccounts (initAccs.map Prod.fst) signerIds publicAccountIds
    let balancesBefore ← balanceSnapshot M state tracked
    let noncesBefore := nonceSnapshot M state tracked
    let digestBefore := P.commitmentSetDigest state
    let blockId : U64 := 1 + .ofNat 64 i
    let timestamp : U64 := .ofNat 64 i
    let stateBefore := state
    let (result, state) := M.executeCheckOnState leeTx state blockId timestamp
    assertRejected (P := P) {
      stateBefore, stateAfter := state
      executionSucceeded := result.isOk
      balancesBefore, noncesBefore } digestBefore
    match result with
    | .error _ => return state
    | .ok appliedTx => do
      assertCommitmentInsertion T state newCommitments
      assertNonceIncrementCorrectness M signerIds noncesBefore state
      assertPublicEffectsApplied T.toNativeToken stateBefore state signerIds publicActions
      assertReplayRejection M appliedTx state (blockId + 1) (timestamp + 1)

/-- `fuzz_privacy_preserving_state_transition` -/
def fuzzPrivacyPreservingStateTransition (G : GenesisCrates M) (C : EffectCrates P.toPrivacyTypes)
    (u : Unstructured) : Gen u.Bytes GenError Unit :=
  withFuzzState G u fun fuzzAccs state => do
    let byte ← unwrapOr u.u8 0
    let nTxs := byte.toNat % 6
    let _ ← forDrawn nTxs state (fun state => arbPrivacyPreservingTx P C u state fuzzAccs)
      (applyPrivacyPreserving T (initAccounts fuzzAccs))
    return ()

end LezFuzzing.Native
