import LezFuzzing.Native.Generators

/-!
# Privacy-preserving transactions (`fuzz_props/src/privacy.rs`)

The message and circuit-output types, the proof synthesis that binds a fake receipt to
one circuit output, and the generator of a pair of transactions that declare the same
nullifier. Hashes, encryption, encodings and the transaction constructors are LEZ and
RISC Zero code, collected in two parameters.
-/

namespace LezFuzzing.Native

/-- `CommitmentSetDigest` -/
abbrev CommitmentSetDigest := Bytes32

/-- `PrivateAccountKind`, as far as it is built here. -/
inductive PrivateAccountKind where
  | Regular (identifier : Bytes32)

/-- The types of `nssa_core` that messages are made of, with their constructors. -/
structure PrivacyTypes (Data : Type) where
  /-- `Account::funded` -/
  funded : U128 → Account Data
  Commitment : Type
  [decEqCommitment : DecidableEq Commitment]
  /-- `Commitment::new` -/
  commitmentNew : AccountId → Account Data → Commitment
  Nullifier : Type
  [decEqNullifier : DecidableEq Nullifier]
  nullifierForAccountInitialization : AccountId → Nullifier
  Ciphertext : Type
  /-- `EncryptionScheme::encrypt`, from the account, its kind, the shared secret and a nullifier -/
  encrypt : Account Data → PrivateAccountKind → Bytes32 → Nullifier → Ciphertext
  ImageId : Type
  /-- The fields of an undisclosed claim. -/
  Undisclosed : Type
  ValidityWindow : Type
  newUnbounded : ValidityWindow

instance {Data : Type} (T : PrivacyTypes Data) : DecidableEq T.Commitment := T.decEqCommitment

instance {Data : Type} (T : PrivacyTypes Data) : DecidableEq T.Nullifier := T.decEqNullifier

structure DeferredPublicEffect where
  programAccountId : AccountId
  shardProgramAccountId : AccountId
  data : List (BitVec 8)

/-- A public action as a message declares it. -/
structure PublicActionWithID where
  accountId : AccountId
  effects : List DeferredPublicEffect

/-- A public action as the circuit sees it. -/
structure PublicAction where
  accountId : AccountId
  isAuthorized : Bool
  effects : List DeferredPublicEffect

section Types

variable {Data : Type} (T : PrivacyTypes Data)

structure EncryptedAccountData where
  ciphertext : T.Ciphertext
  epk : List (BitVec 8)
  viewTag : BitVec 8

structure PrivateAction where
  nullifier : T.Nullifier
  root : CommitmentSetDigest
  commitment : T.Commitment
  encryptedPostState : EncryptedAccountData T

inductive ProgramImageClaim where
  | Disclosed (accountId : AccountId) (imageId : T.ImageId)
  | Undisclosed (claim : T.Undisclosed)

/-- `privacy_preserving_transaction::Message` -/
structure PPMessage where
  publicActions : List PublicActionWithID
  nonces : List U128
  privateActions : List (PrivateAction T)
  blockValidityWindow : T.ValidityWindow
  timestampValidityWindow : T.ValidityWindow
  programImageClaims : List (ProgramImageClaim T)

structure PrivacyPreservingCircuitOutput where
  publicActions : List PublicAction
  privateActions : List (PrivateAction T)
  blockValidityWindow : T.ValidityWindow
  timestampValidityWindow : T.ValidityWindow
  programImageClaims : List (ProgramImageClaim T)

end Types

structure FakeReceipt (ReceiptClaim : Type) where
  claim : ReceiptClaim

/-- `risc0_zkvm::InnerReceipt`, as far as it is built here. -/
inductive InnerReceipt (ReceiptClaim : Type) where
  | Fake (receipt : FakeReceipt ReceiptClaim)

/-- `circuit::Proof`: the bytes of an encoded receipt. -/
structure Proof where
  fromInner ::
  inner : List (BitVec 8)
  deriving DecidableEq

/-- What `privacy.rs` uses of `nssa`, `risc0_zkvm` and `borsh`. -/
structure PrivacyCrates (M : Machine) extends PrivacyTypes M.Data where
  /-- `PrivacyPreservingCircuitOutput::to_bytes` -/
  toBytes : PrivacyPreservingCircuitOutput toPrivacyTypes → List (BitVec 8)
  ImageDigest : Type
  /-- `PRIVACY_PRESERVING_CIRCUIT_ID` -/
  circuitId : ImageDigest
  ReceiptClaim : Type
  /-- `ReceiptClaim::ok` -/
  receiptClaimOk : ImageDigest → List (BitVec 8) → ReceiptClaim
  /-- Encoding into a vector does not fail. -/
  borshToVec : InnerReceipt ReceiptClaim → List (BitVec 8)
  getProgramImageId : M.State → AccountId → Option ImageId
  /-- The live root. -/
  commitmentSetDigest : M.State → CommitmentSetDigest
  WitnessSet : Type
  /-- `WitnessSet::for_message` -/
  witnessSetForMessage : PPMessage toPrivacyTypes → Proof → List M.PrivateKey → WitnessSet
  /-- `PrivacyPreservingTransaction::new` -/
  newTransaction : PPMessage toPrivacyTypes → WitnessSet → M.PrivacyPreservingTransaction

variable {M : Machine} (P : PrivacyCrates M)

/-! ### Proof synthesis -/

/-- Mark a public account authorised iff it signed. -/
def publicActionOf (signerAccountIds : List AccountId) (action : PublicActionWithID) :
    PublicAction where
  accountId := action.accountId
  isAuthorized := signerAccountIds.contains action.accountId
  effects := action.effects

/-- Re-anchor a disclosed claim to the image id stored on chain, where there is one. -/
def reanchor (state : M.State) :
    ProgramImageClaim P.toPrivacyTypes → ProgramImageClaim P.toPrivacyTypes
  | .Disclosed accountId imageId =>
    .Disclosed accountId ((P.getProgramImageId state accountId).getD imageId)
  | .Undisclosed claim => .Undisclosed claim

/-- A proof that passes for this message, state and list of signers. -/
def synthesizePassingProof (message : PPMessage P.toPrivacyTypes) (state : M.State)
    (signerAccountIds : List AccountId) : Proof :=
  -- the circuit output that the validator will rebuild from message, witness set and state
  let publicActions := message.publicActions.map (publicActionOf signerAccountIds)
  let programImageClaims := message.programImageClaims.map (reanchor P state)
  let output : PrivacyPreservingCircuitOutput P.toPrivacyTypes := {
    publicActions
    privateActions := message.privateActions
    blockValidityWindow := message.blockValidityWindow
    timestampValidityWindow := message.timestampValidityWindow
    programImageClaims }
  -- the receipt claims exactly this journal
  let journal := P.toBytes output
  let claim := P.receiptClaimOk P.circuitId journal
  let inner : InnerReceipt P.ReceiptClaim := .Fake { claim }
  let proofBytes := P.borshToVec inner
  Proof.fromInner proofBytes

/-! ### Generators -/

section Generators

/-- `x % n` -/
def remainder {σ : Type} (x n : ℕ) : Gen σ GenError ℕ :=
  if n = 0 then
    Gen.fail (.panic ⟨"attempt to calculate the remainder with a divisor of zero"⟩)
  else
    return x % n

/-- `xs[i]` -/
def indexed {σ α : Type} (xs : List α) (i : ℕ) : Gen σ GenError α :=
  match xs[i]? with
  | some x => return x
  | none => Gen.fail (.panic ⟨"index out of bounds"⟩)

variable (u : Unstructured)

/-- A private commitment pre-image with a small nonce. -/
def arbAccount : Gen u.Bytes GenError (Account M.Data) := do
  let nonce ← u.u128
  let balance ← u.u128
  return { P.funded balance with nonce := nonce % 1024 }

def arbEncryptedAccountData : Gen u.Bytes GenError (EncryptedAccountData P.toPrivacyTypes) := do
  let account ← arbAccount P u
  let identifier ← u.bytes32
  let kind := PrivateAccountKind.Regular identifier
  let sharedSecret ← u.bytes32
  let nullifierId ← u.bytes32
  let nullifier := P.nullifierForAccountInitialization ⟨nullifierId⟩
  let ciphertext := P.encrypt account kind sharedSecret nullifier
  let epk ← u.vecU8
  let viewTag ← u.u8
  return { ciphertext, epk, viewTag }

/-- `Commitment::new` of a drawn account under a drawn id. -/
def arbCommitment : Gen u.Bytes GenError P.Commitment := do
  let id ← u.bytes32
  let account ← arbAccount P u
  return P.commitmentNew ⟨id⟩ account

/-- One signer, no public actions, the given private actions and unbounded windows. -/
def buildPurePrivateTx (state : M.State) (key : M.PrivateKey)
    (privateActions : List (PrivateAction P.toPrivacyTypes)) : M.PrivacyPreservingTransaction :=
  let signerId := accountIdForKey M.toKeys key
  let message : PPMessage P.toPrivacyTypes := {
    publicActions := []
    nonces := [M.nonce state signerId] -- read live, so that it is current at first application
    privateActions
    blockValidityWindow := P.newUnbounded
    timestampValidityWindow := P.newUnbounded
    programImageClaims := [] }
  let proof := synthesizePassingProof P message state [signerId]
  let witnessSet := P.witnessSetForMessage message proof [key]
  P.newTransaction message witnessSet

/-- The indices `i` and `j` of the two signers; `j` moves on when they coincide. -/
def signerIndices (n : ℕ) : Gen u.Bytes GenError (ℕ × ℕ) := do
  let iByte ← u.u8
  let i ← remainder iByte.toNat n
  let jByte ← u.u8
  let j ← remainder jByte.toNat n
  if j = i then
    let next ← remainder (i + 1) n
    return (i, next)
  else
    return (i, j)

/-- Two transactions with different signers and commitments and the same nullifier. -/
def arbConflictingNullifierPair (state : M.State) (accounts : List (FuzzAccount M.toKeys)) :
    Gen u.Bytes GenError (M.PrivacyPreservingTransaction × M.PrivacyPreservingTransaction) :=
  if accounts.length < 2 then
    Gen.fail (.err .incorrectFormat)
  else do
    let (i, j) ← signerIndices u accounts.length
    let accountB ← indexed accounts i
    let accountC ← indexed accounts j
    let keyB := accountB.privateKey
    let keyC := accountC.privateKey
    if accountIdForKey M.toKeys keyB = accountIdForKey M.toKeys keyC then
      Gen.fail (.err .incorrectFormat)
    else
      -- one nullifier for both, bound to the live root
      let root := P.commitmentSetDigest state
      let nullAid ← u.bytes32
      let sharedNullifier := P.nullifierForAccountInitialization ⟨nullAid⟩
      let commB ← arbCommitment P u
      let commC ← arbCommitment P u
      if commB = commC then
        Gen.fail (.err .incorrectFormat)
      else
        let encryptedB ← arbEncryptedAccountData P u
        let actionB : PrivateAction P.toPrivacyTypes := {
          nullifier := sharedNullifier, root, commitment := commB
          encryptedPostState := encryptedB }
        let encryptedC ← arbEncryptedAccountData P u
        let actionC : PrivateAction P.toPrivacyTypes := {
          nullifier := sharedNullifier, root, commitment := commC
          encryptedPostState := encryptedC }
        let txB := buildPurePrivateTx P state keyB [actionB]
        let txC := buildPurePrivateTx P state keyC [actionC]
        return (txB, txC)

end Generators

end LezFuzzing.Native
