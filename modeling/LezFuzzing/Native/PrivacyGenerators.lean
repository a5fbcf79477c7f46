import LezFuzzing.Native.Privacy

/-!
# The transaction generator (`fuzz_props/src/privacy.rs`)

`arb_privacy_preserving_tx` and what it draws from: deferred effects, validity windows and
private actions. Every index into the account list and every remainder is modelled with the
panic it can end in, so that their absence is something to prove.
-/

namespace LezFuzzing.Native

/-- The effects of the native-token program. -/
inductive NativeEffect where
  | Debit (amount : U128)
  | Credit (amount : U128)
  deriving DecidableEq

/-- What the generator uses of `nssa_core` beyond `PrivacyCrates`. -/
structure EffectCrates {Data : Type} (T : PrivacyTypes Data) where
  /-- `NATIVE_TOKEN_PROGRAM_ID` -/
  nativeTokenProgramId : AccountId
  /-- `borsh_to_vec` of a native effect, which does not fail. -/
  effectToVec : NativeEffect → List (BitVec 8)
  /-- `ValidityWindow::try_from((from, to))` -/
  validityWindowTryFrom : Option U64 × Option U64 → Option T.ValidityWindow

/-- `T::arbitrary(u).unwrap_or(default)` -/
def unwrapOr {σ α : Type} (g : Gen σ GenError α) (default : α) : Gen σ GenError α := fun s =>
  match g s with
  | (.error (.err _), s') => (.ok default, s')
  | other => other

/-- `accounts[(u8::arbitrary(u)? as usize) % accounts.len()]` -/
def arbIndexed {α : Type} (u : Unstructured) (accounts : List α) : Gen u.Bytes GenError α := do
  let byte ← u.u8
  let i ← remainder byte.toNat accounts.length
  indexed accounts i

variable {M : Machine} (P : PrivacyCrates M) (C : EffectCrates P.toPrivacyTypes)
  (u : Unstructured)

/-- One deferred effect: now and then of an arbitrary program, else native. -/
def arbPublicEffect : Gen u.Bytes GenError DeferredPublicEffect := do
  let byte ← u.u8
  if byte.toNat % 4 = 0 then
    -- an unknown program with arbitrary data
    let programAccountId ← u.bytes32
    let shardProgramAccountId ← u.bytes32
    let data ← u.vecU8
    return ⟨⟨programAccountId⟩, ⟨shardProgramAccountId⟩, data⟩
  else
    let amount ← u.u128
    let debit ← u.bool
    let effect := if debit then NativeEffect.Debit amount else NativeEffect.Credit amount
    return ⟨C.nativeTokenProgramId, C.nativeTokenProgramId, C.effectToVec effect⟩

/-- The effects of one public action, at most two. -/
def arbPublicEffects : Gen u.Bytes GenError (List DeferredPublicEffect) := do
  let byte ← u.u8
  Gen.traverse (fun () => arbPublicEffect P C u) (List.replicate (byte.toNat % 3) ())

/-- One optional bound of a window; a failed draw of the number counts as zero. -/
def arbBound : Gen u.Bytes GenError (Option U64) := do
  let bounded ← u.bool
  if bounded then
    let byte ← unwrapOr u.u8 0
    return some (byte.zeroExtend 64 % 8)
  else
    return none

/-- A window, unbounded most of the time. -/
def arbValidityWindow : Gen u.Bytes GenError P.ValidityWindow := do
  let byte ← u.u8
  if byte.toNat % 4 ≠ 0 then
    return P.newUnbounded
  else
    let start ← arbBound u
    let stop ← arbBound u
    -- an empty window falls back to the unbounded one
    return (C.validityWindowTryFrom (start, stop)).getD P.newUnbounded

/-- The live root half of the time. -/
def arbRoot (liveRoot : CommitmentSetDigest) : Gen u.Bytes GenError CommitmentSetDigest := do
  let live ← u.bool
  if live then return liveRoot else u.bytes32

def arbPrivateAction (liveRoot : CommitmentSetDigest) :
    Gen u.Bytes GenError (PrivateAction P.toPrivacyTypes) := do
  let nullAid ← u.bytes32
  let nullifier := P.nullifierForAccountInitialization ⟨nullAid⟩
  let root ← arbRoot u liveRoot
  let commitment ← arbCommitment P u
  let encryptedPostState ← arbEncryptedAccountData P u
  return { nullifier, root, commitment, encryptedPostState }

variable {P} in
/-- Append an action unless its nullifier or its commitment is there already. -/
def pushPrivateActionIfUnique (actions : List (PrivateAction P.toPrivacyTypes))
    (action : PrivateAction P.toPrivacyTypes) : List (PrivateAction P.toPrivacyTypes) :=
  if actions.any fun a => decide (a.nullifier = action.nullifier ∨
      a.commitment = action.commitment) then
    actions
  else
    actions ++ [action]

/-- One iteration of the signer loop: the keys and the ids derived from them so far. -/
def arbSigners.step (accounts : List (FuzzAccount M.toKeys)) :
    List M.PrivateKey × List AccountId →
      Gen u.Bytes GenError (List M.PrivateKey × List AccountId) :=
  fun (keys, signerIds) => do
    let account ← arbIndexed u accounts
    let key := account.privateKey
    let id := accountIdForKey M.toKeys key
    if id ∈ signerIds then
      return (keys, signerIds) -- keep signer ids distinct
    else
      return (keys ++ [key], signerIds ++ [id])

/-- `n_signers`, from `max_signers`; nothing is drawn where there is no account. -/
def arbSignerCount (maxSigners : ℕ) : Gen u.Bytes GenError ℕ :=
  if maxSigners = 0 then return 0 else do
    let byte ← u.u8
    return byte.toNat % (maxSigners + 1)

/-- Up to three distinct signers. -/
def arbSigners (accounts : List (FuzzAccount M.toKeys)) :
    Gen u.Bytes GenError (List M.PrivateKey × List AccountId) := do
  let nSigners ← arbSignerCount u (min accounts.length 3)
  Gen.iterate (arbSigners.step u accounts) nSigners ([], [])

def arbAnyId : Gen u.Bytes GenError AccountId := do
  let bytes ← u.bytes32
  return ⟨bytes⟩

/-- One extra id: a listed account half of the time, where there is one, else any. -/
def arbExtraId (accounts : List (FuzzAccount M.toKeys)) : Gen u.Bytes GenError AccountId :=
  if accounts.isEmpty then
    arbAnyId u
  else do
    let listed ← u.bool
    if listed then
      let account ← arbIndexed u accounts
      return account.accountId
    else
      arbAnyId u

/-- One iteration of the loop over extra ids. -/
def arbPublicAccountIds.step (accounts : List (FuzzAccount M.toKeys))
    (publicAccountIds : List AccountId) : Gen u.Bytes GenError (List AccountId) := do
  let id ← arbExtraId u accounts
  if id ∈ publicAccountIds then
    return publicAccountIds
  else
    return publicAccountIds ++ [id]

/-- The owners of the public actions: sometimes the signers, and up to three more. -/
def arbPublicAccountIds (accounts : List (FuzzAccount M.toKeys)) (signerIds : List AccountId) :
    Gen u.Bytes GenError (List AccountId) := do
  let withSigners ← u.bool
  let byte ← u.u8
  Gen.iterate (arbPublicAccountIds.step u accounts) (byte.toNat % 4)
    (if withSigners then signerIds else [])

/-- One iteration of the loop over private actions. -/
def arbPrivateActions.step (liveRoot : CommitmentSetDigest)
    (privateActions : List (PrivateAction P.toPrivacyTypes)) :
    Gen u.Bytes GenError (List (PrivateAction P.toPrivacyTypes)) := do
  let action ← arbPrivateAction P u liveRoot
  return pushPrivateActionIfUnique privateActions action

/-- One to three private actions without a repeated nullifier or commitment. -/
def arbPrivateActions (liveRoot : CommitmentSetDigest) :
    Gen u.Bytes GenError (List (PrivateAction P.toPrivacyTypes)) := do
  let byte ← u.u8
  let privateActions ← Gen.iterate (arbPrivateActions.step P u liveRoot) (byte.toNat % 4) []
  -- check 1 of the validator: the list must not be empty
  if privateActions.isEmpty then
    let action ← arbPrivateAction P u liveRoot
    return [action]
  else
    return privateActions

/-- The public action of one owner. -/
def arbPublicAction (accountId : AccountId) : Gen u.Bytes GenError PublicActionWithID := do
  let effects ← arbPublicEffects P C u
  return { accountId, effects }

/-- `arb_privacy_preserving_tx` up to its message, with the keys and ids of the signers. -/
def arbMessage (state : M.State) (accounts : List (FuzzAccount M.toKeys)) :
    Gen u.Bytes GenError (PPMessage P.toPrivacyTypes × List M.PrivateKey × List AccountId) := do
  -- signers, owners, effects and actions are drawn in this order
  let (keys, signerIds) ← arbSigners u accounts
  -- read live, so that the nonces match
  let nonces := signerIds.map (M.nonce state)
  let publicAccountIds ← arbPublicAccountIds u accounts signerIds
  let publicActions ← Gen.traverse (arbPublicAction P C u) publicAccountIds
  let privateActions ← arbPrivateActions P u (P.commitmentSetDigest state)
  let blockValidityWindow ← arbValidityWindow P C u
  let timestampValidityWindow ← arbValidityWindow P C u
  return ({ publicActions, nonces, privateActions, blockValidityWindow, timestampValidityWindow
            programImageClaims := [] }, keys, signerIds)

/-- A passing proof most of the time, garbage otherwise. -/
def arbProof (message : PPMessage P.toPrivacyTypes) (state : M.State)
    (signerIds : List AccountId) : Gen u.Bytes GenError Proof := do
  let byte ← u.u8
  if byte.toNat % 8 = 0 then
    let bytes ← u.vecU8
    return Proof.fromInner bytes
  else
    return synthesizePassingProof P message state signerIds

/-- A privacy-preserving transaction for the given state. -/
def arbPrivacyPreservingTx (state : M.State) (accounts : List (FuzzAccount M.toKeys)) :
    Gen u.Bytes GenError M.PrivacyPreservingTransaction := do
  let (message, keys, signerIds) ← arbMessage P C u state accounts
  let proof ← arbProof P u message state signerIds
  let witnessSet := P.witnessSetForMessage message proof keys
  return P.newTransaction message witnessSet

end LezFuzzing.Native
