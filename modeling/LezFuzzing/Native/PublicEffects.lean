import LezFuzzing.Native.Invariants
import LezFuzzing.Native.PrivacyGenerators

/-!
# The effect oracle (`fuzz_targets/fuzz_privacy_preserving_state_transition.rs`)

After an accepted transaction the target recomputes every public account from its
pre-state: it folds the account's native effects into its balance, writes the balance
back, and adds the nonce increment of a signer. The account must be found in that state.
-/

namespace LezFuzzing.Native

/-- What the loop uses of `nssa_core` and `borsh`. -/
structure NativeToken (M : Machine) where
  /-- `NATIVE_TOKEN_PROGRAM_ID` -/
  nativeTokenProgramId : AccountId
  /-- `borsh::from_slice` at the type of native effects -/
  effectFromSlice : List (BitVec 8) → Option NativeEffect
  encodeBalance : U128 → List (BitVec 8)
  /-- `Data::set_shard` -/
  setShard : M.Data → AccountId → List (BitVec 8) → M.Data
  publicAccountNonceIncrement : U128 → U128

/-- The public accounts a transaction could touch, behind the genesis accounts. -/
def trackedAccounts (initIds signerIds publicAccountIds : List AccountId) : List AccountId :=
  (signerIds ++ publicAccountIds).foldl
    (fun tracked id => if id ∈ tracked then tracked else tracked ++ [id]) initIds

/-- A native effect on a balance. -/
def NativeEffect.checkedApply (balance : U128) : NativeEffect → Option U128
  | .Debit amount => balance.checkedSub amount
  | .Credit amount => balance.checkedAdd amount

/-- The panic of an effect that does not decode. -/
def Panic.undecodableEffect : Panic :=
  .violation "PublicEffectsApplied" "transaction accepted with an undecodable native effect"

/-- The panic of an effect that the balance cannot take. -/
def Panic.effectOutOfRange : Panic :=
  .violation "PublicEffectsApplied"
    "transaction accepted although a native effect underflows or overflows the account balance"

section

variable {M : Machine} (T : NativeToken M)

/-- Fold the effects of an action into a balance; `none` where one of them is not native,
    which needs a deployed guest to apply. -/
def foldEffects (balance : U128) : List DeferredPublicEffect → Except Panic (Option U128)
  | [] => return some balance
  | effect :: effects =>
    if effect.programAccountId ≠ T.nativeTokenProgramId ∨
        effect.shardProgramAccountId ≠ T.nativeTokenProgramId then
      return none
    else do
      let native ← Except.expect (T.effectFromSlice effect.data) .undecodableEffect
      let balance ← Except.expect (native.checkedApply balance) .effectOutOfRange
      foldEffects balance effects

/-- The account an action must have led to; `none` where the action is skipped. -/
def expectedAccount (stateBefore : M.State) (signerIds : List AccountId)
    (action : PublicActionWithID) : Except Panic (Option (Account M.Data)) := do
  let expected := M.getAccountById stateBefore action.accountId
  let balance ← nativeBalance M stateBefore action.accountId
  match ← foldEffects T balance action.effects with
  | none => return none
  | some balance =>
    let expected :=
      if action.effects.isEmpty then
        expected
      else
        { expected with
          data := T.setShard expected.data T.nativeTokenProgramId (T.encodeBalance balance) }
    let expected :=
      if signerIds.contains action.accountId then
        { expected with nonce := T.publicAccountNonceIncrement expected.nonce }
      else
        expected
    return some expected

/-- Assert that every public account is its pre-state with the action's effects folded in. -/
def assertPublicEffectsApplied (stateBefore state : M.State) (signerIds : List AccountId)
    (publicActions : List PublicActionWithID) : Except Panic Unit :=
  publicActions.forM fun action => do
    match ← expectedAccount T stateBefore signerIds action with
    | none => return () -- an action with any other effect is skipped
    | some expected =>
      Except.assert (M.getAccountById state action.accountId = expected)
        (.violation "PublicEffectsApplied"
          "public account is not its pre-state with the declared native effects folded in")

end

end LezFuzzing.Native
