import LezFuzzing.Native.Lez

/-!
# Per-transaction invariants (`fuzz_props/src/invariants.rs`)

The checks every state-transition harness makes around one call of
`execute_check_on_state`. A check may find a violation, which the dispatcher turns
into a panic, or panic by itself (an undecodable balance, a sum that overflows).
-/

namespace LezFuzzing.Native

/-- The native-token shard of an account does not decode. -/
def Panic.nativeBalanceEncoding : Panic :=
  .violation "NativeBalanceEncoding" "native-token shard does not decode"

/-- A sum of balances exceeds `u128::MAX`. -/
def Panic.balanceOverflow (what : String) : Panic :=
  .violation "BalanceOverflow" (s!"{what} exceeded u128::MAX — " ++
    "token-inflation bug that saturating_add would have silently masked")

/-- Native-token balance of an account; panics if the shard does not decode. -/
def nativeBalance (M : Machine) (state : M.State) (accountId : AccountId) : Except Panic U128 :=
  Except.expect (M.balance state accountId) .nativeBalanceEncoding

/-- The fold `ids.map(native_balance).try_fold(0, checked_add).expect(..)`, which the
    harnesses write out wherever they add up balances of a state. -/
def sumNativeBalances (M : Machine) (state : M.State) (ids : List AccountId) (overflow : Panic) :
    Except Panic U128 :=
  ids.foldlM (fun acc id => do
    let balance ← nativeBalance M state id
    Except.expect (acc.checkedAdd balance) overflow) 0

/-- Balances captured before a transaction. -/
structure BalanceSnapshot where
  balances : HashMap AccountId U128

/-- Sum of all recorded balances; panics on overflow. -/
def BalanceSnapshot.total (self : BalanceSnapshot) : Except Panic U128 :=
  Except.expect (BitVec.checkedSum self.balances.vals) (.balanceOverflow "sum of account balances")

/-- Nonces captured before a transaction. -/
structure NonceSnapshot where
  nonces : HashMap AccountId U128

/-- The snapshot expression of the harnesses: one balance per listed account. -/
def balanceSnapshot (M : Machine) (state : M.State) (ids : List AccountId) :
    Except Panic BalanceSnapshot := do
  let balances ← ids.mapM fun id => do
    let balance ← nativeBalance M state id
    return (id, balance)
  return ⟨AList.ofPairs balances⟩

/-- The snapshot expression of the harnesses: one nonce per listed account. -/
def nonceSnapshot (M : Machine) (state : M.State) (ids : List AccountId) : NonceSnapshot :=
  ⟨AList.ofPairs (ids.map fun id => (id, M.nonce state id))⟩

/-- What a per-transaction check may look at. -/
structure InvariantCtx (M : Machine) where
  stateBefore : M.State
  stateAfter : M.State
  executionSucceeded : Bool
  balancesBefore : BalanceSnapshot
  noncesBefore : NonceSnapshot

/-- A named violation with its diagnostic. -/
structure InvariantViolation where
  invariant : String
  message : String

/-- A rule that can be checked against one transaction's context. -/
structure ProtocolInvariant (M : Machine) where
  name : String
  check : InvariantCtx M → Except Panic (Option InvariantViolation)

def balanceChanged (accId : AccountId) (expectedBalance actualBalance : U128) :
    InvariantViolation where
  invariant := "StateIsolationOnFailure"
  message := s!"balance changed despite tx rejection: account {repr accId} had " ++
    s!"{expectedBalance} before, {actualBalance} after"

/-- A rejected transaction changes no recorded balance. -/
def StateIsolationOnFailure (M : Machine) : ProtocolInvariant M where
  name := "StateIsolationOnFailure"
  check ctx :=
    if !ctx.executionSucceeded then
      ctx.balancesBefore.balances.entries.findSomeM? fun ⟨accId, expectedBalance⟩ => do
        let actualBalance ← nativeBalance M ctx.stateAfter accId
        if actualBalance ≠ expectedBalance then
          return some (balanceChanged accId expectedBalance actualBalance)
        return none
    else
      return none

/-- A successful transaction conserves the total of the recorded accounts. -/
def BalanceConservation (M : Machine) : ProtocolInvariant M where
  name := "BalanceConservation"
  check ctx :=
    if ctx.executionSucceeded then do
      let totalBefore ← ctx.balancesBefore.total
      let totalAfter ← sumNativeBalances M ctx.stateAfter ctx.balancesBefore.balances.keys
        (.balanceOverflow "sum of post-execution account balances")
      if totalBefore ≠ totalAfter then
        return some {
          invariant := "BalanceConservation"
          message := "total balance of known accounts changed after successful transaction: " ++
            s!"before={totalBefore}, after={totalAfter} " ++
            "(possible double-credit or token-inflation bug)" }
      return none
    else
      return none

def nonceChanged (accId : AccountId) (expectedNonce actualNonce : U128) :
    InvariantViolation where
  invariant := "FailedTxNonceStability"
  message := s!"nonce changed despite tx rejection: account {repr accId} nonce was " ++
    s!"{expectedNonce} before, {actualNonce} after " ++
    "(griefing attack — victim nonce permanently burned on failed tx)"

/-- A rejected transaction changes no recorded nonce. -/
def FailedTxNonceStability (M : Machine) : ProtocolInvariant M where
  name := "FailedTxNonceStability"
  check ctx :=
    if !ctx.executionSucceeded then
      ctx.noncesBefore.nonces.entries.findSomeM? fun ⟨accId, expectedNonce⟩ => do
        let actualNonce := M.nonce ctx.stateAfter accId
        if actualNonce ≠ expectedNonce then
          return some (nonceChanged accId expectedNonce actualNonce)
        return none
    else
      return none

/-- The registered rules, in the order they are run. -/
def invariants (M : Machine) : List (ProtocolInvariant M) :=
  [StateIsolationOnFailure M, BalanceConservation M, FailedTxNonceStability M]

/-- Run the registered rules and panic on the first violation. -/
def assertInvariants (M : Machine) (ctx : InvariantCtx M) : Except Panic Unit :=
  (invariants M).forM fun inv => do
    match ← inv.check ctx with
    | some violation => throw (.violation violation.invariant violation.message)
    | none => return ()

/-- Replay an applied transaction in place; panics if it is accepted again. -/
def assertReplayRejection (M : Machine) (appliedTx : M.Tx) (state : M.State)
    (nextBlockId nextTimestamp : U64) : Except Panic M.State := do
  let (replay, state) := M.executeCheckOnState appliedTx state nextBlockId nextTimestamp
  Except.assert (replay.isOk = false) (.violation "ReplayRejection"
    ("transaction accepted a second time — nonce replay not prevented " ++
      s!"(replay block_id={nextBlockId}, replay timestamp={nextTimestamp})"))
  return state

/-- Panic unless the nonce of every recorded signer went up by exactly one. -/
def assertNonceIncrementCorrectness (M : Machine) (signerIds : List AccountId)
    (noncesBefore : NonceSnapshot) (stateAfter : M.State) : Except Panic Unit :=
  signerIds.forM fun id =>
    match noncesBefore.nonces.lookup id with
    | some nonceBefore => do
      let nonceAfter := M.nonce stateAfter id
      let expected ← Except.expect (nonceBefore.checkedAdd 1)
        ⟨"nonce overflow — signer nonce at u128::MAX"⟩
      Except.assert (nonceAfter = expected) (.violation "NonceIncrementCorrectness"
        (s!"signer account {repr id} nonce not incremented by 1 after successful transaction " ++
          s!"— before={nonceBefore}, expected={expected}, got={nonceAfter} " ++
          "(apply_state_diff failed to increment nonce exactly once)"))
    | none => return () -- not in the snapshot: skip

/-- The five invariants around one `execute_check_on_state` call. Returns the state
    the mandatory replay leaves behind. -/
def assertTxExecutionInvariants (M : Machine) {E : Type} (stateBefore stateAfter : M.State)
    (balancesBefore : BalanceSnapshot) (noncesBefore : NonceSnapshot)
    (executionResult : Except E M.Tx) (replayContext : U64 × U64) :
    Except Panic M.State := do
  assertInvariants M {
    stateBefore, stateAfter
    executionSucceeded := executionResult.isOk
    balancesBefore, noncesBefore }
  match executionResult with
  | .ok appliedTx => do
    assertNonceIncrementCorrectness M (signerAccountIds M appliedTx) noncesBefore stateAfter
    let (nextBlockId, nextTimestamp) := replayContext
    assertReplayRejection M appliedTx stateAfter nextBlockId nextTimestamp
  | .error _ => return stateAfter

end LezFuzzing.Native
