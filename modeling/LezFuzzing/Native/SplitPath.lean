import LezFuzzing.Native.Invariants

/-!
# Validate and apply against execute

Execution is also offered in two halves, a validation that borrows the state and
returns a diff, and the application of that diff. Two targets take one transaction
through the halves and through `execute_check_on_state` and compare.
`fuzz_apply_state_diff_split_path.rs` compares the two states,
`fuzz_validate_execute_consistency.rs` the diff with the executed state.

Both are modelled from the genesis state and the drawn transaction on.
-/

namespace LezFuzzing.Native

/-- A machine with the two halves of its execution. -/
structure SplitMachine extends Machine where
  ValidatedStateDiff : Type
  /-- The accounts a diff declares, with the values it gives them. -/
  publicDiff : ValidatedStateDiff → HashMap AccountId (Account Data)
  /-- Borrows the transaction and the state. -/
  validateOnState : LeeTransaction PublicTransaction PrivacyPreservingTransaction → State →
    U64 → U64 → Except Error ValidatedStateDiff
  /-- The state left behind; the harnesses drop what the call returns. -/
  applyStateDiff : State → ValidatedStateDiff → State
  /-- `{e:?}` -/
  debugError : Error → String

/-- The ids in a set collected from the genesis accounts and the keys of a diff, in some
    order of enumeration. -/
def knownIds {Data : Type} (initAccs : List (AccountId × U128))
    (publicDiff : HashMap AccountId (Account Data)) : List AccountId :=
  (initAccs.map Prod.fst ++ publicDiff.keys).dedup

/-! ### Comparing two states account by account -/

/-- What a comparison of two accounts reports, from the account's id and the two values. -/
structure Divergence where
  balance : AccountId → Option U128 → Option U128 → Panic
  nonce : AccountId → U128 → U128 → Panic
  data : AccountId → Panic

/-- Panic unless an account has the same balance, nonce and data in both states. -/
def assertSameAccount (M : Machine) (diverges : Divergence) (left right : M.State)
    (accId : AccountId) : Except Panic Unit := do
  let leftAcc := M.getAccountById left accId
  let rightAcc := M.getAccountById right accId
  Except.assert (M.nativeBalance leftAcc.data = M.nativeBalance rightAcc.data)
    (diverges.balance accId (M.nativeBalance leftAcc.data) (M.nativeBalance rightAcc.data))
  Except.assert (leftAcc.nonce = rightAcc.nonce)
    (diverges.nonce accId leftAcc.nonce rightAcc.nonce)
  Except.assert (leftAcc.data = rightAcc.data) (diverges.data accId)

def splitPathDivergence : Divergence where
  balance accId split exec := .violation "SplitPathEquivalence"
    (s!"balance diverges for account {repr accId} — split path balance={repr split} " ++
      s!"vs execute path balance={repr exec}")
  nonce accId split exec := .violation "NonceIncrementCorrectness"
    (s!"nonce diverges for account {repr accId} after validate+apply vs execute — " ++
      s!"split path nonce={split} vs execute path nonce={exec}")
  data accId := .violation "SplitPathEquivalence"
    s!"data field diverges for account {repr accId}"

/-! ### The two targets -/

variable (S : SplitMachine) (initAccs : List (AccountId × U128)) (state : S.State) (txRaw : S.Tx)

/-- `fuzz_apply_state_diff_split_path` -/
def fuzzApplyStateDiffSplitPath : Except Panic Unit :=
  match S.transactionStatelessCheck txRaw with
  | .error _ => return ()
  | .ok tx =>
    match S.validateOnState tx state 1 0 with
    | .error _ => return ()
    | .ok diff => do
      let signerIds := signerAccountIds S.toMachine tx
      let noncesBefore := nonceSnapshot S.toMachine state signerIds
      let splitState := S.applyStateDiff state diff
      assertNonceIncrementCorrectness S.toMachine signerIds noncesBefore splitState
      -- direct path, on a clone of the same state
      let (executeResult, execState) := S.executeCheckOnState tx state 1 0
      match executeResult with
      | .error _ => return () -- left to the consistency target
      | .ok _ =>
        (knownIds initAccs (S.publicDiff diff)).forM
          (assertSameAccount S.toMachine splitPathDivergence splitState execState)

/-- Invariant 2a: every account in the diff matches the executed state. -/
def assertForwardAccuracy (publicDiff : HashMap AccountId (Account S.Data))
    (execState : S.State) : Except Panic Unit :=
  publicDiff.entries.forM fun ⟨accountId, expectedAccount⟩ =>
    Except.assert (expectedAccount = S.getAccountById execState accountId)
      ⟨"INVARIANT VIOLATION: validate diff and execute state disagree for account " ++
        s!"{repr accountId}"⟩

/-- Invariant 2b: every known account that execution changed is in the diff. -/
def assertReverseAccuracy (publicDiff : HashMap AccountId (Account S.Data))
    (execState : S.State) : Except Panic Unit :=
  (knownIds initAccs publicDiff).forM fun accId =>
    if S.getAccountById state accId ≠ S.getAccountById execState accId then
      Except.assert (accId ∈ publicDiff)
        ⟨"INVARIANT VIOLATION: execute_check_on_state modified account " ++
          s!"{repr accId} which is absent from validate_on_state diff"⟩
    else
      return ()

/-- Invariant 3: the known accounts have the same total before and after. -/
def assertKnownTotal (publicDiff : HashMap AccountId (Account S.Data))
    (execState : S.State) : Except Panic Unit := do
  let totalBefore ← sumNativeBalances S.toMachine state (knownIds initAccs publicDiff)
    (.balanceOverflow "pre-execution sum of known account balances")
  let totalAfter ← sumNativeBalances S.toMachine execState (knownIds initAccs publicDiff)
    (.balanceOverflow "post-execution sum of known account balances")
  Except.assert (totalBefore = totalAfter)
    ⟨"INVARIANT VIOLATION: total balance of known accounts changed after successful " ++
      "transaction (possible double-credit or token-inflation bug)"⟩

/-- `fuzz_validate_execute_consistency` -/
def fuzzValidateExecuteConsistency : Except Panic Unit :=
  match S.transactionStatelessCheck txRaw with
  | .error _ => return ()
  | .ok tx => do
    let noncesBefore := nonceSnapshot S.toMachine state (initAccs.map Prod.fst)
    let validateResult := S.validateOnState tx state 1 0
    let (executeResult, execState) := S.executeCheckOnState tx state 1 0
    match validateResult, executeResult with
    | .ok diff, .ok appliedTx => do
      assertForwardAccuracy S (S.publicDiff diff) execState
      assertReverseAccuracy S initAccs state (S.publicDiff diff) execState
      assertKnownTotal S initAccs state (S.publicDiff diff) execState
      assertNonceIncrementCorrectness S.toMachine (signerAccountIds S.toMachine appliedTx)
        noncesBefore execState
    | .error _, .error _ => return ()
    | .ok _, .error e =>
      throw ⟨"INVARIANT VIOLATION: validate_on_state succeeded but " ++
        "execute_check_on_state failed: " ++ S.debugError e⟩
    | .error e, .ok _ =>
      throw ⟨"INVARIANT VIOLATION: validate_on_state failed but " ++
        "execute_check_on_state succeeded: " ++ S.debugError e⟩

end LezFuzzing.Native
