import LezFuzzing.Native.Invariants

/-!
# Sequences of transactions (`fuzz_state_transition.rs`, `fuzz_multi_block_state_sequence.rs`)

Both targets apply a list of transactions to one live state and check the five
per-transaction invariants around each. They differ in the timestamps they use, and in
the long-range conservation check that the second makes at the end. The list holds the
raw transactions as the generators return them; a generator error ends it.
-/

namespace LezFuzzing.Native

variable (M : Machine)

/-- One iteration of either loop. -/
def applyTransaction (initAccs : List (AccountId × U128)) (blockId timestamp : U64)
    (state : M.State) (txRaw : M.Tx) : Except Panic M.State :=
  -- stateless gate
  match M.transactionStatelessCheck txRaw with
  | .error _ => return state
  | .ok tx => do
    let balancesBefore ← balanceSnapshot M state (initAccs.map Prod.fst)
    let noncesBefore := nonceSnapshot M state (initAccs.map Prod.fst)
    let stateSnapshot := state
    let (result, state) := M.executeCheckOnState tx state blockId timestamp
    assertTxExecutionInvariants M stateSnapshot state balancesBefore noncesBefore result
      (blockId + 1, timestamp + 1)

/-- The loop over the transactions from the `i`th on, with block ids from `1 + i`. -/
def applyTransactions (initAccs : List (AccountId × U128)) (timestampOf : ℕ → U64) :
    ℕ → M.State → List M.Tx → Except Panic M.State
  | _, state, [] => return state
  | i, state, txRaw :: txs => do
    let state ← applyTransaction M initAccs (1 + .ofNat 64 i) (timestampOf i) state txRaw
    applyTransactions initAccs timestampOf (i + 1) state txs

/-- `fuzz_state_transition`, from its genesis state on. -/
def fuzzStateTransition (initAccs : List (AccountId × U128)) (state : M.State)
    (txs : List M.Tx) : Except Panic M.State :=
  applyTransactions M initAccs (fun i => .ofNat 64 i) 0 state txs

/-- `fuzz_multi_block_state_sequence`, from its genesis state on. -/
def fuzzMultiBlockStateSequence (initAccs : List (AccountId × U128)) (state : M.State)
    (txs : List M.Tx) : Except Panic M.State := do
  let startingTotal ← sumNativeBalances M state (initAccs.map Prod.fst)
    (.violation "BalanceOverflow" ("initial sum of genesis account balances exceeded " ++
      "u128::MAX — per-account balance cap in arbitrary_fuzz_state() should prevent this; if " ++
      "triggered, the cap has been raised without updating this check"))
  let state ← applyTransactions M initAccs (fun i => .ofNat 64 i * 1000) 0 state txs
  let endingTotal ← sumNativeBalances M state (initAccs.map Prod.fst)
    (.violation "BalanceOverflow" ("final sum of genesis account balances exceeded u128::MAX — " ++
      "token-inflation bug that saturating_add would have silently masked"))
  Except.assert (startingTotal = endingTotal) (.violation "LongRangeBalanceConservation"
    ("total balance of genesis accounts changed after the entire transaction sequence " ++
      s!"(starting total={startingTotal}, ending total={endingTotal}) — possible long-range " ++
      "token-inflation or token-burn bug"))
  return state

end LezFuzzing.Native
