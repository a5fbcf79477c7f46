import LezFuzzing.Native.ArbitraryTypes
import LezFuzzing.Native.BlockSequence
import LezFuzzing.Native.Harness
import LezFuzzing.Native.PrivacyGenerators

/-!
# The public state-transition targets, from the bytes on

`fuzz_state_transition.rs`, `fuzz_multi_block_state_sequence.rs` and
`fuzz_replay_prevention.rs` draw the same mix of transactions and put the five invariants
around each. `BlockSequence` has the loop body; here are the entry points, which draw each
transaction when its turn comes.
-/

namespace LezFuzzing.Native

variable {M : Machine} (G : GenesisCrates M) (A : PublicTxCrates M) (u : WideUnstructured)

/-- A correctly signed transfer between known accounts, or any transaction. -/
def arbMixedTransaction (fuzzAccs : List (FuzzAccount M.toKeys)) : Gen u.Bytes GenError M.Tx := do
  let correlated ← unwrapOr u.bool false
  if correlated then
    arbFuzzNativeTransfer M u.toUnstructured fuzzAccs
  else
    arbitraryTransaction A u

/-- `fuzz_state_transition` -/
def fuzzStateTransitionEntry : Gen u.Bytes GenError Unit :=
  withFuzzState G u.toUnstructured fun fuzzAccs state => do
    let byte ← unwrapOr u.u8 0
    let nTxs := byte.toNat % 8
    let _ ← forDrawn nTxs state (fun _ => arbMixedTransaction A u fuzzAccs) fun i state tx =>
      applyTransaction M (initAccounts fuzzAccs) (1 + .ofNat 64 i) (.ofNat 64 i) state tx
    return ()

/-- `fuzz_multi_block_state_sequence` -/
def fuzzMultiBlockStateSequenceEntry : Gen u.Bytes GenError Unit :=
  withFuzzState G u.toUnstructured fun fuzzAccs state => do
    let ids := (initAccounts fuzzAccs).map Prod.fst
    let startingTotal ← checked (sumNativeBalances M state ids
      (.violation "BalanceOverflow" ("initial sum of genesis account balances exceeded " ++
        "u128::MAX — per-account balance cap in arbitrary_fuzz_state() should prevent this; if " ++
        "triggered, the cap has been raised without updating this check")))
    let byte ← unwrapOr u.u8 0
    let nTxs := byte.toNat % 16
    let state ← forDrawn nTxs state (fun _ => arbMixedTransaction A u fuzzAccs) fun i state tx =>
      applyTransaction M (initAccounts fuzzAccs) (1 + .ofNat 64 i) (.ofNat 64 i * 1000) state tx
    let endingTotal ← checked (sumNativeBalances M state ids
      (.violation "BalanceOverflow" ("final sum of genesis account balances exceeded " ++
        "u128::MAX — token-inflation bug that saturating_add would have silently masked")))
    checked (Except.assert (startingTotal = endingTotal)
      (.violation "LongRangeBalanceConservation"
        ("total balance of genesis accounts changed after the entire transaction sequence " ++
          s!"(starting total={startingTotal}, ending total={endingTotal}) — possible " ++
          "long-range token-inflation or token-burn bug")))

/-- `fuzz_replay_prevention` -/
def fuzzReplayPreventionEntry : Gen u.Bytes GenError Unit :=
  withFuzzState G u.toUnstructured fun fuzzAccs state => do
    match ← attempt (arbMixedTransaction A u fuzzAccs) with
    | none => return ()
    | some tx =>
      -- block 1 at time 0, and the replay in block 2 at time 1
      let _ ← checked (applyTransaction M (initAccounts fuzzAccs) 1 0 state tx)
      return ()

end LezFuzzing.Native
