import LezFuzzing.Native.SplitPath

/-!
# Sequencer against replayer (`fuzz_sequencer_vs_replayer.rs`)

The sequencer validates and applies each raw transaction in turn and skips the ones that
fail; the replayer executes the accepted ones and skips nothing. On some inputs both
append the clock invocation. The target then compares every touched account.

It is modelled from its base state and the drawn transactions on; a generator error ends
the list.
-/

namespace LezFuzzing.Native

/-- The clock invocation and the call that runs it. -/
structure ClockCrates (M : Machine) where
  clockInvocation : U64 → U64 → M.PublicTransaction
  /-- The state left behind, whether the call succeeded or not. -/
  transitionFromPublicTransaction : M.PublicTransaction → M.State → U64 → U64 →
    Except M.Error Unit × M.State
  /-- `system_accounts::clock_account_ids()` -/
  clockAccountIds : List AccountId

/-- What the sequencer loop carries. -/
structure SequencerPass (S : SplitMachine) where
  seqState : S.State
  acceptedTxs : List S.Tx
  /-- A set: an id is inserted once. -/
  touchedIds : List AccountId

variable (S : SplitMachine) (blockId timestamp : U64)

/-- One iteration of the sequencer loop. -/
def sequencerStep (pass : SequencerPass S) (txRaw : S.Tx) : SequencerPass S :=
  match S.transactionStatelessCheck txRaw with
  | .error _ => pass
  | .ok tx =>
    match S.validateOnState tx pass.seqState blockId timestamp with
    | .error _ => pass
    | .ok diff => {
        seqState := S.applyStateDiff pass.seqState diff
        acceptedTxs := pass.acceptedTxs ++ [tx]
        touchedIds := (S.publicDiff diff).keys.foldl (fun ids accId => ids.insert accId)
          pass.touchedIds }

/-- Phase 1, without the clock. -/
def sequencerPass (initAccs : List (AccountId × U128)) (baseState : S.State)
    (txs : List S.Tx) : SequencerPass S :=
  txs.foldl (sequencerStep S blockId timestamp)
    { seqState := baseState, acceptedTxs := [], touchedIds := (initAccs.map Prod.fst).dedup }

/-- One iteration of the replayer loop. -/
def replayerStep (repState : S.State) (tx : S.Tx) : Except Panic S.State :=
  match S.transactionStatelessCheck tx with
  | .error _ => throw (.violation "ReplayerAcceptsAllSequencerTxs"
      ("transaction_stateless_check failed on the replayer for a sequencer-accepted " ++
        "transaction (stateless check is deterministic)"))
  | .ok checkedTx =>
    let (result, repState) := S.executeCheckOnState checkedTx repState blockId timestamp
    match result with
    | .ok _ => return repState
    | .error e => throw (.violation "ReplayerAcceptsAllSequencerTxs"
        ("execute_check_on_state rejected a sequencer-accepted transaction on the replayer: " ++
          S.debugError e))

/-- Phase 2, without the clock. -/
def replayerPass (baseState : S.State) (acceptedTxs : List S.Tx) : Except Panic S.State :=
  acceptedTxs.foldlM (replayerStep S blockId timestamp) baseState

def sequencerReplayerDivergence : Divergence where
  balance accId seq rep := .violation "SequencerReplayerEquivalence"
    (s!"balance diverges for account {repr accId} — sequencer={repr seq} " ++
      s!"replayer={repr rep}")
  nonce accId seq rep := .violation "SequencerReplayerEquivalence"
    s!"nonce diverges for account {repr accId} — sequencer={seq} replayer={rep}"
  data accId := .violation "SequencerReplayerEquivalence"
    s!"data field diverges for account {repr accId}"

variable {S} in
/-- The replayer's clock invocation. -/
def replayerClock (C : ClockCrates S.toMachine) (repState : S.State) : Except Panic S.State :=
  let (result, repState) := C.transitionFromPublicTransaction
    (C.clockInvocation blockId timestamp) repState blockId timestamp
  match result with
  | .ok _ => return repState
  | .error e => throw (.violation "ClockConsistency"
      ("clock invocation succeeded on the sequencer state but failed on the replayer state: " ++
        S.debugError e))

/-- `fuzz_sequencer_vs_replayer` -/
def fuzzSequencerVsReplayer (C : ClockCrates S.toMachine) (runClock : Bool) (timestamp : U64)
    (initAccs : List (AccountId × U128)) (baseState : S.State) (txs : List S.Tx) :
    Except Panic Unit :=
  let blockId : U64 := 1
  let pass := sequencerPass S blockId timestamp initAccs baseState txs
  if runClock then
    let (clockResult, seqState) := C.transitionFromPublicTransaction
      (C.clockInvocation blockId timestamp) pass.seqState blockId timestamp
    match clockResult with
    | .error _ => return () -- the block cannot be produced
    | .ok _ => do
      let repState ← replayerPass S blockId timestamp baseState pass.acceptedTxs
      let touchedIds := C.clockAccountIds.foldl (fun ids accId => ids.insert accId) pass.touchedIds
      let repState ← replayerClock blockId timestamp C repState
      touchedIds.forM (assertSameAccount S.toMachine sequencerReplayerDivergence seqState repState)
  else do
    let repState ← replayerPass S blockId timestamp baseState pass.acceptedTxs
    pass.touchedIds.forM
      (assertSameAccount S.toMachine sequencerReplayerDivergence pass.seqState repState)

end LezFuzzing.Native
