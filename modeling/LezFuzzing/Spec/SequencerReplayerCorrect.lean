import LezFuzzing.Native.SequencerReplayer
import LezFuzzing.Spec.SplitMachine

/-!
# The replayer follows the sequencer

The sequencer folds validate and apply over all raw transactions and skips failures; the
replayer folds execute over the accepted ones and skips nothing. If the two halves do
what execution does, the replayer reaches the sequencer's state after every prefix, so
the target's comparison cannot fail.

## Key results

- `sequencerStep_replayable`: one iteration of the sequencer keeps its accepted list replayable
- `fuzzSequencerVsReplayer_no_false_alarm`: the two passes agree, and the target returns
-/

namespace LezFuzzing.Spec

open LezFuzzing.Native

section Passes

variable {S : SplitMachine} {blockId timestamp : U64} {baseState : S.State}
  {pass : SequencerPass S}

/-- The invariant of the sequencer loop: replaying what was accepted so far, from the same
    base state, is accepted and ends in the live state. -/
def Replayable (blockId timestamp : U64) (baseState : S.State) (pass : SequencerPass S) : Prop :=
  replayerPass S blockId timestamp baseState pass.acceptedTxs = .ok pass.seqState

/-- A transaction that the sequencer applies, the replayer executes to the same state. -/
theorem replayerStep_eq_ok (hagree : HalvesAgree S) {state : S.State} {tx : S.Tx}
    {diff : S.ValidatedStateDiff} (hcheck : S.transactionStatelessCheck tx = .ok tx)
    (hvalid : S.validateOnState tx state blockId timestamp = .ok diff) :
    replayerStep S blockId timestamp state tx = .ok (S.applyStateDiff state diff) := by
  have hok := hagree.isOk_execute tx state blockId timestamp
  have hstate := hagree.state_execute tx state blockId timestamp diff hvalid
  rw [hvalid] at hok
  cases hexec : S.executeCheckOnState tx state blockId timestamp with
  | mk result repState =>
    rw [hexec] at hok hstate
    cases result with
    | error e => exact nomatch hok
    | ok appliedTx =>
      simp only [replayerStep, hcheck, hexec]
      exact congrArg Except.ok hstate

/-- One iteration of the sequencer loop: it skips the transaction, or it accepts it at the
    end of its list and applies a validated diff. -/
theorem sequencerStep_cases (blockId timestamp : U64) (pass : SequencerPass S) (txRaw : S.Tx) :
    sequencerStep S blockId timestamp pass txRaw = pass ∨
    ∃ tx diff, S.transactionStatelessCheck txRaw = .ok tx ∧
      S.validateOnState tx pass.seqState blockId timestamp = .ok diff ∧
      (sequencerStep S blockId timestamp pass txRaw).acceptedTxs = pass.acceptedTxs ++ [tx] ∧
      (sequencerStep S blockId timestamp pass txRaw).seqState =
        S.applyStateDiff pass.seqState diff := by
  unfold sequencerStep
  cases hcheck : S.transactionStatelessCheck txRaw with
  | error e => exact .inl rfl
  | ok tx =>
    cases hvalid : S.validateOnState tx pass.seqState blockId timestamp with
    | error e => simp only [hvalid, true_or]
    | ok diff =>
      simp only [hvalid]
      exact .inr ⟨tx, diff, rfl, hvalid, rfl, rfl⟩

/-- The accepted list stays replayable, whatever the next transaction does. -/
theorem sequencerStep_replayable (hagree : HalvesAgree S)
    (hsame : ∀ tx tx', S.transactionStatelessCheck tx = .ok tx' → tx' = tx)
    (h : Replayable blockId timestamp baseState pass) (txRaw : S.Tx) :
    Replayable blockId timestamp baseState (sequencerStep S blockId timestamp pass txRaw) := by
  obtain hskip | ⟨tx, diff, hcheck, hvalid, haccepted, hstate⟩ :=
    sequencerStep_cases blockId timestamp pass txRaw
  · rwa [hskip]
  · obtain rfl := hsame txRaw tx hcheck
    have hstep := replayerStep_eq_ok hagree hcheck hvalid
    -- the replayer goes through the old list, then executes the new transaction
    rw [Replayable, haccepted, hstate, replayerPass, List.foldlM_append]
    exact Except.bind_eq_ok_iff.mpr ⟨pass.seqState, h, Except.bind_eq_ok_iff.mpr ⟨_, hstep, rfl⟩⟩

/-- The whole sequencer pass keeps its accepted list replayable. -/
theorem sequencerPass_replayable (hagree : HalvesAgree S)
    (hsame : ∀ tx tx', S.transactionStatelessCheck tx = .ok tx' → tx' = tx)
    (initAccs : List (AccountId × U128)) (txs : List S.Tx) :
    Replayable blockId timestamp baseState
      (sequencerPass S blockId timestamp initAccs baseState txs) := by
  -- from any pass that is replayable already
  suffices ∀ pass, Replayable blockId timestamp baseState pass →
      Replayable blockId timestamp baseState
        (txs.foldl (sequencerStep S blockId timestamp) pass) from this _ rfl
  induction txs with
  | nil => exact fun pass h => h
  | cons txRaw txs ih =>
    intro pass h
    exact ih _ (sequencerStep_replayable hagree hsame h txRaw)

/-- The sequencer accepts a sublist of the raw transactions, in their order. -/
theorem sequencerPass_sublist
    (hsame : ∀ tx tx', S.transactionStatelessCheck tx = .ok tx' → tx' = tx)
    (initAccs : List (AccountId × U128)) (txs : List S.Tx) :
    (sequencerPass S blockId timestamp initAccs baseState txs).acceptedTxs.Sublist txs := by
  suffices ∀ pass : SequencerPass S, (txs.foldl (sequencerStep S blockId timestamp)
      pass).acceptedTxs.Sublist (pass.acceptedTxs ++ txs) from this _
  induction txs with
  | nil =>
    intro pass
    rw [List.append_nil, List.foldl_nil]
  | cons txRaw txs ih =>
    intro pass
    have hrest := ih (sequencerStep S blockId timestamp pass txRaw)
    rw [List.foldl_cons]
    obtain hskip | ⟨tx, diff, hcheck, _, haccepted, _⟩ :=
      sequencerStep_cases blockId timestamp pass txRaw
    · rw [hskip] at hrest ⊢
      exact hrest.trans ((List.sublist_cons_self txRaw txs).append_left _)
    · obtain rfl := hsame txRaw tx hcheck
      rw [haccepted, List.append_assoc, List.singleton_append] at hrest
      exact hrest

end Passes

/-! ## The target -/

/-- No false alarm: the sequencer pass over all transactions and the replayer pass over the
    accepted ones end in the same state, and with the clock or without it the target
    returns. -/
theorem fuzzSequencerVsReplayer_no_false_alarm (S : SplitMachine) (C : ClockCrates S.toMachine)
    (hagree : HalvesAgree S)
    (hsame : ∀ tx tx', S.transactionStatelessCheck tx = .ok tx' → tx' = tx)
    (initAccs : List (AccountId × U128)) (baseState : S.State) (timestamp : U64)
    (txs : List S.Tx) :
    let pass := sequencerPass S 1 timestamp initAccs baseState txs
    pass.acceptedTxs.Sublist txs ∧
    replayerPass S 1 timestamp baseState pass.acceptedTxs = .ok pass.seqState ∧
    ∀ runClock,
      (fuzzSequencerVsReplayer S C runClock timestamp initAccs baseState txs).Returns := by
  intro pass
  have hreplay : replayerPass S 1 timestamp baseState pass.acceptedTxs = .ok pass.seqState :=
    sequencerPass_replayable hagree hsame initAccs txs
  refine ⟨sequencerPass_sublist hsame initAccs txs, hreplay, fun runClock => ?_⟩
  cases runClock with
  | false =>
    refine ⟨(), ?_⟩
    show (replayerPass S 1 timestamp baseState pass.acceptedTxs >>= _) = _
    rw [hreplay]
    exact assertSameAccount_self ..
  | true =>
    cases hclock : C.transitionFromPublicTransaction (C.clockInvocation 1 timestamp)
        pass.seqState 1 timestamp with
    | mk clockResult seqState =>
      cases clockResult with
      | error e =>
        -- the block cannot be produced: the early return
        exact ⟨(), by simp only [fuzzSequencerVsReplayer, ↓reduceIte, pass, hclock]; rfl⟩
      | ok u =>
        have hrep : replayerClock 1 timestamp C pass.seqState = .ok seqState := by
          simp only [replayerClock, hclock]
          rfl
        refine ⟨(), ?_⟩
        simp only [fuzzSequencerVsReplayer, ↓reduceIte, hclock, pass] at hreplay hrep ⊢
        rw [hreplay, Except.ok_bind, hrep]
        exact assertSameAccount_self ..

/-! ## A run of the target -/

/-- The clock of `plainSplit`: block ids go up by one, and the account 1001 stores the last. -/
def plainClock : ClockCrates plainSplit.toMachine where
  clockInvocation _ _ := .inr ()
  transitionFromPublicTransaction _ state blockId _ :=
    if (state ⟨1001⟩).data.toNat + 1 = blockId.toNat then
      (.ok (), fun id => if id = ⟨1001⟩ then ⟨0, .ofNat 128 blockId.toNat⟩ else state id)
    else
      (.error (), state)
  clockAccountIds := [⟨1001⟩, ⟨1002⟩, ⟨1003⟩]

/-- A transfer that is refused at first, one that is accepted, the first again, which can
    now be paid, and a transaction that is never valid. -/
def mixedTxs : List plainSplit.Tx :=
  [.Public (.inl (plainTransfer 2 0 1 7)), .Public (.inl (plainTransfer 1 0 2 4)),
    .Public (.inl (plainTransfer 2 0 1 7)), .Public (.inr ())]

theorem plainSplit_stateless (tx tx' : plainSplit.Tx)
    (h : plainSplit.transactionStatelessCheck tx = .ok tx') : tx' = tx :=
  (Except.ok.inj h).symm

/-- Two of the four are accepted, and with the clock or without it nothing is reported. -/
theorem fuzzSequencerVsReplayer_no_false_alarm_mixed :
    let initAccs : List (AccountId × U128) := [(⟨1⟩, 10), (⟨2⟩, 3)]
    let base := ReferenceState.genesis initAccs
    (sequencerPass plainSplit 1 1000 initAccs base mixedTxs).acceptedTxs.length = 2 ∧
    ∀ runClock,
      (fuzzSequencerVsReplayer plainSplit plainClock runClock 1000 initAccs base
        mixedTxs).Returns := by
  refine ⟨by decide, ?_⟩
  exact (fuzzSequencerVsReplayer_no_false_alarm plainSplit plainClock plainSplit_halvesAgree
    plainSplit_stateless _ _ 1000 mixedTxs).2.2

end LezFuzzing.Spec
