import LezFuzzing.Native.StateTransition
import LezFuzzing.Spec.ArbitraryTypesCorrect
import LezFuzzing.Spec.BlockSequenceCorrect
import LezFuzzing.Spec.HarnessCorrect

/-!
# What the public targets check, from the bytes on

What these targets draw does not depend on the state, so their transactions are a list that
the bytes determine, and a run over the bytes is a run over this list. What
`applyTransactions_eq_ok_iff` says about lists then holds of the targets themselves. The sum
that `fuzz_multi_block_state_sequence` starts with cannot overflow: the cap on the generated
balances sees to it.

## Key results

- `applyTransactions_eq_runSteps`: the loop over a list is a driver on given values
- `genesis_totalFits`: the generated balances of a genesis state add up
- `publicTargets_return_iff`: each target returns exactly when its rounds are correct
-/

namespace LezFuzzing.Spec

open LezFuzzing.Native

section Draws

variable {M : Machine} {A : PublicTxCrates M} {u : WideUnstructured}

theorem arbFuzzNativeTransfer_failsWith {u : Unstructured} (hu : DrawsDoNotPanic u)
    (accounts : List (FuzzAccount M.toKeys)) :
    (arbFuzzNativeTransfer M u accounts).FailsWith IsErr := by
  unfold arbFuzzNativeTransfer
  split
  · intro s e s' hrun
    exact ⟨_, (Except.error.inj (Prod.mk.inj hrun).1).symm⟩
  · refine Gen.failsWith_bind hu.u8 fun _ => Gen.failsWith_bind hu.u8 fun _ => ?_
    refine Gen.failsWith_bind hu.bool fun biased => ?_
    split
    · exact Gen.failsWith_bind hu.u8 fun _ => Gen.failsWith_bind hu.u128 fun _ =>
        Gen.failsWith_pure
    · exact Gen.failsWith_bind hu.u128 fun _ => Gen.failsWith_bind hu.u128 fun _ =>
        Gen.failsWith_pure

theorem arbMixedTransaction_failsWith (hu : WideDrawsDoNotPanic u)
    (hseed : (M.tryNew knownGoodSeed).isSome) (accounts : List (FuzzAccount M.toKeys)) :
    (arbMixedTransaction A u accounts).FailsWith IsErr := by
  refine Gen.failsWith_bind (unwrapOr_failsWith hu.bool false) fun correlated => ?_
  split
  · exact arbFuzzNativeTransfer_failsWith hu.toDrawsDoNotPanic accounts
  · exact arbLeeTransaction_failsWith hu hseed

variable (A u) in
/-- The transactions that the bytes hold, up to `n` or the first `Err`. -/
def mixedTransactions (accounts : List (FuzzAccount M.toKeys)) (n : ℕ) (input : u.Bytes) :
    List M.Tx :=
  Gen.collected (arbMixedTransaction A u accounts) n input

end Draws

section Run

variable {M : Machine} {initAccs : List (AccountId × U128)} {timestampOf : ℕ → U64}

/-- The loop over a list is a driver on given values. -/
theorem applyTransactions_eq_runSteps (i : ℕ) (state : M.State) (txs : List M.Tx) :
    applyTransactions M initAccs timestampOf i state txs =
      Gen.runSteps (fun i state tx =>
        applyTransaction M initAccs (1 + .ofNat 64 i) (timestampOf i) state tx) i state txs := by
  induction txs generalizing i state with
  | nil => rfl
  | cons tx txs ih =>
    rw [applyTransactions, Gen.runSteps]
    exact bind_congr fun state => ih (i + 1) state

variable {G : GenesisCrates M} {fuzzAccs : List (FuzzAccount M.toKeys)}

/-- The generated balances of a genesis state add up to a `u128`. -/
theorem genesis_totalFits (laws : GenesisLaws G)
    (hwf : FuzzAccountsWF (reservedAccountIds G) fuzzAccs) :
    TotalFits M (genesisState G (initAccounts fuzzAccs) []) (fuzzAccs.map (·.accountId)) := by
  have hkeys : (initAccounts fuzzAccs).map Prod.fst = fuzzAccs.map (·.accountId) := List.map_map
  have hbalance : ∀ acc ∈ fuzzAccs,
      M.balance (genesisState G (initAccounts fuzzAccs) []) acc.accountId = some acc.balance :=
    fun acc hacc => balance_genesisState laws [] (hkeys ▸ hwf.nodup) (List.mem_map_of_mem hacc)
      (hwf.not_reserved acc hacc)
  have htotal : totalNat M (genesisState G (initAccounts fuzzAccs) [])
      (fuzzAccs.map (·.accountId)) = (fuzzAccs.map (·.balance.toNat)).sum := by
    rw [totalNat, List.map_map]
    exact congrArg List.sum (List.map_congr_left fun acc hacc =>
      balanceNat_of_balance (hbalance acc hacc))
  refine ⟨fun id hid => ?_, htotal ▸ hwf.sum_lt⟩
  obtain ⟨acc, hacc, rfl⟩ := List.mem_map.mp hid
  rw [hbalance acc hacc, Option.isSome_some]

/-- The part of `fuzz_multi_block_state_sequence` that asserts, on a list of transactions. -/
theorem fuzzMultiBlockStateSequence_returns_iff {state : M.State} {txs : List M.Tx}
    (hnd : (initAccs.map Prod.fst).Nodup) (hstart : TotalFits M state (initAccs.map Prod.fst)) :
    (fuzzMultiBlockStateSequence M initAccs state txs).Returns ↔
      (∀ r ∈ multiBlockRounds M state txs, RoundCorrect (initAccs.map Prod.fst) r) ∧
      TotalFits M (endState M (fun i => .ofNat 64 i * 1000) 0 state txs)
        (initAccs.map Prod.fst) ∧
      ((multiBlockRounds M state txs).map (replayChange (initAccs.map Prod.fst))).sum = 0 := by
  have hchange : (∀ r ∈ multiBlockRounds M state txs, RoundCorrect (initAccs.map Prod.fst) r) →
      (totalNat M (endState M (fun i => .ofNat 64 i * 1000) 0 state txs)
        (initAccs.map Prod.fst) : ℤ) = totalNat M state (initAccs.map Prod.fst) +
        ((multiBlockRounds M state txs).map (replayChange (initAccs.map Prod.fst))).sum :=
    total_endState hnd
  constructor
  · intro hret
    have hrun := hret
    rw [fuzzMultiBlockStateSequence] at hret
    obtain ⟨_, _, hret⟩ := Except.returns_bind_iff.mp hret
    obtain ⟨state', hloop, hret⟩ := Except.returns_bind_iff.mp hret
    obtain ⟨endingTotal, hsum, _⟩ := Except.returns_bind_iff.mp hret
    obtain ⟨hrounds, rfl⟩ := applyTransactions_eq_ok_iff.mp hloop
    obtain ⟨hdec, hnat⟩ := sumNativeBalances_eq_ok_iff.mp hsum
    have hend : TotalFits M (endState M (fun i => .ofNat 64 i * 1000) 0 state txs)
        (initAccs.map Prod.fst) := ⟨hdec, hnat ▸ endingTotal.isLt⟩
    have heq := (fuzzMultiBlockStateSequence_of_fits hloop hstart hend).mp hrun
    have hsum := hchange hrounds
    exact ⟨hrounds, hend, by omega⟩
  · rintro ⟨hrounds, hend, hzero⟩
    have hsum := hchange hrounds
    exact (fuzzMultiBlockStateSequence_of_fits (applyTransactions_eq_ok_iff.mpr ⟨hrounds, rfl⟩)
      hstart hend).mpr (by omega)

end Run

/-! ## The targets -/

section Targets

variable {M : Machine} {G : GenesisCrates M} {A : PublicTxCrates M} {u : WideUnstructured}
  {fuzzAccs : List (FuzzAccount M.toKeys)}

/-- A loop over mixed transactions, with something to check behind it. -/
private theorem forDrawn_checked_iff (hu : WideDrawsDoNotPanic u)
    (hseed : (M.tryNew knownGoodSeed).isSome) (final : M.State → Except Panic Unit)
    {timestampOf : ℕ → U64} {n : ℕ} {state : M.State} {input : u.Bytes} :
    (∃ rest, (forDrawn n state (fun _ => arbMixedTransaction A u fuzzAccs)
        (fun i state tx => applyTransaction M (initAccounts fuzzAccs) (1 + .ofNat 64 i)
          (timestampOf i) state tx) >>= fun state => checked (final state)) input =
        (.ok (), rest)) ↔
      ∃ state', applyTransactions M (initAccounts fuzzAccs) timestampOf 0 state
        (mixedTransactions A u fuzzAccs n input) = .ok state' ∧ final state' = .ok () := by
  rw [applyTransactions_eq_runSteps]
  exact Gen.exists_drive_lift_eq_ok_iff (fun _ => rfl)
    (isErr_of_failsWith (arbMixedTransaction_failsWith hu hseed fuzzAccs))

/-- `fuzz_state_transition` returns exactly when its rounds are correct. -/
private theorem stateTransition_returns_iff (hu : WideDrawsDoNotPanic u)
    (hseed : (M.tryNew knownGoodSeed).isSome) (input : u.Bytes) :
    (∃ rest, fuzzStateTransitionEntry G A u input = (.ok (), rest)) ↔
      ∀ fuzzAccs mid,
        arbitraryFuzzState M.toKeys u.toUnstructured (reservedAccountIds G) input =
          (.ok fuzzAccs, mid) →
      ∀ byte start, unwrapOr u.u8 0 mid = (.ok byte, start) →
        ∀ r ∈ rounds M (.ofNat 64) 0 (genesisState G (initAccounts fuzzAccs) [])
          (mixedTransactions A u fuzzAccs (byte.toNat % 8) start),
          RoundCorrect (fuzzAccs.map (·.accountId)) r := by
  rw [fuzzStateTransitionEntry, withFuzzState_returns_iff hu.toDrawsDoNotPanic hseed]
  refine forall₃_congr fun fuzzAccs mid _ => ?_
  have hids : (initAccounts fuzzAccs).map Prod.fst = fuzzAccs.map (·.accountId) := List.map_map
  rw [Gen.exists_bind_eq_ok_iff (unwrapOr_succeeds hu.u8 0)]
  refine forall₃_congr fun byte start _ => ?_
  rw [← hids]
  refine (forDrawn_checked_iff hu hseed fun _ => .ok ()).trans ?_
  simp only [applyTransactions_eq_ok_iff]
  exact ⟨fun ⟨_, h, _⟩ => h.1, fun h => ⟨_, ⟨h, rfl⟩, trivial⟩⟩

/-- `fuzz_multi_block_state_sequence` returns exactly when its rounds are correct and the
    changes by replays cancel. -/
private theorem multiBlock_returns_iff (laws : GenesisLaws G) (hu : WideDrawsDoNotPanic u)
    (hseed : (M.tryNew knownGoodSeed).isSome) (input : u.Bytes) :
    (∃ rest, fuzzMultiBlockStateSequenceEntry G A u input = (.ok (), rest)) ↔
      ∀ fuzzAccs mid,
        arbitraryFuzzState M.toKeys u.toUnstructured (reservedAccountIds G) input =
          (.ok fuzzAccs, mid) →
      ∀ byte start, unwrapOr u.u8 0 mid = (.ok byte, start) →
        let ids := fuzzAccs.map (·.accountId)
        let genesis := genesisState G (initAccounts fuzzAccs) []
        let txs := mixedTransactions A u fuzzAccs (byte.toNat % 16) start
        (∀ r ∈ multiBlockRounds M genesis txs, RoundCorrect ids r) ∧
        TotalFits M (endState M (fun i => .ofNat 64 i * 1000) 0 genesis txs) ids ∧
        ((multiBlockRounds M genesis txs).map (replayChange ids)).sum = 0 := by
  rw [fuzzMultiBlockStateSequenceEntry, withFuzzState_returns_iff hu.toDrawsDoNotPanic hseed]
  refine forall₃_congr fun fuzzAccs mid hrun => ?_
  have hids : (initAccounts fuzzAccs).map Prod.fst = fuzzAccs.map (·.accountId) := List.map_map
  have hwf := arbitraryFuzzState_wellFormed input fuzzAccs mid hrun
  have hfits := genesis_totalFits laws hwf
  rw [← hids] at hfits
  -- the sum at the start cannot overflow
  obtain ⟨total, hsum, _⟩ := sumNativeBalances_of_fits hfits (.violation "BalanceOverflow"
    ("initial sum of genesis account balances exceeded " ++
      "u128::MAX — per-account balance cap in arbitrary_fuzz_state() should prevent this; if " ++
      "triggered, the cap has been raised without updating this check"))
  rw [checked, hsum, Gen.bind_of_eq_ok Gen.lift_ok,
    Gen.exists_bind_eq_ok_iff (unwrapOr_succeeds hu.u8 0)]
  refine forall₃_congr fun byte start _ => ?_
  simp only [checked, Gen.lift_bind]
  refine (forDrawn_checked_iff hu hseed _).trans ?_
  rw [← hids, ← fuzzMultiBlockStateSequence_returns_iff (hids ▸ hwf.nodup) hfits,
    fuzzMultiBlockStateSequence, hsum, Except.ok_bind, Except.returns_bind_iff]
  refine exists_congr fun state' => and_congr_right fun _ => ?_
  rw [Except.bind_eq_ok_iff, Except.returns_bind_iff]
  refine exists_congr fun endingTotal => and_congr_right fun _ => ?_
  rw [Except.assert_eq_ok_iff, Except.returns_assert_bind_iff]
  exact (and_iff_left (Except.returns_ok _)).symm

/-- `fuzz_replay_prevention` returns exactly when its one round is correct. -/
private theorem replayPrevention_returns_iff (hu : WideDrawsDoNotPanic u)
    (hseed : (M.tryNew knownGoodSeed).isSome) (input : u.Bytes) :
    (∃ rest, fuzzReplayPreventionEntry G A u input = (.ok (), rest)) ↔
      ∀ fuzzAccs mid,
        arbitraryFuzzState M.toKeys u.toUnstructured (reservedAccountIds G) input =
          (.ok fuzzAccs, mid) →
      ∀ tx start, arbMixedTransaction A u fuzzAccs mid = (.ok tx, start) →
        RoundCorrect (fuzzAccs.map (·.accountId))
          (round M 1 0 (genesisState G (initAccounts fuzzAccs) []) tx) := by
  rw [fuzzReplayPreventionEntry, withFuzzState_returns_iff hu.toDrawsDoNotPanic hseed]
  refine forall₃_congr fun fuzzAccs mid _ => ?_
  have hids : (initAccounts fuzzAccs).map Prod.fst = fuzzAccs.map (·.accountId) := List.map_map
  rw [← hids]
  refine (Gen.exists_attempt_bind_eq_ok_iff
    (isErr_of_failsWith (arbMixedTransaction_failsWith hu hseed fuzzAccs))
    fun s => ⟨s, rfl⟩).trans ?_
  refine forall₃_congr fun tx start _ => ?_
  refine Gen.exists_lift_bind_eq_ok_iff.trans ?_
  simp only [Except.Returns, applyTransaction_eq_ok_iff]
  constructor
  · intro h
    obtain ⟨_, hcorrect, _⟩ := h
    exact hcorrect
  · intro hcorrect
    exact ⟨_, hcorrect, rfl⟩

/-- What the three targets check, from the bytes on. For any machine, any source of draws and
    any bytes, let the accounts be drawn, and the transactions in a row until the first `Err`.
    A target returns if and only if the rounds of its transactions are all correct: seven at
    most with timestamps by one, fifteen at most with timestamps by a thousand, or one. The
    second one also wants the final balances to decode and add up, and what rejected replays
    do to the total to cancel; its first sum, over the genesis balances, never overflows. -/
theorem publicTargets_return_iff {M : Machine} (G : GenesisCrates M) (A : PublicTxCrates M)
    (u : WideUnstructured) (laws : GenesisLaws G) (hu : WideDrawsDoNotPanic u)
    (hseed : (M.tryNew knownGoodSeed).isSome) (input : u.Bytes) :
    let drawn := fun fuzzAccs mid =>
      arbitraryFuzzState M.toKeys u.toUnstructured (reservedAccountIds G) input =
        (.ok fuzzAccs, mid)
    let idsOf := fun fuzzAccs : List (FuzzAccount M.toKeys) => fuzzAccs.map (·.accountId)
    let genesisOf := fun fuzzAccs => genesisState G (initAccounts fuzzAccs) []
    ((∃ rest, fuzzStateTransitionEntry G A u input = (.ok (), rest)) ↔
      ∀ fuzzAccs mid, drawn fuzzAccs mid →
      ∀ byte start, unwrapOr u.u8 0 mid = (.ok byte, start) →
        ∀ r ∈ rounds M (.ofNat 64) 0 (genesisOf fuzzAccs)
          (mixedTransactions A u fuzzAccs (byte.toNat % 8) start),
          RoundCorrect (idsOf fuzzAccs) r) ∧
    ((∃ rest, fuzzMultiBlockStateSequenceEntry G A u input = (.ok (), rest)) ↔
      ∀ fuzzAccs mid, drawn fuzzAccs mid →
      ∀ byte start, unwrapOr u.u8 0 mid = (.ok byte, start) →
        let txs := mixedTransactions A u fuzzAccs (byte.toNat % 16) start
        (∀ r ∈ multiBlockRounds M (genesisOf fuzzAccs) txs, RoundCorrect (idsOf fuzzAccs) r) ∧
        TotalFits M (endState M (fun i => .ofNat 64 i * 1000) 0 (genesisOf fuzzAccs) txs)
          (idsOf fuzzAccs) ∧
        ((multiBlockRounds M (genesisOf fuzzAccs) txs).map
          (replayChange (idsOf fuzzAccs))).sum = 0) ∧
    ((∃ rest, fuzzReplayPreventionEntry G A u input = (.ok (), rest)) ↔
      ∀ fuzzAccs mid, drawn fuzzAccs mid →
      ∀ tx start, arbMixedTransaction A u fuzzAccs mid = (.ok tx, start) →
        RoundCorrect (idsOf fuzzAccs) (round M 1 0 (genesisOf fuzzAccs) tx)) ∧
    ∀ fuzzAccs mid, drawn fuzzAccs mid → TotalFits M (genesisOf fuzzAccs) (idsOf fuzzAccs) :=
  ⟨stateTransition_returns_iff hu hseed input, multiBlock_returns_iff laws hu hseed input,
    replayPrevention_returns_iff hu hseed input, fun fuzzAccs mid hdrawn =>
      genesis_totalFits laws (arbitraryFuzzState_wellFormed input fuzzAccs mid hdrawn)⟩

/-- Two accounts and a transfer of 30 between them, as bytes. -/
def transferTape : List (BitVec 8) :=
  1 :: leBytes 32 7 ++ leBytes 16 800 ++ leBytes 32 9 ++ leBytes 16 0 ++
    [1, 1, 0, 1, 1, 0] ++ leBytes 16 30

/-- The target returns on these bytes, so the transfer and its replay are correct. -/
theorem publicTargets_return_iff_tape :
    (rounds plainMachine (.ofNat 64) 0 (genesisState plainGenesis [(⟨7⟩, 100), (⟨9⟩, 0)] [])
      [.Public (.inl (plainTransfer 7 0 9 30))]).Forall (RoundCorrect [⟨7⟩, ⟨9⟩]) :=
  List.forall_iff_forall_mem.mpr <|
    (publicTargets_return_iff plainGenesis plainArb byteTape plainGenesis_laws byteTape_doNotPanic
      rfl transferTape).1.mp ⟨_, rfl⟩ _ _ rfl _ _ rfl

end Targets

end LezFuzzing.Spec
