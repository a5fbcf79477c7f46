import LezFuzzing.Native.Invariants
import LezFuzzing.Spec.ReferenceMachine

/-!
# The per-transaction checks decide what they are named after

`assertTxExecutionInvariants` is a chain of early exits over two unordered maps. This
file says when it returns: for a rejected call exactly when `RejectionCorrect` holds,
for an accepted one exactly when `AcceptanceCorrect` does. Neither mentions an order,
so the order in which the snapshots are enumerated never decides the outcome.

## Key results

- `sumNativeBalances_eq_ok_iff`: a checked sum over a state is the mathematical one
- `assertTxExecutionInvariants_error_iff` / `assertTxExecutionInvariants_ok_iff`: when
  the dispatcher returns, and with which state
- `assertTxExecutionInvariants_returns_iff`: both cases, and order independence
-/

namespace LezFuzzing.Spec

open LezFuzzing.Native

/-! ## Sums of balances -/

section Sums

variable (M : Machine) (state : M.State)

/-- A balance as a natural number; a shard that does not decode counts zero. -/
def balanceNat (id : AccountId) : ℕ := ((M.balance state id).map BitVec.toNat).getD 0

/-- The mathematical sum of the balances of a list of accounts. -/
def totalNat (ids : List AccountId) : ℕ := (ids.map (balanceNat M state)).sum

variable {M state}

theorem balanceNat_of_balance {id : AccountId} {b : U128} (h : M.balance state id = some b) :
    balanceNat M state id = b.toNat := by
  rw [balanceNat, h]
  rfl

theorem nativeBalance_eq_ok_iff {id : AccountId} {b : U128} :
    nativeBalance M state id = .ok b ↔ M.balance state id = some b :=
  Except.expect_eq_ok_iff

/-- The loop from an arbitrary accumulator. -/
private theorem sumNativeBalances_go {ids : List AccountId} {overflow : Panic} (acc total : U128) :
    ids.foldlM (fun acc id => do
        let balance ← nativeBalance M state id
        Except.expect (acc.checkedAdd balance) overflow) acc = .ok total ↔
      (∀ id ∈ ids, (M.balance state id).isSome) ∧
        acc.toNat + totalNat M state ids = total.toNat := by
  induction ids generalizing acc with
  | nil => simp [totalNat, BitVec.toNat_inj]
  | cons id ids ih =>
    rw [List.foldlM_cons, Except.bind_eq_ok_iff, List.forall_mem_cons]
    cases hbal : M.balance state id with
    | none => simp [nativeBalance, hbal, Except.expect]
    | some b =>
      have hhead : nativeBalance M state id = .ok b := nativeBalance_eq_ok_iff.mpr hbal
      have htotal : totalNat M state (id :: ids) = b.toNat + totalNat M state ids := by
        rw [totalNat, List.map_cons, List.sum_cons, balanceNat_of_balance hbal, ← totalNat]
      simp only [hhead, Except.ok_bind, Except.expect_eq_ok_iff, BitVec.checkedAdd_eq_some_iff,
        Option.isSome_some, true_and, ih, htotal]
      constructor
      · intro h
        obtain ⟨acc', hacc', hdec, hsum⟩ := h
        exact ⟨hdec, by omega⟩
      · intro h
        obtain ⟨hdec, hsum⟩ := h
        -- the partial sum fits, since the final one does
        have hlt := total.isLt
        refine ⟨acc + b, ?_, hdec, ?_⟩ <;> rw [BitVec.toNat_add_of_lt (by omega)]
        omega

/-- A checked sum over a state succeeds exactly when every balance decodes, with the
    mathematical sum. -/
theorem sumNativeBalances_eq_ok_iff {ids : List AccountId} {overflow : Panic} {total : U128} :
    sumNativeBalances M state ids overflow = .ok total ↔
      (∀ id ∈ ids, (M.balance state id).isSome) ∧ totalNat M state ids = total.toNat := by
  rw [sumNativeBalances, sumNativeBalances_go]
  simp

/-- Two states with the same balances have the same total. -/
theorem totalNat_congr {state' : M.State} {ids : List AccountId}
    (h : ∀ id ∈ ids, M.balance state id = M.balance state' id) :
    totalNat M state ids = totalNat M state' ids := by
  have hmap : ids.map (balanceNat M state) = ids.map (balanceNat M state') :=
    List.map_congr_left fun id hid => by rw [balanceNat, balanceNat, h id hid]
  rw [totalNat, totalNat, hmap]

end Sums

/-- The mathematical sum of the recorded balances. -/
def snapshotTotal (snapshot : BalanceSnapshot) : ℕ :=
  (snapshot.balances.vals.map BitVec.toNat).sum

theorem BalanceSnapshot.total_eq_ok_iff {snapshot : BalanceSnapshot} {total : U128} :
    snapshot.total = .ok total ↔ snapshotTotal snapshot = total.toNat := by
  rw [BalanceSnapshot.total, Except.expect_eq_ok_iff, BitVec.checkedSum_eq_some_iff, snapshotTotal]

/-! ## Snapshots of a list of accounts -/

section Snapshots

variable {M : Machine} {state : M.State} {ids : List AccountId}

/-- The snapshot of a state in which every listed balance decodes. -/
def recordedBalances (M : Machine) (state : M.State) (ids : List AccountId) : BalanceSnapshot :=
  ⟨AList.ofPairs (ids.map fun id => (id, (M.balance state id).getD 0))⟩

/-- Taking a snapshot fails only on a balance that does not decode. -/
theorem balanceSnapshot_eq_ok_iff {snapshot : BalanceSnapshot} :
    balanceSnapshot M state ids = .ok snapshot ↔
      (∀ id ∈ ids, (M.balance state id).isSome) ∧ snapshot = recordedBalances M state ids := by
  -- one element of the collecting loop
  have hread : ∀ (id : AccountId) (entry : AccountId × U128),
      (nativeBalance M state id >>= fun balance => .ok (id, balance)) = .ok entry ↔
        (M.balance state id).isSome ∧ entry = (id, (M.balance state id).getD 0) := by
    intro id entry
    cases hbal : M.balance state id with
    | none => simp [nativeBalance, hbal, Except.expect]
    | some b => simp [nativeBalance, hbal, eq_comm]
  rw [balanceSnapshot, Except.bind_eq_ok_iff]
  constructor
  · intro h
    obtain ⟨entries, hentries, h⟩ := h
    obtain ⟨hdec, rfl⟩ := (Except.mapM_eq_ok_iff_map hread).mp hentries
    exact ⟨hdec, (Except.ok.inj h).symm⟩
  · intro h
    obtain ⟨hdec, hsnap⟩ := h
    exact ⟨_, (Except.mapM_eq_ok_iff_map hread).mpr ⟨hdec, rfl⟩, congrArg Except.ok hsnap.symm⟩

theorem lookup_recordedBalances (id : AccountId) :
    (recordedBalances M state ids).balances.lookup id =
      if id ∈ ids then some ((M.balance state id).getD 0) else none :=
  AList.lookup_ofPairs_map ids _ id

theorem lookup_nonceSnapshot (id : AccountId) :
    (nonceSnapshot M state ids).nonces.lookup id =
      if id ∈ ids then some (M.nonce state id) else none :=
  AList.lookup_ofPairs_map ids _ id

/-- The keys of a snapshot are the listed accounts, each once. -/
theorem keys_recordedBalances_perm (hnd : ids.Nodup) :
    (recordedBalances M state ids).balances.keys.Perm ids := by
  have h := (AList.entries_ofPairs_map_perm hnd fun id => (M.balance state id).getD 0).map Sigma.fst
  rw [List.map_map] at h
  exact h.trans (List.Perm.of_eq (List.map_id' ids))

/-- A snapshot of distinct accounts sums up to the total of the state. -/
theorem snapshotTotal_recordedBalances (hnd : ids.Nodup) :
    snapshotTotal (recordedBalances M state ids) = totalNat M state ids := by
  have h := (AList.entries_ofPairs_map_perm hnd fun id => (M.balance state id).getD 0).map
    fun entry => entry.2.toNat
  have hbalance : ∀ id, ((M.balance state id).getD 0).toNat = balanceNat M state id := by
    intro id
    cases hbal : M.balance state id <;> simp [balanceNat, hbal]
  rw [snapshotTotal, AList.vals, List.map_map, totalNat,
    ← List.map_congr_left fun id _ => hbalance id]
  rw [List.map_map] at h
  exact h.sum_eq

/-- Summing a later state over the keys of a snapshot sums it over the listed accounts. -/
theorem totalNat_keys (hnd : ids.Nodup) (state' : M.State) :
    totalNat M state' (recordedBalances M state ids).balances.keys = totalNat M state' ids :=
  ((keys_recordedBalances_perm hnd).map _).sum_eq

end Snapshots

/-! ## What the checks stand for -/

variable {M : Machine}

/-- A rejected call left every recorded account as it was. -/
structure RejectionCorrect (M : Machine) (stateAfter : M.State) (balancesBefore : BalanceSnapshot)
    (noncesBefore : NonceSnapshot) : Prop where
  balance : ∀ id b, balancesBefore.balances.lookup id = some b → M.balance stateAfter id = some b
  nonce : ∀ id n, noncesBefore.nonces.lookup id = some n → M.nonce stateAfter id = n

/-- An accepted call conserved the recorded total, incremented the nonce of every
    recorded signer, and cannot be repeated. -/
structure AcceptanceCorrect (M : Machine) (stateAfter : M.State) (balancesBefore : BalanceSnapshot)
    (noncesBefore : NonceSnapshot) (appliedTx : M.Tx) (replayContext : U64 × U64) : Prop where
  decodes : ∀ id ∈ balancesBefore.balances, (M.balance stateAfter id).isSome
  fits_before : snapshotTotal balancesBefore < 2 ^ 128
  fits_after : totalNat M stateAfter balancesBefore.balances.keys < 2 ^ 128
  conserved : snapshotTotal balancesBefore = totalNat M stateAfter balancesBefore.balances.keys
  incremented : ∀ id ∈ signerAccountIds M appliedTx, ∀ n, noncesBefore.nonces.lookup id = some n →
    n.toNat < 2 ^ 128 - 1 ∧ (M.nonce stateAfter id).toNat = n.toNat + 1
  replay_rejected :
    (M.executeCheckOnState appliedTx stateAfter replayContext.1 replayContext.2).1.isOk = false

/-! ## The registered invariants -/

/-- Both isolation checks search a map for an entry the state disagrees with. -/
private theorem search_eq_ok_none_iff {β : Type} [DecidableEq β] (map : HashMap AccountId β)
    (read : AccountId → Except Panic β) (violation : AccountId → β → β → InvariantViolation) :
    (map.entries.findSomeM? fun e => read e.1 >>= fun actual =>
      if actual ≠ e.2 then pure (some (violation e.1 e.2 actual)) else pure none) = .ok none ↔
    ∀ id b, map.lookup id = some b → read id = .ok b := by
  have hkeys := AList.forall_entries_iff (m := map) (P := fun id b => read id = .ok b)
  rw [← hkeys, Except.findSomeM?_eq_ok_none_iff]
  refine forall₂_congr fun e _ => ?_
  rw [Except.bind_eq_ok_iff]
  constructor
  · intro h
    obtain ⟨actual, hactual, h⟩ := h
    split at h
    · simp at h
    · rename_i heq
      rw [hactual, not_not.mp heq]
  · intro h
    exact ⟨e.2, h, by simp⟩

section Registered

variable {ctx : InvariantCtx M}

theorem stateIsolationOnFailure_iff (hfail : ctx.executionSucceeded = false) :
    (StateIsolationOnFailure M).check ctx = .ok none ↔
      ∀ id b, ctx.balancesBefore.balances.lookup id = some b →
        M.balance ctx.stateAfter id = some b := by
  simp only [StateIsolationOnFailure, hfail, Bool.not_false, ↓reduceIte,
    ← nativeBalance_eq_ok_iff]
  exact search_eq_ok_none_iff _ (nativeBalance M ctx.stateAfter) balanceChanged

theorem failedTxNonceStability_iff (hfail : ctx.executionSucceeded = false) :
    (FailedTxNonceStability M).check ctx = .ok none ↔
      ∀ id n, ctx.noncesBefore.nonces.lookup id = some n → M.nonce ctx.stateAfter id = n := by
  have h := search_eq_ok_none_iff ctx.noncesBefore.nonces
    (fun id => .ok (M.nonce ctx.stateAfter id)) nonceChanged
  simp only [Except.ok.injEq] at h
  rw [← h]
  simp only [FailedTxNonceStability, hfail, Bool.not_false, ↓reduceIte]
  exact Iff.rfl

private theorem balanceConservation_iff (hsucc : ctx.executionSucceeded = true) :
    (BalanceConservation M).check ctx = .ok none ↔
      (∀ id ∈ ctx.balancesBefore.balances, (M.balance ctx.stateAfter id).isSome) ∧
        snapshotTotal ctx.balancesBefore < 2 ^ 128 ∧
        snapshotTotal ctx.balancesBefore =
          totalNat M ctx.stateAfter ctx.balancesBefore.balances.keys := by
  simp only [BalanceConservation, hsucc, ↓reduceIte]
  rw [Except.bind_eq_ok_iff]
  constructor
  · intro h
    obtain ⟨before, hbefore, h⟩ := h
    obtain ⟨after, hafter, h⟩ := Except.bind_eq_ok_iff.mp h
    obtain ⟨hdec, hsum⟩ := sumNativeBalances_eq_ok_iff.mp hafter
    rw [BalanceSnapshot.total_eq_ok_iff] at hbefore
    split at h
    · simp at h
    · rename_i heq
      have hlt := before.isLt
      rw [not_not.mp heq] at hbefore
      exact ⟨fun id hid => hdec id hid, by omega, by omega⟩
  · intro h
    obtain ⟨hdec, hfit, hsum⟩ := h
    -- both sums are the one total that fits
    obtain ⟨total, htotal⟩ := BitVec.exists_toNat_eq hfit
    refine ⟨total, BalanceSnapshot.total_eq_ok_iff.mpr htotal, ?_⟩
    rw [Except.bind_eq_ok_iff]
    exact ⟨total, sumNativeBalances_eq_ok_iff.mpr ⟨hdec, hsum.symm.trans htotal⟩, by simp⟩

/-- The dispatcher goes through when no registered invariant finds anything. -/
private theorem assertInvariants_iff :
    assertInvariants M ctx = .ok () ↔ (StateIsolationOnFailure M).check ctx = .ok none ∧
      (BalanceConservation M).check ctx = .ok none ∧
      (FailedTxNonceStability M).check ctx = .ok none := by
  have hall : assertInvariants M ctx = .ok () ↔ ∀ inv ∈ invariants M, inv.check ctx = .ok none := by
    rw [assertInvariants, Except.forM_eq_ok_iff]
    refine forall₂_congr fun inv _ => ?_
    rw [Except.bind_eq_ok_iff]
    constructor
    · intro h
      obtain ⟨found, hcheck, h⟩ := h
      cases found with
      | none => exact hcheck
      | some violation => simp at h
    · intro h
      exact ⟨none, h, rfl⟩
  rw [hall]
  simp [invariants]

/-- On rejection the registered invariants are the two isolation checks. -/
theorem assertInvariants_rejected_iff (hfail : ctx.executionSucceeded = false) :
    assertInvariants M ctx = .ok () ↔
      RejectionCorrect M ctx.stateAfter ctx.balancesBefore ctx.noncesBefore := by
  have hconserv : (BalanceConservation M).check ctx = .ok none := by
    simp [BalanceConservation, hfail]
  rw [assertInvariants_iff, stateIsolationOnFailure_iff hfail, failedTxNonceStability_iff hfail]
  exact ⟨fun ⟨hbal, _, hnonce⟩ => ⟨hbal, hnonce⟩, fun h => ⟨h.balance, hconserv, h.nonce⟩⟩

/-- On success only the conservation check is active. -/
theorem assertInvariants_accepted_iff (hsucc : ctx.executionSucceeded = true) :
    assertInvariants M ctx = .ok () ↔
      (∀ id ∈ ctx.balancesBefore.balances, (M.balance ctx.stateAfter id).isSome) ∧
        snapshotTotal ctx.balancesBefore < 2 ^ 128 ∧
        snapshotTotal ctx.balancesBefore =
          totalNat M ctx.stateAfter ctx.balancesBefore.balances.keys := by
  have hisolation : (StateIsolationOnFailure M).check ctx = .ok none := by
    simp [StateIsolationOnFailure, hsucc]
  have hstability : (FailedTxNonceStability M).check ctx = .ok none := by
    simp [FailedTxNonceStability, hsucc]
  rw [assertInvariants_iff, balanceConservation_iff hsucc]
  exact ⟨fun ⟨_, hconserv, _⟩ => hconserv, fun hconserv => ⟨hisolation, hconserv, hstability⟩⟩

end Registered

/-! ## The two standalone checks -/

/-- The nonce helper skips signers that the snapshot does not know. -/
theorem assertNonceIncrementCorrectness_iff {signerIds : List AccountId}
    {noncesBefore : NonceSnapshot} {stateAfter : M.State} :
    assertNonceIncrementCorrectness M signerIds noncesBefore stateAfter = .ok () ↔
      ∀ id ∈ signerIds, ∀ n, noncesBefore.nonces.lookup id = some n →
        n.toNat < 2 ^ 128 - 1 ∧ (M.nonce stateAfter id).toNat = n.toNat + 1 := by
  rw [assertNonceIncrementCorrectness, Except.forM_eq_ok_iff]
  refine forall₂_congr fun id _ => ?_
  cases hlook : noncesBefore.nonces.lookup id with
  | none => simp
  | some n =>
    simp only [Except.bind_eq_ok_iff, Except.expect_eq_ok_iff, Except.assert_eq_ok_iff,
      BitVec.checkedAdd_eq_some_iff, Option.some.injEq, forall_eq']
    have hone : (1 : U128).toNat = 1 := rfl
    constructor
    · intro h
      obtain ⟨expected, hexpected, heq⟩ := h
      have hlt := expected.isLt
      rw [heq]
      omega
    · intro h
      obtain ⟨hlt, heq⟩ := h
      exact ⟨M.nonce stateAfter id, by omega, rfl⟩

/-- The replay check returns the state the rejected replay leaves behind. -/
theorem assertReplayRejection_eq_ok_iff {appliedTx : M.Tx} {state state' : M.State}
    {blockId timestamp : U64} :
    assertReplayRejection M appliedTx state blockId timestamp = .ok state' ↔
      (M.executeCheckOnState appliedTx state blockId timestamp).1.isOk = false ∧
        state' = (M.executeCheckOnState appliedTx state blockId timestamp).2 := by
  rw [assertReplayRejection, Except.bind_eq_ok_iff]
  constructor
  · intro h
    obtain ⟨_, hassert, h⟩ := h
    exact ⟨Except.assert_eq_ok_iff.mp hassert, (Except.ok.inj h).symm⟩
  · intro h
    obtain ⟨hrej, h⟩ := h
    exact ⟨(), Except.assert_eq_ok_iff.mpr hrej, congrArg Except.ok h.symm⟩

/-! ## The dispatcher -/

section Dispatcher

variable {stateBefore stateAfter state' : M.State} {balancesBefore : BalanceSnapshot}
  {noncesBefore : NonceSnapshot} {replayContext : U64 × U64}

/-- A rejected call passes exactly when it was isolated; the state stays. -/
theorem assertTxExecutionInvariants_error_iff {E : Type} {e : E} :
    assertTxExecutionInvariants M stateBefore stateAfter balancesBefore noncesBefore (.error e)
        replayContext = .ok state' ↔
      RejectionCorrect M stateAfter balancesBefore noncesBefore ∧ state' = stateAfter := by
  rw [assertTxExecutionInvariants, Except.bind_eq_ok_iff]
  constructor
  · intro h
    obtain ⟨_, hinv, h⟩ := h
    exact ⟨(assertInvariants_rejected_iff rfl).mp hinv, (Except.ok.inj h).symm⟩
  · intro h
    obtain ⟨hrej, h⟩ := h
    exact ⟨(), (assertInvariants_rejected_iff rfl).mpr hrej, congrArg Except.ok h.symm⟩

/-- An accepted call passes exactly when it was correct; the state is the one its
    replay leaves behind. -/
theorem assertTxExecutionInvariants_ok_iff {E : Type} {appliedTx : M.Tx} :
    assertTxExecutionInvariants M (E := E) stateBefore stateAfter balancesBefore noncesBefore
        (.ok appliedTx) replayContext = .ok state' ↔
      AcceptanceCorrect M stateAfter balancesBefore noncesBefore appliedTx replayContext ∧
        state' = (M.executeCheckOnState appliedTx stateAfter
          replayContext.1 replayContext.2).2 := by
  rw [assertTxExecutionInvariants, Except.bind_eq_ok_iff]
  constructor
  · intro h
    obtain ⟨_, hinv, h⟩ := h
    obtain ⟨_, hnonce, hreplay⟩ := Except.bind_eq_ok_iff.mp h
    obtain ⟨hdec, hfit, hsum⟩ := (assertInvariants_accepted_iff rfl).mp hinv
    obtain ⟨hrejected, hstate⟩ := assertReplayRejection_eq_ok_iff.mp hreplay
    exact ⟨⟨hdec, hfit, hsum ▸ hfit, hsum,
      assertNonceIncrementCorrectness_iff.mp hnonce, hrejected⟩, hstate⟩
  · intro h
    obtain ⟨hacc, hstate⟩ := h
    refine ⟨(), (assertInvariants_accepted_iff rfl).mpr ?_,
      Except.bind_eq_ok_iff.mpr ⟨(), ?_, ?_⟩⟩
    · exact ⟨hacc.decodes, hacc.fits_before, hacc.conserved⟩
    · exact assertNonceIncrementCorrectness_iff.mpr hacc.incremented
    · exact assertReplayRejection_eq_ok_iff.mpr ⟨hacc.replay_rejected, hstate⟩

/-- Enumerating the snapshots in another order states the same rejection property. -/
private theorem RejectionCorrect.perm {balances' : BalanceSnapshot} {nonces' : NonceSnapshot}
    (hbal : balancesBefore.balances.entries.Perm balances'.balances.entries)
    (hnonce : noncesBefore.nonces.entries.Perm nonces'.nonces.entries)
    (h : RejectionCorrect M stateAfter balancesBefore noncesBefore) :
    RejectionCorrect M stateAfter balances' nonces' where
  balance id b hb := h.balance id b (by rwa [AList.perm_lookup hbal])
  nonce id n hn := h.nonce id n (by rwa [AList.perm_lookup hnonce])

/-- Enumerating the snapshots in another order states the same acceptance property. -/
private theorem AcceptanceCorrect.perm {balances' : BalanceSnapshot} {nonces' : NonceSnapshot}
    {appliedTx : M.Tx}
    (hbal : balancesBefore.balances.entries.Perm balances'.balances.entries)
    (hnonce : noncesBefore.nonces.entries.Perm nonces'.nonces.entries)
    (h : AcceptanceCorrect M stateAfter balancesBefore noncesBefore appliedTx replayContext) :
    AcceptanceCorrect M stateAfter balances' nonces' appliedTx replayContext := by
  have hkeys : balancesBefore.balances.keys.Perm balances'.balances.keys := hbal.map Sigma.fst
  have hbefore : snapshotTotal balancesBefore = snapshotTotal balances' :=
    ((AList.vals_perm hbal).map BitVec.toNat).sum_eq
  have hafter : totalNat M stateAfter balancesBefore.balances.keys =
      totalNat M stateAfter balances'.balances.keys := (hkeys.map _).sum_eq
  exact {
    decodes := fun id hid => h.decodes id (hkeys.mem_iff.mpr hid)
    fits_before := hbefore ▸ h.fits_before
    fits_after := hafter ▸ h.fits_after
    conserved := by rw [← hbefore, ← hafter, h.conserved]
    incremented := fun id hid n hn => h.incremented id hid n (by rwa [AList.perm_lookup hnonce])
    replay_rejected := h.replay_rejected }

/-- The dispatcher returns exactly when the outcome of the call was correct: isolated
    if it was rejected, and conserving, incrementing and unrepeatable if it was accepted.
    The order in which the snapshots are enumerated plays no part. -/
theorem assertTxExecutionInvariants_returns_iff (M : Machine) {E : Type}
    (stateBefore stateAfter : M.State) (balancesBefore : BalanceSnapshot)
    (noncesBefore : NonceSnapshot) (executionResult : Except E M.Tx) (replayContext : U64 × U64) :
    ((assertTxExecutionInvariants M stateBefore stateAfter balancesBefore noncesBefore
        executionResult replayContext).Returns ↔
      match executionResult with
      | .error _ => RejectionCorrect M stateAfter balancesBefore noncesBefore
      | .ok appliedTx =>
        AcceptanceCorrect M stateAfter balancesBefore noncesBefore appliedTx replayContext) ∧
    ∀ (balances' : BalanceSnapshot) (nonces' : NonceSnapshot),
      balancesBefore.balances.entries.Perm balances'.balances.entries →
      noncesBefore.nonces.entries.Perm nonces'.nonces.entries →
      ((assertTxExecutionInvariants M stateBefore stateAfter balances' nonces'
          executionResult replayContext).Returns ↔
        (assertTxExecutionInvariants M stateBefore stateAfter balancesBefore noncesBefore
          executionResult replayContext).Returns) := by
  -- the first part, for any pair of snapshots
  have hiff : ∀ (balances : BalanceSnapshot) (nonces : NonceSnapshot),
      (assertTxExecutionInvariants M stateBefore stateAfter balances nonces
        executionResult replayContext).Returns ↔
      match executionResult with
      | .error _ => RejectionCorrect M stateAfter balances nonces
      | .ok appliedTx =>
        AcceptanceCorrect M stateAfter balances nonces appliedTx replayContext := by
    intro balances nonces
    cases executionResult with
    | error e =>
      exact ⟨fun ⟨_, h⟩ => (assertTxExecutionInvariants_error_iff.mp h).1,
        fun h => ⟨_, assertTxExecutionInvariants_error_iff.mpr ⟨h, rfl⟩⟩⟩
    | ok appliedTx =>
      exact ⟨fun ⟨_, h⟩ => (assertTxExecutionInvariants_ok_iff.mp h).1,
        fun h => ⟨_, assertTxExecutionInvariants_ok_iff.mpr ⟨h, rfl⟩⟩⟩
  refine ⟨hiff balancesBefore noncesBefore, fun balances' nonces' hbal hnonce => ?_⟩
  rw [hiff, hiff]
  cases executionResult with
  | error e =>
    exact ⟨RejectionCorrect.perm hbal.symm hnonce.symm, RejectionCorrect.perm hbal hnonce⟩
  | ok appliedTx =>
    exact ⟨AcceptanceCorrect.perm hbal.symm hnonce.symm, AcceptanceCorrect.perm hbal hnonce⟩

/-- A booked transfer passes, whichever of its two accounts is enumerated first. -/
theorem assertTxExecutionInvariants_returns_transfer :
    let before := ReferenceState.genesis [(⟨1⟩, 10), (⟨2⟩, 3)]
    let tx := plainTransfer 1 0 2 4
    (assertTxExecutionInvariants plainMachine (E := Unit) before (tx.settle before)
      ⟨AList.ofPairs [(⟨2⟩, 3), (⟨1⟩, 10)]⟩ ⟨AList.ofPairs [(⟨2⟩, 0), (⟨1⟩, 0)]⟩
      (.ok (.Public (.inl tx))) (2, 1)).Returns :=
  ((assertTxExecutionInvariants_returns_iff plainMachine _ _
    ⟨AList.ofPairs [(⟨1⟩, 10), (⟨2⟩, 3)]⟩ ⟨AList.ofPairs [(⟨1⟩, 0), (⟨2⟩, 0)]⟩ _ _).2
    _ _ (by decide) (by decide)).mpr ⟨_, rfl⟩

end Dispatcher

end LezFuzzing.Spec
