import LezFuzzing.Native.PrivacyStateTransition
import LezFuzzing.Spec.BlockSequenceCorrect
import LezFuzzing.Spec.HarnessCorrect
import LezFuzzing.Spec.PublicEffectsCorrect

/-!
# What a run of the privacy-preserving target has checked

The target looks at one call after the other: the first attempt of each drawn transaction
and the replay of each accepted one. Its effect oracle stops at the first effect that is not
native, and has then folded the native effects in front of it into the balance; an action
without such an effect must have left exactly the account that the fold predicts.

## Key results

- `assertPublicEffectsApplied_eq_ok_iff_applied`: the effect oracle on any effects
- `applyPrivacyPreserving_eq_ok_iff`: one iteration
- `fuzzPrivacyPreservingStateTransition_returns_iff`: a run, from the bytes on
-/

namespace LezFuzzing.Spec

open LezFuzzing.Native

/-! ## The effect oracle on any effects -/

section Oracle

variable {M : Machine} (T : NativeToken M)

/-- An effect of the native-token program on the native shard, whether it decodes or not. -/
def Addressed (effect : DeferredPublicEffect) : Prop :=
  effect.programAccountId = T.nativeTokenProgramId ∧
    effect.shardProgramAccountId = T.nativeTokenProgramId

instance (effect : DeferredPublicEffect) : Decidable (Addressed T effect) :=
  inferInstanceAs (Decidable (_ ∧ _))

/-- The effects in front of the first one that is not native. -/
def nativeFront (effects : List DeferredPublicEffect) : List DeferredPublicEffect :=
  effects.takeWhile fun effect => decide (Addressed T effect)

/-- Decode effects and apply them to a balance, first to last. -/
def foldNative (effects : List DeferredPublicEffect) (balance : U128) : Option U128 :=
  effects.foldlM (fun balance effect =>
    (T.effectFromSlice effect.data).bind fun native => native.checkedApply balance) balance

/-- What the oracle asserts about an action: its native front goes through, and without any
    other effect its owner's account is the pre-state with the result written back. -/
def ActionApplied (before after : M.State) (signerIds : List AccountId)
    (action : PublicActionWithID) : Prop :=
  ∃ balance balance', M.balance before action.accountId = some balance ∧
    foldNative T (nativeFront T action.effects) balance = some balance' ∧
    ((∀ effect ∈ action.effects, Addressed T effect) →
      M.getAccountById after action.accountId = bumped T signerIds action.accountId
        (writeBack T action.effects (M.getAccountById before action.accountId) balance'))

variable {T} {effects : List DeferredPublicEffect}

@[simp] theorem nativeFront_cons_of_addressed {effect : DeferredPublicEffect}
    (h : Addressed T effect) :
    nativeFront T (effect :: effects) = effect :: nativeFront T effects :=
  List.takeWhile_cons_of_pos (by simpa using h)

@[simp] theorem nativeFront_cons_of_not {effect : DeferredPublicEffect} (h : ¬ Addressed T effect) :
    nativeFront T (effect :: effects) = [] :=
  List.takeWhile_cons_of_neg (by simpa using h)

/-- The oracle's fold goes through the native front, and returns a balance only if that
    is everything. -/
theorem foldEffects_eq_ok_iff {balance : U128} {result : Option U128} :
    foldEffects T balance effects = .ok result ↔
      ∃ balance', foldNative T (nativeFront T effects) balance = some balance' ∧
        result = if ∀ effect ∈ effects, Addressed T effect then some balance' else none := by
  induction effects generalizing balance with
  | nil =>
    constructor
    · intro h
      refine ⟨balance, rfl, ?_⟩
      rw [if_pos (List.forall_mem_nil _)]
      exact (Except.ok.inj h).symm
    · rintro ⟨balance', hfold, rfl⟩
      obtain rfl := Option.some.inj hfold
      rw [if_pos (List.forall_mem_nil _)]
      rfl
  | cons effect effects ih =>
    by_cases haddr : Addressed T effect
    · have hskip : ¬ (effect.programAccountId ≠ T.nativeTokenProgramId ∨
          effect.shardProgramAccountId ≠ T.nativeTokenProgramId) := by
        rw [haddr.1, haddr.2]
        simp
      rw [foldEffects, if_neg hskip, nativeFront_cons_of_addressed haddr, foldNative,
        List.foldlM_cons]
      simp only [List.forall_mem_cons, haddr, true_and, Except.bind_eq_ok_iff,
        Except.expect_eq_ok_iff, ih, Option.bind_eq_bind, Option.bind_eq_some_iff]
      constructor
      · rintro ⟨native, hdecode, mid, happly, balance', hrest, hresult⟩
        exact ⟨balance', ⟨mid, ⟨native, hdecode, happly⟩, hrest⟩, hresult⟩
      · rintro ⟨balance', ⟨mid, ⟨native, hdecode, happly⟩, hrest⟩, hresult⟩
        exact ⟨native, hdecode, mid, happly, balance', hrest, hresult⟩
    · have hskip : effect.programAccountId ≠ T.nativeTokenProgramId ∨
          effect.shardProgramAccountId ≠ T.nativeTokenProgramId := not_and_or.mp haddr
      have hforeign : ¬ ∀ e ∈ effect :: effects, Addressed T e := fun h =>
        haddr (h effect List.mem_cons_self)
      simp only [foldEffects, if_pos hskip, nativeFront_cons_of_not haddr, if_neg hforeign]
      constructor
      · intro h
        exact ⟨balance, rfl, (Except.ok.inj h).symm⟩
      · rintro ⟨_, _, rfl⟩
        rfl

variable {before after : M.State} {signerIds : List AccountId}

/-- The assertion on one action. -/
private theorem assertAction_eq_ok_iff_applied {action : PublicActionWithID} {e : Panic} :
    (expectedAccount T before signerIds action >>= fun expected =>
      match expected with
      | none => return ()
      | some expected =>
        Except.assert (M.getAccountById after action.accountId = expected) e) = .ok () ↔
      ActionApplied T before after signerIds action := by
  have hexpected : ∀ expected, expectedAccount T before signerIds action = .ok expected ↔
      ∃ balance balance', M.balance before action.accountId = some balance ∧
        foldNative T (nativeFront T action.effects) balance = some balance' ∧
        expected = if ∀ effect ∈ action.effects, Addressed T effect then
          some (bumped T signerIds action.accountId
            (writeBack T action.effects (M.getAccountById before action.accountId) balance'))
          else none := by
    intro expected
    simp only [expectedAccount, Except.bind_eq_ok_iff, nativeBalance_eq_ok_iff,
      foldEffects_eq_ok_iff]
    constructor
    · rintro ⟨balance, hbalance, _, ⟨balance', hfold, rfl⟩, hrest⟩
      refine ⟨balance, balance', hbalance, hfold, ?_⟩
      split at hrest
      · rename_i hnone
        have hfront : ¬ ∀ effect ∈ action.effects, Addressed T effect := fun hfront => by
          rw [if_pos hfront] at hnone
          exact Option.some_ne_none _ hnone
        rw [if_neg hfront]
        exact (Except.ok.inj hrest).symm
      · rename_i written hsome
        have hfront : ∀ effect ∈ action.effects, Addressed T effect := by
          by_contra hfront
          rw [if_neg hfront] at hsome
          exact Option.some_ne_none _ hsome.symm
        rw [if_pos hfront, Option.some.injEq] at hsome
        rw [if_pos hfront, ← Except.ok.inj hrest, hsome]
        simp only [bumped, bumpNonce, writeBack, List.contains_iff_mem]
    · rintro ⟨balance, balance', hbalance, hfold, rfl⟩
      refine ⟨balance, hbalance, _, ⟨balance', hfold, rfl⟩, ?_⟩
      by_cases hfront : ∀ effect ∈ action.effects, Addressed T effect
      · simp only [if_pos hfront, bumped, bumpNonce, writeBack, List.contains_iff_mem,
          Except.pure_eq_ok]
      · simp only [if_neg hfront, Except.pure_eq_ok]
  rw [Except.bind_eq_ok_iff, ActionApplied]
  simp only [hexpected]
  constructor
  · rintro ⟨_, ⟨balance, balance', hbalance, hfold, rfl⟩, hassert⟩
    refine ⟨balance, balance', hbalance, hfold, fun hfront => ?_⟩
    rw [if_pos hfront] at hassert
    exact Except.assert_eq_ok_iff.mp hassert
  · rintro ⟨balance, balance', hbalance, hfold, hsettled⟩
    refine ⟨_, ⟨balance, balance', hbalance, hfold, rfl⟩, ?_⟩
    by_cases hfront : ∀ effect ∈ action.effects, Addressed T effect
    · rw [if_pos hfront]
      exact Except.assert_eq_ok_iff.mpr (hsettled hfront)
    · rw [if_neg hfront]
      rfl

/-- The effect oracle passes exactly when it does on each action, whatever its effects. -/
theorem assertPublicEffectsApplied_eq_ok_iff_applied {publicActions : List PublicActionWithID}
    {u : Unit} :
    assertPublicEffectsApplied T before after signerIds publicActions = .ok u ↔
      ∀ action ∈ publicActions, ActionApplied T before after signerIds action := by
  rw [assertPublicEffectsApplied, Except.forM_eq_ok_iff]
  exact forall₂_congr fun action _ => assertAction_eq_ok_iff_applied

end Oracle

/-! ## One iteration -/

section Round

variable {M : Machine} {P : PrivacyCrates M}

/-- The signers of a privacy-preserving transaction. -/
abbrev privacySigners (M : Machine) (tx : M.PrivacyPreservingTransaction) : List AccountId :=
  signerAccountIds M (.PrivacyPreserving tx)

/-- The accounts the target looks at around a transaction. -/
def trackedIds (T : PrivacyTarget P) (initIds : List AccountId)
    (tx : M.PrivacyPreservingTransaction) : List AccountId :=
  trackedAccounts initIds (privacySigners M tx) (T.publicAccountIds (T.message tx))

/-- What the target establishes about the round of a transaction. -/
structure PrivacyRoundCorrect (T : PrivacyTarget P) (initIds : List AccountId)
    (tx : M.PrivacyPreservingTransaction) (r : Round M) : Prop where
  decodes : ∀ attempt ∈ r.attempt, ∀ id ∈ trackedIds T initIds tx,
    (M.balance attempt.before id).isSome
  rejected : ∀ attempt ∈ r.attempt, attempt.Rejected →
    attempt.Isolated (trackedIds T initIds tx) ∧
      P.commitmentSetDigest attempt.after = P.commitmentSetDigest attempt.before
  inserted : ∀ attempt ∈ r.attempt, ¬ attempt.Rejected →
    ∀ commitment ∈ T.commitments (T.message tx),
      (T.getProofForCommitment attempt.after commitment).isSome
  incremented : ∀ attempt ∈ r.attempt, ¬ attempt.Rejected → ∀ id ∈ privacySigners M tx,
    (M.nonce attempt.after id).toNat = (M.nonce attempt.before id).toNat + 1
  applied : ∀ attempt ∈ r.attempt, ¬ attempt.Rejected →
    ∀ action ∈ (T.message tx).publicActions,
      ActionApplied T.toNativeToken attempt.before attempt.after (privacySigners M tx) action
  replay : ∀ replay ∈ r.replay, replay.Rejected

variable {T : PrivacyTarget P} {initIds : List AccountId} {initAccs : List (AccountId × U128)}
  {tx : M.PrivacyPreservingTransaction} {attempt : Call M} {after : M.State}

/-- One dispatched rule passes exactly when it finds nothing. -/
theorem assertInvariant_eq_ok_iff {inv : ProtocolInvariant M} {ctx : InvariantCtx M} {u : Unit} :
    assertInvariant inv ctx = .ok u ↔ inv.check ctx = .ok none := by
  rw [assertInvariant, Except.bind_eq_ok_iff]
  constructor
  · rintro ⟨_ | violation, hcheck, h⟩
    · exact hcheck
    · exact nomatch h
  · intro hcheck
    exact ⟨none, hcheck, rfl⟩

/-- Matching the snapshots taken before a call is isolation. -/
theorem rejectionCorrect_recorded_iff {call : Call M} {ids : List AccountId}
    (hdec : ∀ id ∈ ids, (M.balance call.before id).isSome) :
    RejectionCorrect M call.after (recordedBalances M call.before ids)
      (nonceSnapshot M call.before ids) ↔ call.Isolated ids := by
  refine ⟨RejectionCorrect.isolated hdec, fun h => ⟨fun id b hlook => ?_, fun id n hlook => ?_⟩⟩
  · rw [lookup_recordedBalances] at hlook
    split at hlook
    · rename_i hid
      obtain ⟨balance, hbalance⟩ := Option.isSome_iff_exists.mp (hdec id hid)
      rw [hbalance, Option.getD_some, Option.some.injEq] at hlook
      rw [(h id hid).1, hbalance, hlook]
    · exact nomatch hlook
  · rw [lookup_nonceSnapshot] at hlook
    split at hlook
    · rename_i hid
      rw [(h id hid).2]
      exact Option.some.inj hlook
    · exact nomatch hlook

/-- The checks on a rejected call. -/
theorem assertRejected_of_rejected {ctx : InvariantCtx M} {digest : CommitmentSetDigest} {u : Unit}
    (hfail : ctx.executionSucceeded = false) :
    assertRejected (P := P) ctx digest = .ok u ↔
      RejectionCorrect M ctx.stateAfter ctx.balancesBefore ctx.noncesBefore ∧
        P.commitmentSetDigest ctx.stateAfter = digest := by
  simp only [assertRejected, Except.bind_eq_ok_iff, assertInvariant_eq_ok_iff,
    stateIsolationOnFailure_iff hfail, failedTxNonceStability_iff hfail, hfail, Bool.not_false,
    ↓reduceIte, Except.assert_eq_ok_iff]
  constructor
  · rintro ⟨_, hbalance, _, hnonce, hdigest⟩
    exact ⟨⟨hbalance, hnonce⟩, hdigest⟩
  · rintro ⟨⟨hbalance, hnonce⟩, hdigest⟩
    exact ⟨(), hbalance, (), hnonce, hdigest⟩

/-- They pass over an accepted one. -/
theorem assertRejected_of_accepted {ctx : InvariantCtx M} {digest : CommitmentSetDigest}
    (hsucc : ctx.executionSucceeded = true) : assertRejected (P := P) ctx digest = .ok () := by
  have hisolation : (StateIsolationOnFailure M).check ctx = .ok none := by
    simp [StateIsolationOnFailure, hsucc]
  have hstability : (FailedTxNonceStability M).check ctx = .ok none := by
    simp [FailedTxNonceStability, hsucc]
  rw [assertRejected, (assertInvariant_eq_ok_iff (u := ())).mpr hisolation, Except.ok_bind,
    (assertInvariant_eq_ok_iff (u := ())).mpr hstability, Except.ok_bind, hsucc]
  rfl

/-- Every signer is tracked, so each of their nonces is compared. -/
private theorem assertNonce_signers_iff {state state' : M.State} {u : Unit} :
    assertNonceIncrementCorrectness M (privacySigners M tx)
        (nonceSnapshot M state (trackedIds T initIds tx)) state' = .ok u ↔
      ∀ id ∈ privacySigners M tx, (M.nonce state' id).toNat = (M.nonce state id).toNat + 1 := by
  rw [assertNonceIncrementCorrectness_iff]
  refine forall₂_congr fun id hid => ?_
  have htracked : id ∈ trackedIds T initIds tx := mem_trackedAccounts_iff.mpr (.inr (.inl hid))
  rw [lookup_nonceSnapshot, if_pos htracked]
  have hlt := (M.nonce state' id).isLt
  constructor
  · intro h
    exact (h _ rfl).2
  · rintro h n hn
    obtain rfl := Option.some.inj hn
    exact ⟨by omega, h⟩

/-- The checks on an accepted call. -/
private theorem accepted_checks_iff {before after state' : M.State} {appliedTx : M.Tx}
    {blockId timestamp : U64} :
    (do
      assertCommitmentInsertion T after (T.commitments (T.message tx))
      assertNonceIncrementCorrectness M (privacySigners M tx)
        (nonceSnapshot M before (trackedIds T initIds tx)) after
      assertPublicEffectsApplied T.toNativeToken before after (privacySigners M tx)
        (T.message tx).publicActions
      assertReplayRejection M appliedTx after blockId timestamp) = .ok state' ↔
      (∀ commitment ∈ T.commitments (T.message tx),
        (T.getProofForCommitment after commitment).isSome) ∧
      (∀ id ∈ privacySigners M tx, (M.nonce after id).toNat = (M.nonce before id).toNat + 1) ∧
      (∀ action ∈ (T.message tx).publicActions,
        ActionApplied T.toNativeToken before after (privacySigners M tx) action) ∧
      (M.executeCheckOnState appliedTx after blockId timestamp).1.isOk = false ∧
      state' = (M.executeCheckOnState appliedTx after blockId timestamp).2 := by
  simp only [Except.bind_eq_ok_iff, assertNonce_signers_iff, assertCommitmentInsertion,
    Except.forM_eq_ok_iff, Except.assert_eq_ok_iff, assertPublicEffectsApplied_eq_ok_iff_applied,
    assertReplayRejection_eq_ok_iff]
  constructor
  · rintro ⟨_, hinserted, _, hnonce, _, happlied, hreplay⟩
    exact ⟨hinserted, hnonce, happlied, hreplay⟩
  · rintro ⟨hinserted, hnonce, happlied, hreplay⟩
    exact ⟨(), hinserted, (), hnonce, (), happlied, hreplay⟩

/-- The round that the `i`th transaction leads to. -/
def privacyRound (M : Machine) (i : ℕ) (state : M.State) (tx : M.PrivacyPreservingTransaction) :
    Round M :=
  round M (1 + .ofNat 64 i) (.ofNat 64 i) state (.PrivacyPreserving tx)

/-- A round whose first attempt was rejected. -/
theorem privacyRoundCorrect_rejected_iff (hrej : attempt.Rejected) :
    PrivacyRoundCorrect T initIds tx ⟨some attempt, none, after⟩ ↔
      (∀ id ∈ trackedIds T initIds tx, (M.balance attempt.before id).isSome) ∧
        attempt.Isolated (trackedIds T initIds tx) ∧
        P.commitmentSetDigest attempt.after = P.commitmentSetDigest attempt.before := by
  constructor
  · intro h
    exact ⟨h.decodes attempt rfl, h.rejected attempt rfl hrej⟩
  · rintro ⟨hdec, hisolated, hdigest⟩
    have hnone : ∀ a ∈ some attempt, ¬ a.Rejected → False := fun a ha hnot =>
      hnot (Option.mem_some.mp ha ▸ hrej)
    exact {
      decodes := fun a ha => Option.mem_some.mp ha ▸ hdec
      rejected := fun a ha _ => Option.mem_some.mp ha ▸ ⟨hisolated, hdigest⟩
      inserted := fun a ha hnot => (hnone a ha hnot).elim
      incremented := fun a ha hnot => (hnone a ha hnot).elim
      applied := fun a ha hnot => (hnone a ha hnot).elim
      replay := nofun }

/-- A round whose first attempt was accepted. -/
theorem privacyRoundCorrect_accepted_iff (hacc : ¬ attempt.Rejected) {replay : Call M} :
    PrivacyRoundCorrect T initIds tx ⟨some attempt, some replay, after⟩ ↔
      (∀ id ∈ trackedIds T initIds tx, (M.balance attempt.before id).isSome) ∧
      (∀ commitment ∈ T.commitments (T.message tx),
        (T.getProofForCommitment attempt.after commitment).isSome) ∧
      (∀ id ∈ privacySigners M tx,
        (M.nonce attempt.after id).toNat = (M.nonce attempt.before id).toNat + 1) ∧
      (∀ action ∈ (T.message tx).publicActions, ActionApplied T.toNativeToken attempt.before
        attempt.after (privacySigners M tx) action) ∧
      replay.Rejected := by
  constructor
  · intro h
    exact ⟨h.decodes attempt rfl, h.inserted attempt rfl hacc, h.incremented attempt rfl hacc,
      h.applied attempt rfl hacc, h.replay replay rfl⟩
  · rintro ⟨hdec, hinserted, hnonce, happlied, hreplay⟩
    exact {
      decodes := fun a ha => Option.mem_some.mp ha ▸ hdec
      rejected := fun a ha hrej => (hacc (Option.mem_some.mp ha ▸ hrej)).elim
      inserted := fun a ha _ => Option.mem_some.mp ha ▸ hinserted
      incremented := fun a ha _ => Option.mem_some.mp ha ▸ hnonce
      applied := fun a ha _ => Option.mem_some.mp ha ▸ happlied
      replay := fun a ha => Option.mem_some.mp ha ▸ hreplay }

/-- One iteration returns exactly when its round is correct. -/
theorem applyPrivacyPreserving_eq_ok_iff {i : ℕ} {state state' : M.State} :
    applyPrivacyPreserving T initAccs i state tx = .ok state' ↔
      PrivacyRoundCorrect T (initAccs.map Prod.fst) tx (privacyRound M i state tx) ∧
        state' = (privacyRound M i state tx).after := by
  unfold applyPrivacyPreserving privacyRound round
  cases M.transactionStatelessCheck (.PrivacyPreserving tx) with
  | error e =>
    have hcorrect : PrivacyRoundCorrect T (initAccs.map Prod.fst) tx
        (⟨none, none, state⟩ : Round M) := by
      constructor <;> exact fun _ h => absurd h (Option.not_mem_none _)
    simp [hcorrect, eq_comm]
  | ok leeTx =>
    -- the call itself, under a name the two cases of its result can rewrite
    obtain ⟨attempt, hattempt⟩ : ∃ attempt : Call M,
        attempt = ⟨leeTx, state, 1 + .ofNat 64 i, .ofNat 64 i⟩ := ⟨_, rfl⟩
    have hexec : M.executeCheckOnState leeTx state (1 + .ofNat 64 i) (.ofNat 64 i) =
        (attempt.result, attempt.after) := by rw [hattempt]; rfl
    have hbefore : state = attempt.before := by rw [hattempt]
    simp only [hexec, ← hattempt, Except.bind_eq_ok_iff, balanceSnapshot_eq_ok_iff]
    cases hresult : attempt.result with
    | error e =>
      have hrej : attempt.Rejected := by rw [Call.Rejected, hresult]; rfl
      rw [privacyRoundCorrect_rejected_iff hrej, ← hbefore]
      constructor
      · rintro ⟨_, ⟨hdec, rfl⟩, _, hchecks, hstate⟩
        obtain ⟨hrejected, hdigest⟩ := (assertRejected_of_rejected rfl).mp hchecks
        rw [hbefore] at hdec hrejected
        exact ⟨⟨hbefore ▸ hdec, (rejectionCorrect_recorded_iff hdec).mp hrejected, hdigest⟩,
          (Except.ok.inj hstate).symm⟩
      · rintro ⟨⟨hdec, hisolated, hdigest⟩, rfl⟩
        rw [hbefore] at hdec
        have hrejected := (rejectionCorrect_recorded_iff hdec).mpr hisolated
        rw [← hbefore] at hdec hrejected
        exact ⟨_, ⟨hdec, rfl⟩, (), (assertRejected_of_rejected rfl).mpr ⟨hrejected, hdigest⟩, rfl⟩
    | ok appliedTx =>
      have hacc : ¬ attempt.Rejected := by
        rw [Call.Rejected, hresult]
        exact Bool.false_ne_true.symm
      rw [privacyRoundCorrect_accepted_iff hacc, ← hbefore]
      constructor
      · rintro ⟨_, ⟨hdec, rfl⟩, _, _, hchecks⟩
        obtain ⟨hinserted, hnonce, happlied, hreplay, hstate⟩ := accepted_checks_iff.mp hchecks
        exact ⟨⟨hdec, hinserted, hnonce, happlied, hreplay⟩, hstate⟩
      · rintro ⟨⟨hdec, hinserted, hnonce, happlied, hreplay⟩, hstate⟩
        exact ⟨_, ⟨hdec, rfl⟩, (), assertRejected_of_accepted rfl,
          accepted_checks_iff.mpr ⟨hinserted, hnonce, happlied, hreplay, hstate⟩⟩

end Round

/-! ## A run, from the bytes on -/

section Run

variable {M : Machine} (P : PrivacyCrates M) (C : EffectCrates P.toPrivacyTypes) (u : Unstructured)

/-- The transactions of a run and the states they are drawn for, as they come when nothing
    is asserted. -/
def drawnTransactions (fuzzAccs : List (FuzzAccount M.toKeys)) (n : ℕ) (state : M.State)
    (input : u.Bytes) : List (Gen.Drawn M.State M.PrivacyPreservingTransaction) :=
  Gen.transcript (fun state => arbPrivacyPreservingTx P C u state fuzzAccs)
    (fun i state tx => (privacyRound M i state tx).after) n 0 state input

/-- The state such a run ends in. -/
def drawnState (fuzzAccs : List (FuzzAccount M.toKeys)) (n : ℕ) (state : M.State)
    (input : u.Bytes) : M.State :=
  Gen.driven (fun state => arbPrivacyPreservingTx P C u state fuzzAccs)
    (fun i state tx => (privacyRound M i state tx).after) n 0 state input

variable {P C u} {fuzzAccs : List (FuzzAccount M.toKeys)}

/-- The loop returns exactly when each of its rounds is correct. -/
theorem forDrawn_eq_ok_iff (hu : DrawsDoNotPanic u) (T : PrivacyTarget P) {n : ℕ}
    {state state' : M.State} {input : u.Bytes} :
    (∃ rest, forDrawn n state (fun state => arbPrivacyPreservingTx P C u state fuzzAccs)
        (applyPrivacyPreserving T (initAccounts fuzzAccs)) input = (.ok state', rest)) ↔
      (∀ d ∈ drawnTransactions P C u fuzzAccs n state input,
        PrivacyRoundCorrect T (fuzzAccs.map (·.accountId)) d.value
          (privacyRound M d.index d.state d.value)) ∧
      state' = drawnState P C u fuzzAccs n state input := by
  have hids : (initAccounts fuzzAccs).map Prod.fst = fuzzAccs.map (·.accountId) := List.map_map
  rw [← hids]
  exact Gen.exists_drive_eq_ok_iff
    (fun state => isErr_of_failsWith (arbPrivacyPreservingTx_failsWith (C := C) hu state fuzzAccs))
    fun i state tx state' => applyPrivacyPreserving_eq_ok_iff

/-- A run of the target returns exactly when each of its rounds is correct. For any machine,
    any source of draws and any bytes: let the accounts be drawn, and the transactions in
    turn, each for the state that the rounds before it have left. The target returns if and
    only if every rejected transaction left the tracked accounts and the commitment set as
    they were, every accepted one inserted its commitments, incremented its signers' nonces
    and applied its public effects, every replay was rejected, and every tracked balance
    could be read. -/
theorem fuzzPrivacyPreservingStateTransition_returns_iff (T : PrivacyTarget P)
    (G : GenesisCrates M) (C : EffectCrates P.toPrivacyTypes) (hu : DrawsDoNotPanic u)
    (hseed : (M.tryNew knownGoodSeed).isSome) (input : u.Bytes) :
    (∃ rest, fuzzPrivacyPreservingStateTransition T G C u input = (.ok (), rest)) ↔
      ∀ fuzzAccs mid,
        arbitraryFuzzState M.toKeys u (reservedAccountIds G) input = (.ok fuzzAccs, mid) →
      ∀ byte start, unwrapOr u.u8 0 mid = (.ok byte, start) →
        ∀ d ∈ drawnTransactions P C u fuzzAccs (byte.toNat % 6)
          (genesisState G (initAccounts fuzzAccs) []) start,
          PrivacyRoundCorrect T (fuzzAccs.map (·.accountId)) d.value
            (privacyRound M d.index d.state d.value) := by
  rw [fuzzPrivacyPreservingStateTransition, withFuzzState_returns_iff hu hseed]
  refine forall₃_congr fun fuzzAccs mid _ => ?_
  rw [Gen.exists_bind_eq_ok_iff (unwrapOr_succeeds hu.u8 0)]
  refine forall₃_congr fun byte start _ => ?_
  constructor
  · rintro ⟨rest, hrun⟩
    obtain ⟨state', after, hloop, _⟩ := Gen.exists_of_bind_eq_ok hrun
    exact ((forDrawn_eq_ok_iff hu T).mp ⟨after, hloop⟩).1
  · intro h
    obtain ⟨rest, hloop⟩ := (forDrawn_eq_ok_iff hu T).mpr ⟨h, rfl⟩
    exact ⟨rest, by rw [Gen.bind_of_eq_ok hloop]; rfl⟩

end Run

/-! ## A run that passes -/

section PlainTarget

/-- The target over `plainShielded`, which looks commitments up in the list. -/
def plainTarget : PrivacyTarget plainCrates where
  nativeTokenProgramId := plainToken.nativeTokenProgramId
  effectFromSlice := plainToken.effectFromSlice
  encodeBalance := plainToken.encodeBalance
  setShard := plainToken.setShard
  publicAccountNonceIncrement := plainToken.publicAccountNonceIncrement
  message tx := tx.1
  publicAccountIds message := message.publicActions.map (·.accountId)
  commitments message := message.privateActions.map (·.commitment)
  MembershipProof := Unit
  getProofForCommitment state commitment :=
    if state.commitments.contains commitment then some () else none

/-- The genesis of `plainGenesis` over an empty pool. -/
def shieldedGenesis : GenesisCrates plainShielded := { plainGenesis with
  new := ⟨plainGenesis.new, [], []⟩
  withPublicAccounts := fun state accounts =>
    { state with accounts := plainGenesis.withPublicAccounts state.accounts accounts }
  withPrivateAccounts := fun state _ => state
  withNamedPrograms := fun state _ => state }

/-- Draws from 8 on give one account and five transactions, and each round is correct. -/
theorem fuzzPrivacyPreservingStateTransition_returns_iff_plain :
    (drawnTransactions plainCrates plainEffects countingDraws [⟨⟨9⟩, 1, (9 : Bytes32)⟩] 5
      (genesisState shieldedGenesis [(⟨9⟩, 1)] []) (12 : ℕ)).Forall fun d =>
        PrivacyRoundCorrect plainTarget [⟨9⟩] d.value
          (privacyRound plainShielded d.index d.state d.value) :=
  List.forall_iff_forall_mem.mpr <|
    (fuzzPrivacyPreservingStateTransition_returns_iff plainTarget shieldedGenesis plainEffects
      countingDraws_doNotPanic rfl (8 : ℕ)).mp ⟨_, rfl⟩ _ _ rfl _ _ rfl

end PlainTarget

end LezFuzzing.Spec
