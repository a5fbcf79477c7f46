import LezFuzzing.Spec.ShieldedExecutor

/-!
# The privacy-preserving target raises no false alarm

Over an executor that follows the documented rules none of the target's checks fails, on any
bytes. The checks on the effects need distinct owners, which the generator provides, and the
check on the nonces needs room for one more, which five transactions from genesis leave.

## Key results

- `ExecutesShielded.privacyRound_cases`: what one round can be
- `ExecutesShielded.roundCorrect`: every round of a generated transaction passes
- `drawnTransactions_recorded`: the ledger of a run
- `fuzzPrivacyPreservingStateTransition_no_false_alarm`: the target, from the bytes on
-/

namespace LezFuzzing.Spec

open LezFuzzing.Native Ledger Keyed

section Rounds

variable {M : Machine} {P : PrivacyCrates M} {T : PrivacyTarget P} {V : ShieldedView P}
  {E : EffectRules T.toNativeToken}

/-- What one round can be: nothing beyond the stateless gate, a rejection that leaves the
    state alone, or an application whose replay is rejected. -/
inductive RoundOf (T : PrivacyTarget P) (V : ShieldedView P) (E : EffectRules T.toNativeToken)
    (tx : M.PrivacyPreservingTransaction) (state : M.State) : Round M → Prop
  | gated : RoundOf T V E tx state ⟨none, none, state⟩
  | rejected {attempt : Call M} (hbefore : attempt.before = state)
      (hrejected : attempt.Rejected) (hafter : attempt.after = state) :
      RoundOf T V E tx state ⟨some attempt, none, state⟩
  | applied {attempt replay : Call M} {after : M.State} (hbefore : attempt.before = state)
      (hok : ¬ attempt.Rejected) (hafter : attempt.after = after)
      (happlied : Applied T V E tx state after) (hreplay : replay.Rejected) :
      RoundOf T V E tx state ⟨some attempt, some replay, after⟩

theorem ExecutesShielded.privacyRound_cases (rules : ExecutesShielded T V E) (i : ℕ)
    (state : M.State) (tx : M.PrivacyPreservingTransaction) :
    RoundOf T V E tx state (privacyRound M i state tx) := by
  unfold privacyRound round
  cases hgate : M.transactionStatelessCheck (.PrivacyPreserving tx) with
  | error e => exact .gated
  | ok leeTx =>
    obtain rfl := rules.gate tx leeTx hgate
    obtain ⟨attempt, hattempt⟩ : ∃ attempt : Call M,
        attempt = ⟨.PrivacyPreserving tx, state, 1 + .ofNat 64 i, .ofNat 64 i⟩ := ⟨_, rfl⟩
    have hbefore : attempt.before = state := by rw [hattempt]
    have hexec : M.executeCheckOnState (.PrivacyPreserving tx) state (1 + .ofNat 64 i)
        (.ofNat 64 i) = (attempt.result, attempt.after) := by rw [hattempt]; rfl
    simp only [← hattempt]
    cases hresult : attempt.result with
    | error e =>
      rw [hresult] at hexec
      have hafter := rules.rejected tx state _ _ e attempt.after hexec
      rw [hafter]
      exact .rejected hbefore (by rw [Call.Rejected, hresult]; rfl) hafter
    | ok appliedTx =>
      rw [hresult] at hexec
      obtain ⟨rfl, happlied⟩ := rules.accepted tx state _ _ appliedTx attempt.after hexec
      have hok : ¬ attempt.Rejected := by rw [Call.Rejected, hresult]; exact Bool.false_ne_true.symm
      -- the replay, which is rejected and leaves what the first attempt left
      dsimp only
      generalize hreplay : (⟨.PrivacyPreserving tx, attempt.after, 1 + .ofNat 64 i + 1,
        .ofNat 64 i + 1⟩ : Call M) = replay
      obtain ⟨e, hagain⟩ := rules.rejects_again happlied (fun _ h => h) replay.blockId
        replay.timestamp
      have hcall : M.executeCheckOnState replay.tx replay.before replay.blockId
          replay.timestamp = (.error e, attempt.after) := by rw [← hagain, ← hreplay]
      have hsame : replay.after = attempt.after := by rw [Call.after, hcall]
      rw [hsame]
      exact .applied hbefore hok rfl happlied (by rw [Call.Rejected, Call.result, hcall]; rfl)

/-- What else is documented about transactions, the commitment set and nonces. -/
structure PrivacyTargetLaws (T : PrivacyTarget P) (V : ShieldedView P) : Prop
    extends NativeTokenLaws T.toNativeToken where
  message_newTransaction : ∀ message proof keys,
    T.message (P.newTransaction message (P.witnessSetForMessage message proof keys)) = message
  commitments_eq : ∀ message, T.commitments message = commitmentsOf message
  member : ∀ state, ∀ commitment ∈ V.commitments state,
    (T.getProofForCommitment state commitment).isSome
  increment : ∀ nonce, T.publicAccountNonceIncrement nonce = nonce + 1

variable {tx : M.PrivacyPreservingTransaction} {before after : M.State}

/-- With distinct owners, settling in order is what the oracle computes for each of them. -/
theorem Applied.actionApplied (laws : NativeTokenLaws T.toNativeToken)
    (h : Applied T V E tx before after)
    (hnd : ((T.message tx).publicActions.map (·.accountId)).Nodup)
    (hdec : ∀ id, (M.balance before id).isSome) :
    ∀ action ∈ (T.message tx).publicActions,
      ActionApplied T.toNativeToken before after (privacySigners M tx) action := by
  intro action haction
  obtain ⟨settled, hloop, hafter⟩ := applyActions_eq_some_iff.mp h.accounts
  obtain ⟨howned, _⟩ := (foldlM_modifyM_eq_some_iff hnd).mp hloop
  obtain ⟨balance, hbalance⟩ := Option.isSome_iff_exists.mp (hdec action.accountId)
  obtain ⟨balance', hfold, hwrite⟩ := EffectRules.foldNative_of_applyEffects laws hbalance
    (howned action haction)
  refine ⟨balance, balance', hbalance, hfold, fun hall => ?_⟩
  rw [congrFun hafter action.accountId, hwrite hall]

/-- What is known after `k` transactions: every balance decodes, and the listed accounts have
    used at most `k` nonces. -/
structure AfterRounds (M : Machine) (ids : List AccountId) (k : ℕ) (state : M.State) : Prop where
  decodes : ∀ id, (M.balance state id).isSome
  nonce_le : ∀ id ∈ ids, (M.nonce state id).toNat ≤ k

/-- What the generator provides: distinct owners, and signers among the listed accounts. -/
structure GeneratedFor (T : PrivacyTarget P) (ids : List AccountId)
    (tx : M.PrivacyPreservingTransaction) : Prop where
  owners_nodup : ((T.message tx).publicActions.map (·.accountId)).Nodup
  signers_listed : ∀ id ∈ privacySigners M tx, id ∈ ids

variable {ids : List AccountId} {k : ℕ} {state : M.State}

/-- The nonces of an application, as numbers. -/
private theorem Applied.nonce_toNat (laws : PrivacyTargetLaws T V)
    (happlied : Applied T V E tx before after) (h : AfterRounds M ids k before)
    (hk : k < 2 ^ 64) {id : AccountId} (hid : id ∈ ids) :
    (M.nonce after id).toNat =
      (M.nonce before id).toNat + if id ∈ privacySigners M tx then 1 else 0 := by
  have hle := h.nonce_le id hid
  rw [Machine.nonce, (applyActions_nonce laws.toNativeTokenLaws happlied.accounts id).1]
  split
  · rw [laws.increment, BitVec.toNat_add_of_lt (by
      show (M.nonce before id).toNat + 1 < 2 ^ 128
      omega)]
    rfl
  · rfl

/-- An application keeps what is known. -/
theorem Applied.afterRounds (laws : PrivacyTargetLaws T V)
    (happlied : Applied T V E tx before after) (h : AfterRounds M ids k before) :
    AfterRounds M ids (k + 1) after where
  decodes id := (applyActions_nonce laws.toNativeTokenLaws happlied.accounts id).2 (h.decodes id)
  nonce_le id hid := by
    have hle := h.nonce_le id hid
    rw [Machine.nonce, (applyActions_nonce laws.toNativeTokenLaws happlied.accounts id).1]
    split
    · rw [laws.increment, BitVec.toNat_add]
      exact Nat.le_trans (Nat.mod_le _ _) (Nat.succ_le_succ hle)
    · exact Nat.le_succ_of_le hle

/-- No round loses what is known. -/
theorem ExecutesShielded.afterRounds (rules : ExecutesShielded T V E)
    (laws : PrivacyTargetLaws T V) (h : AfterRounds M ids k state) (i : ℕ) :
    AfterRounds M ids (k + 1) (privacyRound M i state tx).after := by
  have hkeep : AfterRounds M ids (k + 1) state :=
    ⟨h.decodes, fun id hid => Nat.le_succ_of_le (h.nonce_le id hid)⟩
  have hround := rules.privacyRound_cases i state tx
  generalize privacyRound M i state tx = r at hround ⊢
  cases hround with
  | gated => exact hkeep
  | rejected _ _ _ => exact hkeep
  | applied _ _ _ happlied _ => exact happlied.afterRounds laws h

/-- Every round of a generated transaction passes. -/
theorem ExecutesShielded.roundCorrect (rules : ExecutesShielded T V E)
    (laws : PrivacyTargetLaws T V) (h : AfterRounds M ids k state) (hk : k < 2 ^ 64)
    (htx : GeneratedFor T ids tx) (i : ℕ) :
    PrivacyRoundCorrect T ids tx (privacyRound M i state tx) := by
  have hround := rules.privacyRound_cases i state tx
  generalize privacyRound M i state tx = r at hround ⊢
  cases hround with
  | gated => exact ⟨nofun, nofun, nofun, nofun, nofun, nofun⟩
  | rejected hbefore hrejected hafter =>
    rename_i attempt
    have hsame : attempt.after = attempt.before := hafter.trans hbefore.symm
    refine (privacyRoundCorrect_rejected_iff hrejected).mpr ⟨?_, ?_, ?_⟩
    · exact fun id _ => hbefore ▸ h.decodes id
    · exact fun id _ => by rw [hsame]; exact ⟨rfl, rfl⟩
    · rw [hsame]
  | applied hbefore hok hafter happlied hreplay =>
    refine (privacyRoundCorrect_accepted_iff hok).mpr ⟨?_, ?_, ?_, ?_, hreplay⟩
    · exact fun id _ => hbefore ▸ h.decodes id
    · intro commitment hmem
      rw [laws.commitments_eq] at hmem
      exact laws.member _ _ (hafter ▸ happlied.commitments.mem_after.mpr (.inr hmem))
    · intro id hid
      rw [hafter, hbefore, happlied.nonce_toNat laws h hk (htx.signers_listed id hid), if_pos hid]
    · rw [hafter, hbefore]
      exact happlied.actionApplied laws.toNativeTokenLaws htx.owners_nodup h.decodes

end Rounds

/-! ## A run, from the bytes on -/

section Run

variable {M : Machine} {P : PrivacyCrates M} {C : EffectCrates P.toPrivacyTypes}
  {u : Unstructured} {T : PrivacyTarget P} {V : ShieldedView P}
  {E : EffectRules T.toNativeToken} {fuzzAccs : List (FuzzAccount M.toKeys)}

/-- The transactions that were accepted, in order. -/
def acceptedOf (M : Machine) (ds : List (Gen.Drawn M.State M.PrivacyPreservingTransaction)) :
    List M.PrivacyPreservingTransaction :=
  (ds.filter fun d => (privacyRound M d.index d.state d.value).replay.isSome).map (·.value)

/-- Whatever is drawn, a run puts the accepted transactions on the books and nothing else. -/
theorem ExecutesShielded.transcript_recorded {σ : Type} (rules : ExecutesShielded T V E)
    (laws : PrivacyTargetLaws T V)
    {draw : M.State → Gen σ GenError M.PrivacyPreservingTransaction} (n k : ℕ)
    (state : M.State) (input : σ) :
    let next := fun i state tx => (privacyRound M i state tx).after
    Recorded T V state (acceptedOf M (Gen.transcript draw next n k state input))
      (Gen.driven draw next n k state input) := by
  intro next
  induction n generalizing k state input with
  | zero => exact .nil
  | succ n ih =>
    rw [Gen.transcript, Gen.driven]
    split
    · rename_i tx rest hdraw
      have hrest := ih (k + 1) (privacyRound M k state tx).after rest
      have hround := rules.privacyRound_cases k state tx
      rw [acceptedOf, List.filter_cons]
      dsimp only [next]
      generalize privacyRound M k state tx = r at hrest hround
      cases hround with
      | gated => exact hrest
      | rejected _ _ _ => exact hrest
      | applied _ _ _ happlied _ =>
        exact happlied.recorded_cons laws.toNativeTokenLaws laws.increment hrest
    · exact .nil

/-- What the generator returns is good for any state. -/
theorem arbPrivacyPreservingTx_generatedFor (laws : PrivacyTargetLaws T V)
    (hwit : WitnessPerKey P) {reserved : List AccountId}
    (hwf : FuzzAccountsWF reserved fuzzAccs) (state : M.State) :
    (arbPrivacyPreservingTx P C u state fuzzAccs).Ensures
      (GeneratedFor T (fuzzAccs.map (·.accountId))) := by
  refine Gen.ensures_bind (arbMessage_ensures state fuzzAccs) fun drawn hdrawn => ?_
  obtain ⟨message, keys, signerIds⟩ := drawn
  obtain ⟨hmessage, hsigners⟩ := hdrawn
  refine Gen.ensures_bind_any fun proof => Gen.ensures_pure ⟨?_, fun id hid => ?_⟩
  · rw [laws.message_newTransaction]
    exact hmessage.owners_nodup
  · rw [privacySigners, signerAccountIds_newTransaction hwit] at hid
    obtain ⟨acc, hacc, rfl⟩ := hmessage.signers_listed id (hsigners ▸ hid)
    exact List.mem_map.mpr ⟨acc, hacc, hwf.derived acc hacc⟩

/-- The loop of the target, on any state whose balances decode and whose listed accounts
    have few nonces used: it returns, and the state it ends in is the one it began with and
    the accepted transactions on the books. -/
theorem forDrawn_recorded (rules : ExecutesShielded T V E) (laws : PrivacyTargetLaws T V)
    (hwit : WitnessPerKey P) (hu : DrawsDoNotPanic u) {reserved : List AccountId}
    (hwf : FuzzAccountsWF reserved fuzzAccs) {n : ℕ} (hn : n < 2 ^ 64) {state : M.State}
    (hstate : AfterRounds M (fuzzAccs.map (·.accountId)) 0 state) (input : u.Bytes) :
    ∃ state' rest, forDrawn n state (fun state => arbPrivacyPreservingTx P C u state fuzzAccs)
        (applyPrivacyPreserving T (initAccounts fuzzAccs)) input = (.ok state', rest) ∧
      Recorded T V state (acceptedOf M (drawnTransactions P C u fuzzAccs n state input))
        state' := by
  have hgood : ∀ d ∈ drawnTransactions P C u fuzzAccs n state input,
      PrivacyRoundCorrect T (fuzzAccs.map (·.accountId)) d.value
        (privacyRound M d.index d.state d.value) := by
    intro d hd
    obtain ⟨_, hlt, hinv, htx⟩ := Gen.transcript_inv
      (arbPrivacyPreservingTx_generatedFor laws hwit hwf)
      (fun k state tx (h : AfterRounds M _ k state) _ => rules.afterRounds laws h k) hstate d hd
    exact rules.roundCorrect laws hinv (by omega) htx d.index
  obtain ⟨rest, hrun⟩ := (forDrawn_eq_ok_iff hu T).mpr ⟨hgood, rfl⟩
  exact ⟨_, rest, hrun, rules.transcript_recorded laws n 0 state input⟩

/-- The target raises no false alarm, and books exactly what it accepts. Let the executor
    follow the documented rules. Then the target returns on every input; and its loop, run on
    the genesis state of any generated accounts, ends in that state with the accepted
    transactions on the books: no nullifier and no commitment comes twice in the whole run,
    every account has used one nonce for each accepted transaction it signed, and balances sum
    up to what the accepted transactions declare. -/
theorem fuzzPrivacyPreservingStateTransition_no_false_alarm {M : Machine} {P : PrivacyCrates M}
    (T : PrivacyTarget P) (V : ShieldedView P) (E : EffectRules T.toNativeToken)
    (rules : ExecutesShielded T V E) (laws : PrivacyTargetLaws T V) (hwit : WitnessPerKey P)
    (G : GenesisCrates M) (genesis : GenesisLaws G) (readable : GenesisReadable G)
    (C : EffectCrates P.toPrivacyTypes) (u : Unstructured) (hu : DrawsDoNotPanic u)
    (hseed : (M.tryNew knownGoodSeed).isSome) :
    (∀ input, ∃ rest, fuzzPrivacyPreservingStateTransition T G C u input = (.ok (), rest)) ∧
    ∀ input fuzzAccs mid,
      arbitraryFuzzState M.toKeys u (reservedAccountIds G) input = (.ok fuzzAccs, mid) →
      ∀ n < 2 ^ 64, ∀ start, ∃ state' rest,
        let state := genesisState G (initAccounts fuzzAccs) []
        forDrawn n state (fun state => arbPrivacyPreservingTx P C u state fuzzAccs)
            (applyPrivacyPreserving T (initAccounts fuzzAccs)) start = (.ok state', rest) ∧
          Recorded T V state (acceptedOf M (drawnTransactions P C u fuzzAccs n state start))
            state' := by
  have hloop : ∀ fuzzAccs : List (FuzzAccount M.toKeys),
      FuzzAccountsWF (reservedAccountIds G) fuzzAccs → ∀ n < 2 ^ 64, ∀ start, ∃ state' rest,
        let state := genesisState G (initAccounts fuzzAccs) []
        forDrawn n state (fun state => arbPrivacyPreservingTx P C u state fuzzAccs)
            (applyPrivacyPreserving T (initAccounts fuzzAccs)) start = (.ok state', rest) ∧
          Recorded T V state (acceptedOf M (drawnTransactions P C u fuzzAccs n state start))
            state' := by
    intro fuzzAccs hwf n hn start
    refine forDrawn_recorded rules laws hwit hu hwf hn ⟨readable.decodes genesis _ _, ?_⟩ start
    intro id hid
    obtain ⟨acc, hacc, rfl⟩ := List.mem_map.mp hid
    have hlisted : acc.accountId ∈ (initAccounts fuzzAccs).map Prod.fst :=
      List.mem_map.mpr ⟨_, List.mem_map_of_mem hacc, rfl⟩
    rw [readable.nonce_eq_zero genesis [] hlisted (hwf.not_reserved acc hacc)]
    exact Nat.le_refl 0
  have hsucceeds : (fuzzPrivacyPreservingStateTransition T G C u).Succeeds := by
    refine withFuzzState_succeeds hu hseed fun fuzzAccs hwf => ?_
    refine Gen.succeeds_bind (unwrapOr_succeeds hu.u8 0) fun byte start => ?_
    have hfew : byte.toNat % 6 < 2 ^ 64 := by omega
    obtain ⟨state', rest, hforDrawn, _⟩ := hloop fuzzAccs hwf (byte.toNat % 6) hfew start
    exact ⟨(), rest, by rw [Gen.bind_of_eq_ok hforDrawn]; rfl⟩
  refine ⟨fun input => ?_, fun input fuzzAccs mid hrun =>
    hloop fuzzAccs (arbitraryFuzzState_wellFormed input fuzzAccs mid hrun)⟩
  obtain ⟨_, rest, hrun⟩ := hsucceeds input
  exact ⟨rest, hrun⟩

end Run

/-! ## A machine that settles -/

section Settling

/-- Native effects settle, and no other effect goes through. -/
def plainRules : EffectRules plainToken where
  apply effect account :=
    if Addressed plainToken effect then settleEffect plainToken effect account else none
  apply_native _ _ haddr := if_pos haddr
  nonce_eq effect account account' h := by
    split at h
    · obtain ⟨_, _, _, _, _, _, rfl⟩ := settleEffect_eq_some h
      rfl
    · exact nomatch h
  balance_eq effect account account' hnot h := by
    rw [if_neg hnot] at h
    exact nomatch h

/-- Accounts next to the commitments and the nullifiers. -/
structure SettledState where
  accounts : ReferenceState
  commitments : List plainTypes.Commitment
  nullifiers : List plainTypes.Nullifier

/-- Execute a transaction with private actions, fresh nullifiers and commitments, current
    nonces and effects that settle. -/
def settledExecute (state : SettledState) (message : PPMessage plainTypes) (keys : List Bytes32) :
    Option SettledState :=
  let nullifiers := message.privateActions.map (·.nullifier)
  let commitments := message.privateActions.map (·.commitment)
  let signerIds := keys.map AccountId.mk
  if message.privateActions.isEmpty = false ∧ nullifiers.Nodup ∧ commitments.Nodup ∧
      (∀ nullifier ∈ nullifiers, ¬ state.nullifiers.contains nullifier) ∧
      (∀ commitment ∈ commitments, ¬ state.commitments.contains commitment) ∧
      message.nonces = signerIds.map fun id => (state.accounts id).nonce then
    (applyActions plainRules signerIds message.publicActions state.accounts).map fun accounts =>
      ⟨accounts, state.commitments ++ commitments, state.nullifiers ++ nullifiers⟩
  else
    none

/-- `plainShielded` with public actions. -/
@[reducible] def settlingMachine : Machine := { plainShielded with
  State := SettledState
  getAccountById := fun state id => state.accounts id
  executeCheckOnState := fun tx state _ _ =>
    match tx with
    | .Public () => (.error (), state)
    | .PrivacyPreserving tx =>
      match settledExecute state tx.1 tx.2.2 with
      | some state' => (.ok (.PrivacyPreserving tx), state')
      | none => (.error (), state) }

@[reducible] def settlingCrates : PrivacyCrates settlingMachine := { plainCrates with
  getProgramImageId := fun _ _ => none
  commitmentSetDigest := fun state => .ofNat 256 state.commitments.length
  witnessSetForMessage := fun _ proof keys => (proof, keys)
  newTransaction := fun message witnessSet => (message, witnessSet) }

def settlingTarget : PrivacyTarget settlingCrates where
  nativeTokenProgramId := plainToken.nativeTokenProgramId
  effectFromSlice := plainToken.effectFromSlice
  encodeBalance := plainToken.encodeBalance
  setShard := plainToken.setShard
  publicAccountNonceIncrement := plainToken.publicAccountNonceIncrement
  message tx := tx.1
  publicAccountIds message := message.publicActions.map (·.accountId)
  commitments message := message.privateActions.map (·.commitment)
  MembershipProof := Unit
  getProofForCommitment state commitment :=
    if state.commitments.contains commitment then some () else none

def settlingView : ShieldedView settlingCrates where
  commitments state := {c | c ∈ state.commitments}
  nullifiers state := {n | n ∈ state.nullifiers}
  rootHistory _ := Set.univ

def settlingRules : EffectRules settlingTarget.toNativeToken where
  apply := plainRules.apply
  apply_native := plainRules.apply_native
  nonce_eq := plainRules.nonce_eq
  balance_eq := plainRules.balance_eq

/-- Appending to a list without repetitions is an insertion. -/
private theorem inserts_append {α : Type} [BEq α] [LawfulBEq α] {old new : List α}
    (hnd : new.Nodup) (hfresh : ∀ a ∈ new, ¬ old.contains a) :
    Inserts {a | a ∈ old} new {a | a ∈ old ++ new} :=
  ⟨hnd, fun a ha hold => hfresh a ha (List.contains_iff_mem.mpr hold),
    Set.ext fun _ => List.mem_append⟩

theorem settlingMachine_executes :
    ExecutesShielded settlingTarget settlingView settlingRules where
  gate tx leeTx h := (Except.ok.inj h).symm
  accepted tx state blockId timestamp appliedTx state' h := by
    obtain ⟨message, proof, keys⟩ := tx
    simp only [settlingMachine] at h
    split at h
    · rename_i after hafter
      obtain ⟨hok, rfl⟩ := Prod.mk.inj h
      obtain ⟨hchecks, hmap⟩ := Option.ite_none_right_eq_some.mp hafter
      obtain ⟨hne, hnulls, hcomms, hnullsFresh, hcommsFresh, _⟩ := hchecks
      obtain ⟨accounts, haccounts, rfl⟩ := Option.map_eq_some_iff.mp hmap
      have hsigners : privacySigners settlingMachine (message, proof, keys) =
          keys.map AccountId.mk :=
        List.map_map.trans (List.map_congr_left fun _ _ => rfl)
      refine ⟨(Except.ok.inj hok).symm, ⟨fun hnil => ?_, inserts_append hnulls hnullsFresh,
        inserts_append hcomms hcommsFresh, ?_⟩⟩
      · exact nomatch hne.symm.trans (List.isEmpty_iff.mpr hnil)
      · rw [hsigners]
        exact haccounts
    · exact nomatch (Prod.mk.inj h).1
  rejected tx state blockId timestamp e state' h := by
    simp only [settlingMachine] at h
    split at h
    · exact nomatch (Prod.mk.inj h).1
    · exact (Prod.mk.inj h).2.symm

theorem settlingTarget_laws : PrivacyTargetLaws settlingTarget settlingView where
  nativeBalance_setShard := plainToken_laws.nativeBalance_setShard
  setShard_setShard := plainToken_laws.setShard_setShard
  message_newTransaction _ _ _ := rfl
  commitments_eq _ := rfl
  member state commitment hmem := by
    have hlisted : state.commitments.contains commitment := List.contains_iff_mem.mpr hmem
    show (if state.commitments.contains commitment then some () else none).isSome
    rw [if_pos hlisted]
    rfl
  increment _ := rfl

theorem settlingCrates_witnessPerKey : WitnessPerKey settlingCrates := fun _ _ _ =>
  List.map_map.trans (List.map_congr_left fun _ _ => rfl)

/-- The genesis of `plainGenesis` over an empty pool. -/
def settlingGenesis : GenesisCrates settlingMachine := { plainGenesis with
  new := ⟨plainGenesis.new, [], []⟩
  withPublicAccounts := fun state accounts =>
    { state with accounts := plainGenesis.withPublicAccounts state.accounts accounts }
  withPrivateAccounts := fun state _ => state
  withNamedPrograms := fun state _ => state }

theorem settlingGenesis_laws : GenesisLaws settlingGenesis where
  getAccountById_withPublicAccounts _ _ _ := rfl
  balance_withPrivateAccounts _ _ _ := rfl
  balance_withNamedPrograms _ _ _ := rfl
  nativeBalance_funded _ := rfl
  mem_feeAccountIds id := plainGenesis_laws.mem_feeAccountIds id

theorem settlingGenesis_readable : GenesisReadable settlingGenesis where
  decodes_new _ := rfl
  decodes_system _ _ := rfl
  nonce_funded _ := rfl
  nonce_withPrivateAccounts _ _ _ := rfl
  nonce_withNamedPrograms _ _ _ := rfl

/-- Native effects as `plainToken` reads them, and no bounded windows. -/
def settlingEffects : EffectCrates settlingCrates.toPrivacyTypes where
  nativeTokenProgramId := ⟨0⟩
  effectToVec
    | .Debit amount => 0 :: leBytes 16 amount.toNat
    | .Credit amount => 1 :: leBytes 16 amount.toNat
  validityWindowTryFrom _ := some ()

/-- Draws from 16 on give one account and, where three are asked for, three transactions
    that are accepted. -/
theorem fuzzPrivacyPreservingStateTransition_no_false_alarm_settling :
    let state := genesisState settlingGenesis [(⟨17⟩, 2)] []
    let accepted := acceptedOf settlingMachine (drawnTransactions settlingCrates settlingEffects
      countingDraws [⟨⟨17⟩, 2, (17 : Bytes32)⟩] 3 state (20 : ℕ))
    (∃ rest, fuzzPrivacyPreservingStateTransition settlingTarget settlingGenesis settlingEffects
      countingDraws (16 : ℕ) = (.ok (), rest)) ∧
    accepted.length = 3 ∧ ∃ state', Recorded settlingTarget settlingView state accepted state' := by
  intro state accepted
  have hrules := fuzzPrivacyPreservingStateTransition_no_false_alarm settlingTarget settlingView
    settlingRules settlingMachine_executes settlingTarget_laws settlingCrates_witnessPerKey
    settlingGenesis settlingGenesis_laws settlingGenesis_readable settlingEffects countingDraws
    countingDraws_doNotPanic rfl
  obtain ⟨state', rest, _, hrecorded⟩ := hrules.2 (16 : ℕ) [⟨⟨17⟩, 2, (17 : Bytes32)⟩] (19 : ℕ)
    rfl 3 (by decide) (20 : ℕ)
  exact ⟨hrules.1 (16 : ℕ), by decide +kernel, state', hrecorded⟩

end Settling

end LezFuzzing.Spec
