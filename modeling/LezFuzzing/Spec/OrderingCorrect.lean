import LezFuzzing.Native.OrderingIndependence
import LezFuzzing.Spec.PrivacyCorrect
import LezFuzzing.Spec.ReferenceMachine

/-!
# The order of a conflicting pair never matters

Both transactions of a generated pair declare a current nonce and the live root, so the
pool decides about each by its commitment and the shared nullifier alone. Whichever is
accepted first spends the nullifier, and the other order is the same argument.

## Key results

- `ConflictingPair.outcomes`: what the two orders accept, for any conflicting pair
- `fuzzTransactionOrderingIndependence_sound`: both orders, and the target's assertions
-/

namespace LezFuzzing.Spec

open LezFuzzing.Native Ledger

section Pairs

variable {M : Machine} {P : PrivacyCrates M} {V : ShieldedView P} {base : M.State}

/-- Executing two pure-private transactions in turn is two attempts on the pool. -/
theorem acceptedInOrder_steps (h : ExecutesPool V) (base : M.State) (key key' : M.PrivateKey)
    (nonce nonce' : U128) (action action' : PrivateAction P.toPrivacyTypes) :
    ∃ p₁ p₂, (V.pool base).Step (pureSpend P key nonce action)
        (acceptedInOrder M base (.PrivacyPreserving (pureTx P key nonce action base))
          (.PrivacyPreserving (pureTx P key' nonce' action' base))).1 p₁ ∧
      p₁.Step (pureSpend P key' nonce' action')
        (acceptedInOrder M base (.PrivacyPreserving (pureTx P key nonce action base))
          (.PrivacyPreserving (pureTx P key' nonce' action' base))).2 p₂ :=
  -- the second proof was made for `base`, not for the state the first one leaves
  ⟨_, _, h.step base base key nonce action 1 0, h.step base _ key' nonce' action' 1 0⟩

namespace ConflictingPair

variable (pair : ConflictingPair P base)

/-- The pool decides about `B` by its commitment and its nullifier. -/
theorem admits_spendB_iff (h : ExecutesPool V) :
    (V.pool base).Admits pair.spendB ↔
      pair.actionB.commitment ∉ V.commitments base ∧
        pair.actionB.nullifier ∉ V.nullifiers base := by
  -- the nonce was read from `base`, and the root is its live digest
  have hroot : pair.actionB.root ∈ V.rootHistory base := pair.rootB ▸ h.live_root base
  constructor
  · intro hadm
    obtain ⟨_, hcomm, hnull, _⟩ := hadm
    exact ⟨hcomm, hnull⟩
  · intro hfresh
    obtain ⟨hcomm, hnull⟩ := hfresh
    exact ⟨rfl, hcomm, hnull, hroot⟩

/-- The pool decides about `C` by its commitment and the same nullifier. -/
theorem admits_spendC_iff (h : ExecutesPool V) :
    (V.pool base).Admits pair.spendC ↔
      pair.actionC.commitment ∉ V.commitments base ∧
        pair.actionB.nullifier ∉ V.nullifiers base := by
  have hroot : pair.actionC.root ∈ V.rootHistory base := pair.rootC ▸ h.live_root base
  rw [← pair.nullifier_eq]
  constructor
  · intro hadm
    obtain ⟨_, hcomm, hnull, _⟩ := hadm
    exact ⟨hcomm, hnull⟩
  · intro hfresh
    obtain ⟨hcomm, hnull⟩ := hfresh
    exact ⟨rfl, hcomm, hnull, hroot⟩

/-- The two orders accept equally many transactions and never both, and each accepts its
    first exactly if the pool admits it. -/
theorem outcomes (h : ExecutesPool V) :
    let bc := acceptedInOrder M base (.PrivacyPreserving pair.txB) (.PrivacyPreserving pair.txC)
    let cb := acceptedInOrder M base (.PrivacyPreserving pair.txC) (.PrivacyPreserving pair.txB)
    bc.1.toNat + bc.2.toNat = cb.1.toNat + cb.2.toNat ∧
    ¬ (bc.1 = true ∧ bc.2 = true) ∧ ¬ (cb.1 = true ∧ cb.2 = true) ∧
    (bc.1 = true ↔ (V.pool base).Admits pair.spendB) ∧
    (cb.1 = true ↔ (V.pool base).Admits pair.spendC) := by
  intro bc cb
  -- each order is two attempts on the pool of `base`
  obtain ⟨p₁, p₂, hB, hBC⟩ := acceptedInOrder_steps h base pair.keyB pair.keyC _ _
    pair.actionB pair.actionC
  obtain ⟨p₁', p₂', hC, hCB⟩ := acceptedInOrder_steps h base pair.keyC pair.keyB _ _
    pair.actionC pair.actionB
  have hconflict : pair.spendC.nullifier = pair.spendB.nullifier := pair.nullifier_eq
  obtain ⟨hnotBC, hnotCB, hcount⟩ := Pool.Step.conflict_comm hconflict hB hBC hC hCB
  exact ⟨hcount, hnotBC, hnotCB, hB.outcome, hC.outcome⟩

/-- On a fresh pair each order accepts exactly its first transaction. -/
theorem outcomes_fresh (h : ExecutesPool V) (hnull : pair.actionB.nullifier ∉ V.nullifiers base)
    (hcommB : pair.actionB.commitment ∉ V.commitments base)
    (hcommC : pair.actionC.commitment ∉ V.commitments base) :
    acceptedInOrder M base (.PrivacyPreserving pair.txB) (.PrivacyPreserving pair.txC) =
      (true, false) ∧
    acceptedInOrder M base (.PrivacyPreserving pair.txC) (.PrivacyPreserving pair.txB) =
      (true, false) := by
  obtain ⟨_, hnotBC, hnotCB, hB, hC⟩ := pair.outcomes h
  -- the first of each order is admitted, which shuts the second out
  have hfirstB := hB.mpr ((pair.admits_spendB_iff h).mpr ⟨hcommB, hnull⟩)
  have hfirstC := hC.mpr ((pair.admits_spendC_iff h).mpr ⟨hcommC, hnull⟩)
  have hsecondC := Bool.eq_false_iff.mpr fun hsecond => hnotBC ⟨hfirstB, hsecond⟩
  have hsecondB := Bool.eq_false_iff.mpr fun hsecond => hnotCB ⟨hfirstC, hsecond⟩
  exact ⟨Prod.ext hfirstB hsecondC, Prod.ext hfirstC hsecondB⟩

end ConflictingPair

/-- A gate that hands transactions back opens for the transaction itself or not at all. -/
theorem gate_eq (hsame : ∀ tx tx', M.transactionStatelessCheck tx = .ok tx' → tx' = tx)
    (tx : M.PrivacyPreservingTransaction) :
    gate M tx = none ∨ gate M tx = some (.PrivacyPreserving tx) := by
  unfold gate
  cases hcheck : M.transactionStatelessCheck (.PrivacyPreserving tx) with
  | error e => exact .inl rfl
  | ok tx' => exact .inr (congrArg some (hsame _ _ hcheck))

/-- The assertions hold of two orders that accept equally many and never both. -/
theorem assertOrderIndependence_returns
    (hsame : ∀ tx tx', M.transactionStatelessCheck tx = .ok tx' → tx' = tx)
    {txB txC : M.PrivacyPreservingTransaction} {rb1 rc1 rc2 rb2 : Bool}
    (hbc : acceptedInOrder M base (.PrivacyPreserving txB) (.PrivacyPreserving txC) = (rb1, rc1))
    (hcb : acceptedInOrder M base (.PrivacyPreserving txC) (.PrivacyPreserving txB) = (rc2, rb2))
    (hnotBC : ¬ (rb1 = true ∧ rc1 = true)) (hnotCB : ¬ (rc2 = true ∧ rb2 = true))
    (hcount : rb1.toNat + rc1.toNat = rc2.toNat + rb2.toNat) :
    (assertOrderIndependence base txB txC).Returns := by
  have hpassBC : (!(rb1 && rc1)) = true := by
    rwa [Bool.not_eq_true', ← Bool.not_eq_true, Bool.and_eq_true]
  have hpassCB : (!(rc2 && rb2)) = true := by
    rwa [Bool.not_eq_true', ← Bool.not_eq_true, Bool.and_eq_true]
  have hpass : rb1.toNat + rc1.toNat = rb2.toNat + rc2.toNat := by omega
  unfold assertOrderIndependence
  cases gate_eq hsame txB with
  | inl hnone => exact ⟨(), by rw [hnone]; rfl⟩
  | inr hB =>
    cases gate_eq hsame txC with
    | inl hnone => exact ⟨(), by rw [hB, hnone]; rfl⟩
    | inr hC =>
      simp only [hB, hC, hbc, hcb, Except.returns_assert_bind_iff, Except.returns_assert_iff]
      exact ⟨hpassBC, hpassCB, hpass⟩

end Pairs

/-- For every pair the generator returns, the two orders accept equally many transactions
    and never both, and on a fresh pair exactly the first. The gate in front of the two orders
    is code of its own; if it hands transactions back as they are, neither assertion fails. -/
theorem fuzzTransactionOrderingIndependence_sound (M : Machine) (P : PrivacyCrates M)
    (V : ShieldedView P) (h : ExecutesPool V) (u : Unstructured) (base : M.State)
    (fuzzAccs : List (FuzzAccount M.toKeys)) (input rest : u.Bytes)
    (txB txC : M.PrivacyPreservingTransaction)
    (hpair : arbConflictingNullifierPair P u base fuzzAccs input = (.ok (txB, txC), rest)) :
    let bc := acceptedInOrder M base (.PrivacyPreserving txB) (.PrivacyPreserving txC)
    let cb := acceptedInOrder M base (.PrivacyPreserving txC) (.PrivacyPreserving txB)
    bc.1.toNat + bc.2.toNat = cb.1.toNat + cb.2.toNat ∧
    ¬ (bc.1 = true ∧ bc.2 = true) ∧ ¬ (cb.1 = true ∧ cb.2 = true) ∧
    (∃ pair : ConflictingPair P base, txB = pair.txB ∧ txC = pair.txC) ∧
    (∀ pair : ConflictingPair P base, txB = pair.txB → txC = pair.txC →
      pair.actionB.nullifier ∉ V.nullifiers base →
      pair.actionB.commitment ∉ V.commitments base →
      pair.actionC.commitment ∉ V.commitments base →
      bc = (true, false) ∧ cb = (true, false)) ∧
    ((∀ tx tx', M.transactionStatelessCheck tx = .ok tx' → tx' = tx) →
      (fuzzTransactionOrderingIndependence P u base fuzzAccs input).Returns) := by
  obtain ⟨pair, htxs⟩ := arbConflictingNullifierPair_ensures u base fuzzAccs input _ rest hpair
  obtain ⟨hB, hC⟩ := Prod.mk.inj htxs
  intro bc cb
  obtain ⟨hcount, hnotBC, hnotCB, _⟩ := pair.outcomes h
  rw [← hB, ← hC] at hcount hnotBC hnotCB
  refine ⟨hcount, hnotBC, hnotCB, ⟨pair, hB, hC⟩, ?_, ?_⟩
  · rintro pair rfl rfl hnull hcommB hcommC
    exact pair.outcomes_fresh h hnull hcommB hcommC
  · intro hsame
    unfold fuzzTransactionOrderingIndependence
    rw [hpair]
    exact assertOrderIndependence_returns hsame rfl rfl hnotBC hnotCB hcount

/-! ## A machine with a pool -/

section PlainShielded

/-- Commitments and nullifiers that are their own pre-images. -/
@[reducible] def plainTypes : PrivacyTypes U128 where
  funded balance := ⟨0, balance⟩
  Commitment := AccountId × Account U128
  commitmentNew id account := (id, account)
  Nullifier := AccountId
  nullifierForAccountInitialization id := id
  Ciphertext := Account U128
  encrypt account _ _ _ := account
  ImageId := Unit
  Undisclosed := Unit
  ValidityWindow := Unit
  newUnbounded := ()

/-- Accounts next to the commitments and the nullifiers, in the order they were added. -/
structure ShieldedState where
  accounts : ReferenceState
  commitments : List plainTypes.Commitment
  nullifiers : List plainTypes.Nullifier

/-- The first byte of each nullifier and of each committed id. -/
def plainJournal (output : PrivacyPreservingCircuitOutput plainTypes) : List (BitVec 8) :=
  output.privateActions.flatMap fun action =>
    [action.nullifier.value.setWidth 8, action.commitment.1.value.setWidth 8]

/-- The journal of a message with one private action and nothing public. -/
def plainProof (action : PrivateAction plainTypes) : Proof :=
  Proof.fromInner (plainJournal ⟨[], [action], (), (), []⟩)

/-- Settle one private action, if it is admitted. A root is a length of the commitment list. -/
def plainSpend (state : ShieldedState) (key : Bytes32) (nonce : U128)
    (action : PrivateAction plainTypes) : Option ShieldedState :=
  if nonce = (state.accounts ⟨key⟩).nonce ∧ action.commitment ∉ state.commitments ∧
      action.nullifier ∉ state.nullifiers ∧ action.root.toNat ≤ state.commitments.length then
    some {
      accounts := Function.update state.accounts ⟨key⟩
        { state.accounts ⟨key⟩ with nonce := (state.accounts ⟨key⟩).nonce + 1 }
      commitments := action.commitment :: state.commitments
      nullifiers := action.nullifier :: state.nullifiers }
  else
    none

/-- Only transactions with one signer, one private action and the right proof can be valid. -/
def shieldedExecute (state : ShieldedState) :
    PPMessage plainTypes × Proof × List Bytes32 → Option ShieldedState
  | (⟨[], [nonce], [action], (), (), []⟩, proof, [key]) =>
    if proof = plainProof action then plainSpend state key nonce action else none
  | _ => none

/-- A machine with nothing but private transactions. -/
@[reducible] def plainShielded : Machine where
  toKeys := plainKeys
  Data := U128
  nativeBalance := some
  State := ShieldedState
  getAccountById state id := state.accounts id
  Signature := Unit
  PublicTransaction := Unit
  PrivacyPreservingTransaction := PPMessage plainTypes × Proof × List Bytes32
  publicWitness _ := []
  privacyPreservingWitness tx := tx.2.2.map ((), ·)
  Error := Unit
  transactionStatelessCheck := .ok
  executeCheckOnState
    | .Public (), state, _, _ => (.error (), state)
    | .PrivacyPreserving tx, state, _, _ =>
      match shieldedExecute state tx with
      | some state' => (.ok (.PrivacyPreserving tx), state')
      | none => (.error (), state)
  createTransactionNativeTokenTransfer _ _ _ _ _ := .Public ()

@[reducible] def plainCrates : PrivacyCrates plainShielded where
  toPrivacyTypes := plainTypes
  toBytes := plainJournal
  ImageDigest := Unit
  circuitId := ()
  ReceiptClaim := List (BitVec 8)
  receiptClaimOk _ journal := journal
  borshToVec | .Fake receipt => receipt.claim
  getProgramImageId _ _ := none
  commitmentSetDigest state := .ofNat 256 state.commitments.length
  WitnessSet := Proof × List Bytes32
  witnessSetForMessage _ proof keys := (proof, keys)
  newTransaction message witnessSet := (message, witnessSet)

def plainView : ShieldedView plainCrates where
  commitments state := {c | c ∈ state.commitments}
  nullifiers state := {n | n ∈ state.nullifiers}
  rootHistory state := {r | r.toNat ≤ state.commitments.length}

section Laws

variable (state : plainShielded.State) (key : plainShielded.PrivateKey) (nonce : U128)
  (action : PrivateAction plainCrates.toPrivacyTypes)

/-- A pure-private transaction passes the proof check, so its action decides. -/
theorem execute_pureTx (blockId timestamp : U64) :
    plainShielded.executeCheckOnState
        (.PrivacyPreserving (pureTx plainCrates key nonce action state)) state blockId timestamp =
      match plainSpend state key nonce action with
      | some state' =>
        (.ok (.PrivacyPreserving (pureTx plainCrates key nonce action state)), state')
      | none => (.error (), state) := by
  have hexec : shieldedExecute state (pureTx plainCrates key nonce action state) =
      plainSpend state key nonce action := if_pos rfl
  simp only [hexec]

/-- An action settles if the pool admits it, and fails otherwise. -/
theorem plainSpend_cases :
    (∃ state', plainSpend state key nonce action = some state' ∧
      (plainView.pool state).Admits (pureSpend plainCrates key nonce action) ∧
      (plainView.pool state).Settles (pureSpend plainCrates key nonce action)
        (plainView.pool state')) ∨
    plainSpend state key nonce action = none ∧
      ¬ (plainView.pool state).Admits (pureSpend plainCrates key nonce action) := by
  unfold plainSpend
  split
  · rename_i hadm
    refine .inl ⟨_, rfl, hadm, ?_, ?_, ?_, ?_⟩
    · funext id
      show (Function.update state.accounts ⟨key⟩ _ id).nonce =
        Function.update (fun id => (state.accounts id).nonce) ⟨key⟩ _ id
      rw [Function.update_apply, Function.update_apply]
      split <;> rfl
    · exact Set.ext fun c => List.mem_cons
    · exact Set.ext fun n => List.mem_cons
    · exact fun r hr => Nat.le_succ_of_le hr
  · rename_i hnot
    exact .inr ⟨rfl, hnot⟩

end Laws

theorem plainShielded_executesPool : ExecutesPool plainView where
  live_root state := by
    show (BitVec.ofNat 256 state.commitments.length).toNat ≤ state.commitments.length
    rw [BitVec.toNat_ofNat]
    exact Nat.mod_le _ _
  accepts_iff state key nonce action blockId timestamp := by
    rw [execute_pureTx]
    obtain ⟨state', hspend, hadm, _⟩ | ⟨hspend, hnot⟩ := plainSpend_cases state key nonce action
    · rw [hspend]
      exact ⟨fun _ => hadm, fun _ => rfl⟩
    · rw [hspend]
      exact ⟨nofun, fun hadm => absurd hadm hnot⟩
  settles state key nonce action blockId timestamp hok := by
    rw [execute_pureTx] at hok ⊢
    obtain ⟨state', hspend, _, hsettle⟩ | ⟨hspend, _⟩ := plainSpend_cases state key nonce action
    · rwa [hspend]
    · rw [hspend] at hok
      exact nomatch hok
  isolated state key nonce action blockId timestamp hfail := by
    rw [execute_pureTx] at hfail ⊢
    obtain ⟨state', hspend, _⟩ | ⟨hspend, _⟩ := plainSpend_cases state key nonce action
    · rw [hspend] at hfail
      exact nomatch hfail
    · rw [hspend]

/-- Two accounts to sign for, with `plainKeys` naming each key's account. -/
def twoSigners : List (FuzzAccount plainShielded.toKeys) :=
  [⟨⟨1⟩, 10, (1 : Bytes32)⟩, ⟨⟨2⟩, 3, (2 : Bytes32)⟩]

/-- An empty pool over the balances of the two signers. -/
def emptyPool : ShieldedState := ⟨.genesis [(⟨1⟩, 10), (⟨2⟩, 3)], [], []⟩

/-- The private actions that `countingDraws` leads to, with nullifier 2. -/
def drawnActionB : PrivateAction plainTypes :=
  ⟨⟨2⟩, 0, (⟨3⟩, ⟨4, (5 : U128)⟩), ⟨⟨9, (10 : U128)⟩, [14], 15⟩⟩

def drawnActionC : PrivateAction plainTypes :=
  ⟨⟨2⟩, 0, (⟨6⟩, ⟨7, (8 : U128)⟩), ⟨⟨16, (17 : U128)⟩, [21], 22⟩⟩

/-- A drawn pair on an empty pool: each order accepts exactly its first transaction. -/
theorem fuzzTransactionOrderingIndependence_sound_fresh :
    let txB := buildPurePrivateTx plainCrates emptyPool (1 : Bytes32) [drawnActionB]
    let txC := buildPurePrivateTx plainCrates emptyPool (2 : Bytes32) [drawnActionC]
    acceptedInOrder plainShielded emptyPool (.PrivacyPreserving txB) (.PrivacyPreserving txC) =
      (true, false) ∧
    (fuzzTransactionOrderingIndependence plainCrates countingDraws emptyPool twoSigners
      (0 : ℕ)).Returns := by
  intro txB txC
  have hsound := fuzzTransactionOrderingIndependence_sound plainShielded plainCrates plainView
    plainShielded_executesPool countingDraws emptyPool twoSigners (0 : ℕ) (23 : ℕ) txB txC rfl
  obtain ⟨_, _, _, ⟨pair, hB, hC⟩, hfresh, hreturns⟩ := hsound
  have hnone : ∀ c, c ∉ ([] : List plainTypes.Commitment) := fun _ => List.not_mem_nil
  exact ⟨(hfresh pair hB hC List.not_mem_nil (hnone _) (hnone _)).1,
    hreturns fun _ _ hcheck => (Except.ok.inj hcheck).symm⟩

end PlainShielded

end LezFuzzing.Spec
