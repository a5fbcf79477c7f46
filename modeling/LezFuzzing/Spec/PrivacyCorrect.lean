import LezFuzzing.Ledger.Pool
import LezFuzzing.Native.Privacy

/-!
# Pure-private transactions and the pool they act on

A pure-private transaction has one signer, one private action and nothing public. Its
synthesised proof does not depend on the state, so it can be executed on any state, and
an executor that follows the documented checks treats it as one spend of a pool.

## Key results

- `synthesizePassingProof_pure`: the proof depends on the message only
- `ExecutesPool.step`: one execution is one attempt on the pool
- `arbConflictingNullifierPair_ensures`: what the generated pairs have in common
-/

namespace LezFuzzing.Spec

open LezFuzzing.Native Ledger

variable {M : Machine} {P : PrivacyCrates M}

/-! ## The proof of a message without public parts -/

/-- A message with no public actions and no disclosed claims has one proof, for every
    state and every list of signers. -/
theorem synthesizePassingProof_pure (message : PPMessage P.toPrivacyTypes)
    (hactions : message.publicActions = [])
    (hclaims : ∀ accountId imageId,
      ProgramImageClaim.Disclosed accountId imageId ∉ message.programImageClaims)
    (state state' : M.State) (ids ids' : List AccountId) :
    synthesizePassingProof P message state ids = synthesizePassingProof P message state' ids' := by
  have hanchor : message.programImageClaims.map (reanchor P state) =
      message.programImageClaims.map (reanchor P state') := by
    refine List.map_congr_left fun claim hclaim => ?_
    cases claim with
    | Disclosed accountId imageId => exact absurd hclaim (hclaims accountId imageId)
    | Undisclosed rest => rfl
  simp only [synthesizePassingProof, hactions, hanchor, List.map_nil]

/-! ## The executor and its pool -/

variable (P) in
/-- What the executor's state holds of the shielded side. -/
structure ShieldedView where
  commitments : M.State → Set P.Commitment
  nullifiers : M.State → Set P.Nullifier
  rootHistory : M.State → Set CommitmentSetDigest

/-- The pool of a state: its shielded side with the account nonces. -/
def ShieldedView.pool (V : ShieldedView P) (state : M.State) :
    Pool AccountId U128 P.Commitment P.Nullifier CommitmentSetDigest where
  nonce := M.nonce state
  commitments := V.commitments state
  nullifiers := V.nullifiers state
  roots := V.rootHistory state

section Pure

variable (P) (key : M.PrivateKey) (nonce : U128) (action : PrivateAction P.toPrivacyTypes)

/-- The message of a pure-private transaction. -/
def pureMessage : PPMessage P.toPrivacyTypes where
  publicActions := []
  nonces := [nonce]
  privateActions := [action]
  blockValidityWindow := P.newUnbounded
  timestampValidityWindow := P.newUnbounded
  programImageClaims := []

/-- A pure-private transaction, with the proof that passes on `state`. -/
def pureTx (state : M.State) : M.PrivacyPreservingTransaction :=
  P.newTransaction (pureMessage P nonce action) (P.witnessSetForMessage (pureMessage P nonce action)
    (synthesizePassingProof P (pureMessage P nonce action) state [accountIdForKey M.toKeys key])
    [key])

/-- What it asks of the pool. -/
def pureSpend : Spend AccountId U128 P.Commitment P.Nullifier CommitmentSetDigest where
  signer := accountIdForKey M.toKeys key
  nonce := nonce
  commitment := action.commitment
  nullifier := action.nullifier
  root := action.root

/-- A pure-private transaction carries its proof to every other state. -/
theorem pureTx_congr (state state' : M.State) :
    pureTx P key nonce action state = pureTx P key nonce action state' := by
  have hproof := synthesizePassingProof_pure (pureMessage P nonce action) rfl
    (fun _ _ => List.not_mem_nil) state state' [accountIdForKey M.toKeys key]
    [accountIdForKey M.toKeys key]
  rw [pureTx, pureTx, hproof]

end Pure

/-- The documented behaviour of the executor on a pure-private transaction whose proof is
    valid for the state it is executed on. -/
structure ExecutesPool (V : ShieldedView P) : Prop where
  /-- The history always contains the live digest. -/
  live_root : ∀ state, P.commitmentSetDigest state ∈ V.rootHistory state
  accepts_iff : ∀ state key nonce action blockId timestamp,
    (M.executeCheckOnState (.PrivacyPreserving (pureTx P key nonce action state)) state blockId
      timestamp).1.isOk = true ↔ (V.pool state).Admits (pureSpend P key nonce action)
  settles : ∀ state key nonce action blockId timestamp,
    (M.executeCheckOnState (.PrivacyPreserving (pureTx P key nonce action state)) state blockId
      timestamp).1.isOk = true →
    (V.pool state).Settles (pureSpend P key nonce action)
      (V.pool (M.executeCheckOnState (.PrivacyPreserving (pureTx P key nonce action state)) state
        blockId timestamp).2)
  isolated : ∀ state key nonce action blockId timestamp,
    (M.executeCheckOnState (.PrivacyPreserving (pureTx P key nonce action state)) state blockId
      timestamp).1.isOk = false →
    (M.executeCheckOnState (.PrivacyPreserving (pureTx P key nonce action state)) state blockId
      timestamp).2 = state

/-- Executing a pure-private transaction, wherever its proof was made, is one attempt on
    the pool. -/
theorem ExecutesPool.step {V : ShieldedView P} (h : ExecutesPool V) (base state : M.State)
    (key : M.PrivateKey) (nonce : U128) (action : PrivateAction P.toPrivacyTypes)
    (blockId timestamp : U64) :
    (V.pool state).Step (pureSpend P key nonce action)
      (M.executeCheckOnState (.PrivacyPreserving (pureTx P key nonce action base)) state blockId
        timestamp).1.isOk
      (V.pool (M.executeCheckOnState (.PrivacyPreserving (pureTx P key nonce action base)) state
        blockId timestamp).2) := by
  rw [pureTx_congr P key nonce action base state]
  cases hok : (M.executeCheckOnState (.PrivacyPreserving (pureTx P key nonce action state)) state
      blockId timestamp).1.isOk with
  | true =>
    exact .accept ((h.accepts_iff state key nonce action blockId timestamp).mp hok)
      (h.settles state key nonce action blockId timestamp hok)
  | false =>
    rw [h.isolated state key nonce action blockId timestamp hok]
    refine .reject fun hadm => ?_
    have haccepted := (h.accepts_iff state key nonce action blockId timestamp).mpr hadm
    rw [hok] at haccepted
    exact nomatch haccepted

/-! ## Conflicting pairs -/

variable (P) in
/-- What two transactions conflict over: two signers and two private actions on one
    nullifier and the live root. -/
structure ConflictingPair (state : M.State) where
  keyB : M.PrivateKey
  keyC : M.PrivateKey
  actionB : PrivateAction P.toPrivacyTypes
  actionC : PrivateAction P.toPrivacyTypes
  signers_ne : accountIdForKey M.toKeys keyB ≠ accountIdForKey M.toKeys keyC
  nullifier_eq : actionC.nullifier = actionB.nullifier
  rootB : actionB.root = P.commitmentSetDigest state
  rootC : actionC.root = P.commitmentSetDigest state
  commitments_ne : actionB.commitment ≠ actionC.commitment

namespace ConflictingPair

variable {state : M.State} (pair : ConflictingPair P state)

/-- The two transactions as the generator builds them. -/
def txB : M.PrivacyPreservingTransaction := buildPurePrivateTx P state pair.keyB [pair.actionB]

def txC : M.PrivacyPreservingTransaction := buildPurePrivateTx P state pair.keyC [pair.actionC]

/-- What the two transactions ask of the pool. -/
def spendB : Spend AccountId U128 P.Commitment P.Nullifier CommitmentSetDigest :=
  pureSpend P pair.keyB (M.nonce state (accountIdForKey M.toKeys pair.keyB)) pair.actionB

def spendC : Spend AccountId U128 P.Commitment P.Nullifier CommitmentSetDigest :=
  pureSpend P pair.keyC (M.nonce state (accountIdForKey M.toKeys pair.keyC)) pair.actionC

end ConflictingPair

/-- A key of a listed account. -/
def ListedKey (accounts : List (FuzzAccount M.toKeys)) (key : M.PrivateKey) : Prop :=
  ∃ acc ∈ accounts, key = acc.privateKey

/-! ### Indices -/

theorem remainder_eq {σ : Type} {x n : ℕ} (hpos : 0 < n) :
    (remainder x n : Gen σ GenError ℕ) = pure (x % n) := if_neg (Nat.ne_of_gt hpos)

theorem indexed_eq {σ α : Type} {xs : List α} {i : ℕ} (hlt : i < xs.length) :
    (indexed xs i : Gen σ GenError α) = pure xs[i] := by
  rw [indexed, List.getElem?_eq_getElem hlt]

/-- What is found at an index is in the list. -/
theorem indexed_ensures {σ α : Type} (xs : List α) (i : ℕ) :
    (indexed xs i : Gen σ GenError α).Ensures (· ∈ xs) := by
  unfold indexed
  split
  · rename_i x hget
    exact Gen.ensures_pure (List.mem_of_getElem? hget)
  · exact Gen.ensures_fail

/-- The second index, moved on by one where it coincides with the first. -/
def movedOn (n i j : ℕ) : ℕ := if j = i then (i + 1) % n else j

theorem movedOn_lt {n i j : ℕ} (hpos : 0 < n) (hj : j < n) : movedOn n i j < n := by
  unfold movedOn
  split
  · exact Nat.mod_lt _ hpos
  · exact hj

/-- Moving on by one is never the same index. -/
theorem ne_movedOn {n i j : ℕ} (htwo : 2 ≤ n) (hi : i < n) : i ≠ movedOn n i j := by
  unfold movedOn
  split
  · by_cases hwrap : i + 1 < n
    · rw [Nat.mod_eq_of_lt hwrap]
      omega
    · have hend : i + 1 = n := by omega
      rw [hend, Nat.mod_self]
      omega
  · rename_i hne
    exact fun h => hne h.symm

/-- Where there is an account to take the remainder by, two bytes give the two indices. -/
theorem signerIndices_eq (u : Unstructured) {n : ℕ} (hpos : 0 < n) :
    signerIndices u n = (do
      let iByte ← u.u8
      let jByte ← u.u8
      return (iByte.toNat % n, movedOn n (iByte.toNat % n) (jByte.toNat % n))) := by
  unfold signerIndices
  simp only [remainder_eq hpos, pure_bind]
  refine bind_congr fun iByte => bind_congr fun jByte => ?_
  unfold movedOn
  split <;> rfl

/-- The indices are in range, and differ. -/
theorem signerIndices_ensures (u : Unstructured) {n : ℕ} (htwo : 2 ≤ n) :
    (signerIndices u n).Ensures fun indices =>
      indices.1 < n ∧ indices.2 < n ∧ indices.1 ≠ indices.2 := by
  have hpos : 0 < n := by omega
  rw [signerIndices_eq u hpos]
  refine Gen.ensures_bind_any fun iByte => Gen.ensures_bind_any fun jByte => ?_
  have hi : iByte.toNat % n < n := Nat.mod_lt _ hpos
  exact Gen.ensures_pure ⟨hi, movedOn_lt hpos (Nat.mod_lt _ hpos), ne_movedOn htwo hi⟩

/-- Every pair the generator returns conflicts over one nullifier, and its keys are those
    of listed accounts. -/
theorem arbConflictingNullifierPair_ensures_listed (u : Unstructured) (state : M.State)
    (accounts : List (FuzzAccount M.toKeys)) :
    (arbConflictingNullifierPair P u state accounts).Ensures fun txs =>
      ∃ pair : ConflictingPair P state, txs = (pair.txB, pair.txC) ∧
        ListedKey accounts pair.keyB ∧ ListedKey accounts pair.keyC := by
  unfold arbConflictingNullifierPair
  split
  · exact Gen.ensures_fail
  · refine Gen.ensures_bind_any fun indices => ?_
    obtain ⟨i, j⟩ := indices
    -- which accounts are picked does not matter, only that they are listed
    refine Gen.ensures_bind (indexed_ensures accounts i) fun accountB hB => ?_
    refine Gen.ensures_bind (indexed_ensures accounts j) fun accountC hC => ?_
    dsimp only
    split
    · exact Gen.ensures_fail
    · rename_i hsigners
      refine Gen.ensures_bind_any fun nullAid => ?_
      refine Gen.ensures_bind_any fun commB => Gen.ensures_bind_any fun commC => ?_
      split
      · exact Gen.ensures_fail
      · rename_i hcomm
        refine Gen.ensures_bind_any fun encryptedB => Gen.ensures_bind_any fun encryptedC => ?_
        let shared := P.nullifierForAccountInitialization ⟨nullAid⟩
        let root := P.commitmentSetDigest state
        exact Gen.ensures_pure ⟨{
          keyB := accountB.privateKey
          keyC := accountC.privateKey
          actionB := ⟨shared, root, commB, encryptedB⟩
          actionC := ⟨shared, root, commC, encryptedC⟩
          signers_ne := hsigners
          nullifier_eq := rfl
          rootB := rfl
          rootC := rfl
          commitments_ne := hcomm }, rfl, ⟨_, hB, rfl⟩, ⟨_, hC, rfl⟩⟩

/-- Every pair the generator returns conflicts over one nullifier. -/
theorem arbConflictingNullifierPair_ensures (u : Unstructured) (state : M.State)
    (accounts : List (FuzzAccount M.toKeys)) :
    (arbConflictingNullifierPair P u state accounts).Ensures fun txs =>
      ∃ pair : ConflictingPair P state, txs = (pair.txB, pair.txC) := by
  intro s txs s' hrun
  obtain ⟨pair, htxs, _⟩ :=
    arbConflictingNullifierPair_ensures_listed u state accounts s txs s' hrun
  exact ⟨pair, htxs⟩

end LezFuzzing.Spec
