import LezFuzzing.Native.PrivacyGenerators
import LezFuzzing.Spec.OrderingCorrect
import LezFuzzing.Spec.PrivateActionsCorrect

/-!
# Every generated transaction is well formed

The transaction generator indexes into the account list behind emptiness tests and removes
duplicates by scanning what it has so far. Each of its loops keeps an invariant, and the
invariants together are the validator's structural checks: distinct signers with their
current nonces, distinct public owners, and one to three private actions that share neither
a nullifier nor a commitment.

## Key results

- `arbPrivateActions_selects`: the private actions are a greedy selection of draws
- `arbMessage_ensures`: every message is well formed for its signers
- `arbMessage_failsWith`, `arbPrivacyPreservingTx_failsWith`: no index and no remainder panics
- `arbPrivacyPreservingTx_wellFormed`: the generated transactions
-/

namespace LezFuzzing.Spec

open LezFuzzing.Native

/-- An error that the caller of a generator sees, as opposed to a panic. -/
def IsErr (e : GenError) : Prop := ∃ a, e = .err a

/-- A draw may fail, but it does not panic. -/
structure DrawsDoNotPanic (u : Unstructured) : Prop where
  u8 : u.u8.FailsWith IsErr
  u128 : u.u128.FailsWith IsErr
  bool : u.bool.FailsWith IsErr
  bytes32 : u.bytes32.FailsWith IsErr
  vecU8 : u.vecU8.FailsWith IsErr

/-- Falling back to a default hides errors, not panics. -/
theorem unwrapOr_failsWith {σ α : Type} {g : Gen σ GenError α} (hg : g.FailsWith IsErr)
    (default : α) : (unwrapOr g default).FailsWith IsErr := by
  intro s e s' hrun
  unfold unwrapOr at hrun
  cases hfirst : g s with
  | mk result mid =>
    rw [hfirst] at hrun
    cases result with
    | ok a => cases (Prod.mk.inj hrun).1
    | error e' =>
      obtain ⟨a, rfl⟩ := hg s e' mid hfirst
      cases (Prod.mk.inj hrun).1

section NoPanic

variable {M : Machine} {P : PrivacyCrates M} {C : EffectCrates P.toPrivacyTypes}
  {u : Unstructured} (hu : DrawsDoNotPanic u)
include hu

/-- A remainder by the length of a list that is not empty is an index into it. -/
theorem arbIndexed_failsWith {α : Type} {accounts : List α} (hne : 0 < accounts.length) :
    (arbIndexed u accounts).FailsWith IsErr := by
  refine Gen.failsWith_bind hu.u8 fun byte => ?_
  have hlt : byte.toNat % accounts.length < accounts.length := Nat.mod_lt _ hne
  rw [remainder_eq hne]
  show (indexed accounts (byte.toNat % accounts.length)).FailsWith IsErr
  rw [indexed_eq hlt]
  exact Gen.failsWith_pure

theorem arbAccount_failsWith : (arbAccount P u).FailsWith IsErr :=
  Gen.failsWith_bind hu.u128 fun _ => Gen.failsWith_bind hu.u128 fun _ => Gen.failsWith_pure

theorem arbEncryptedAccountData_failsWith : (arbEncryptedAccountData P u).FailsWith IsErr := by
  refine Gen.failsWith_bind (arbAccount_failsWith hu) fun account => ?_
  refine Gen.failsWith_bind hu.bytes32 fun identifier => ?_
  refine Gen.failsWith_bind hu.bytes32 fun sharedSecret => ?_
  refine Gen.failsWith_bind hu.bytes32 fun nullifierId => ?_
  refine Gen.failsWith_bind hu.vecU8 fun epk => ?_
  exact Gen.failsWith_bind hu.u8 fun viewTag => Gen.failsWith_pure

theorem arbCommitment_failsWith : (arbCommitment P u).FailsWith IsErr :=
  Gen.failsWith_bind hu.bytes32 fun _ =>
    Gen.failsWith_bind (arbAccount_failsWith hu) fun _ => Gen.failsWith_pure

theorem arbPublicEffect_failsWith : (arbPublicEffect P C u).FailsWith IsErr := by
  refine Gen.failsWith_bind hu.u8 fun byte => ?_
  split
  · refine Gen.failsWith_bind hu.bytes32 fun program => ?_
    refine Gen.failsWith_bind hu.bytes32 fun shard => ?_
    exact Gen.failsWith_bind hu.vecU8 fun data => Gen.failsWith_pure
  · refine Gen.failsWith_bind hu.u128 fun amount => ?_
    exact Gen.failsWith_bind hu.bool fun debit => Gen.failsWith_pure

theorem arbBound_failsWith : (arbBound u).FailsWith IsErr := by
  refine Gen.failsWith_bind hu.bool fun bounded => ?_
  split
  · exact Gen.failsWith_bind (unwrapOr_failsWith hu.u8 0) fun byte => Gen.failsWith_pure
  · exact Gen.failsWith_pure

theorem arbValidityWindow_failsWith : (arbValidityWindow P C u).FailsWith IsErr := by
  refine Gen.failsWith_bind hu.u8 fun byte => ?_
  split
  · exact Gen.failsWith_pure
  · refine Gen.failsWith_bind (arbBound_failsWith hu) fun start => ?_
    exact Gen.failsWith_bind (arbBound_failsWith hu) fun stop => Gen.failsWith_pure

theorem arbPrivateAction_failsWith (liveRoot : CommitmentSetDigest) :
    (arbPrivateAction P u liveRoot).FailsWith IsErr := by
  refine Gen.failsWith_bind hu.bytes32 fun nullAid => ?_
  refine Gen.failsWith_bind ?_ fun root => ?_
  · refine Gen.failsWith_bind hu.bool fun live => ?_
    split
    · exact Gen.failsWith_pure
    · exact hu.bytes32
  · refine Gen.failsWith_bind (arbCommitment_failsWith hu) fun commitment => ?_
    exact Gen.failsWith_bind (arbEncryptedAccountData_failsWith hu) fun data => Gen.failsWith_pure

/-- Without an account the signer loop takes no step. -/
theorem arbSigners_failsWith (accounts : List (FuzzAccount M.toKeys)) :
    (arbSigners u accounts).FailsWith IsErr := by
  by_cases hne : 0 < accounts.length
  · refine Gen.failsWith_bind ?_ fun nSigners => Gen.failsWith_iterate (fun _ acc => ?_) _
    · unfold arbSignerCount
      split
      · exact Gen.failsWith_pure
      · exact Gen.failsWith_bind hu.u8 fun byte => Gen.failsWith_pure
    · refine Gen.failsWith_bind (arbIndexed_failsWith hu hne) fun account => ?_
      dsimp only
      split
      · exact Gen.failsWith_pure
      · exact Gen.failsWith_pure
  · have hmax : min accounts.length 3 = 0 := by omega
    unfold arbSigners arbSignerCount
    rw [if_pos hmax]
    exact Gen.failsWith_pure

theorem arbExtraId_failsWith (accounts : List (FuzzAccount M.toKeys)) :
    (arbExtraId u accounts).FailsWith IsErr := by
  have hany : (arbAnyId u).FailsWith IsErr :=
    Gen.failsWith_bind hu.bytes32 fun bytes => Gen.failsWith_pure
  unfold arbExtraId
  split
  · exact hany
  · rename_i hne
    have hlen : 0 < accounts.length :=
      List.length_pos_iff.mpr fun hnil => hne (List.isEmpty_iff.mpr hnil)
    refine Gen.failsWith_bind hu.bool fun listed => ?_
    split
    · exact Gen.failsWith_bind (arbIndexed_failsWith hu hlen) fun account => Gen.failsWith_pure
    · exact hany

theorem arbPublicAccountIds_failsWith (accounts : List (FuzzAccount M.toKeys))
    (signerIds : List AccountId) :
    (arbPublicAccountIds u accounts signerIds).FailsWith IsErr := by
  refine Gen.failsWith_bind hu.bool fun withSigners => Gen.failsWith_bind hu.u8 fun byte => ?_
  refine Gen.failsWith_iterate (fun _ ids => ?_) _
  refine Gen.failsWith_bind (arbExtraId_failsWith hu accounts) fun id => ?_
  split
  · exact Gen.failsWith_pure
  · exact Gen.failsWith_pure

theorem arbPrivateActions_failsWith (liveRoot : CommitmentSetDigest) :
    (arbPrivateActions P u liveRoot).FailsWith IsErr := by
  have haction : (arbPrivateAction P u liveRoot).FailsWith IsErr :=
    arbPrivateAction_failsWith hu liveRoot
  refine Gen.failsWith_bind hu.u8 fun byte => ?_
  refine Gen.failsWith_bind (Gen.failsWith_iterate (fun _ actions => ?_) _) fun actions => ?_
  · exact Gen.failsWith_bind haction fun action => Gen.failsWith_pure
  · split
    · exact Gen.failsWith_bind haction fun action => Gen.failsWith_pure
    · exact Gen.failsWith_pure

/-- No index and no remainder on the way to the message panics. -/
theorem arbMessage_failsWith (state : M.State) (accounts : List (FuzzAccount M.toKeys)) :
    (arbMessage P C u state accounts).FailsWith IsErr := by
  refine Gen.failsWith_bind (arbSigners_failsWith hu accounts) fun signers => ?_
  refine Gen.failsWith_bind (arbPublicAccountIds_failsWith hu accounts _) fun ids => ?_
  refine Gen.failsWith_bind (Gen.failsWith_traverse (fun id => ?_) _) fun publicActions => ?_
  · refine Gen.failsWith_bind ?_ fun effects => Gen.failsWith_pure
    refine Gen.failsWith_bind hu.u8 fun byte => ?_
    exact Gen.failsWith_traverse (fun _ => arbPublicEffect_failsWith hu) _
  · refine Gen.failsWith_bind (arbPrivateActions_failsWith hu _) fun privateActions => ?_
    refine Gen.failsWith_bind (arbValidityWindow_failsWith hu) fun blockWindow => ?_
    exact Gen.failsWith_bind (arbValidityWindow_failsWith hu) fun timeWindow => Gen.failsWith_pure

/-- Nor does any on the way to the transaction. -/
theorem arbPrivacyPreservingTx_failsWith (state : M.State)
    (accounts : List (FuzzAccount M.toKeys)) :
    (arbPrivacyPreservingTx P C u state accounts).FailsWith IsErr := by
  refine Gen.failsWith_bind (arbMessage_failsWith hu state accounts) fun drawn => ?_
  refine Gen.failsWith_bind ?_ fun proof => Gen.failsWith_pure
  refine Gen.failsWith_bind hu.u8 fun byte => ?_
  split
  · exact Gen.failsWith_bind hu.vecU8 fun bytes => Gen.failsWith_pure
  · exact Gen.failsWith_pure

end NoPanic

/-! ## What the loops establish -/

section Loops

variable {M : Machine} {P : PrivacyCrates M} {C : EffectCrates P.toPrivacyTypes}
  {u : Unstructured} {accounts : List (FuzzAccount M.toKeys)}

theorem arbIndexed_ensures {α : Type} (accounts : List α) :
    (arbIndexed u accounts).Ensures (· ∈ accounts) :=
  Gen.ensures_bind_any fun _ => Gen.ensures_bind_any fun i => indexed_ensures accounts i

/-- The signers after at most `k` iterations. -/
structure SignersWF (accounts : List (FuzzAccount M.toKeys)) (k : ℕ)
    (signers : List M.PrivateKey × List AccountId) : Prop where
  derived : signers.2 = signers.1.map (accountIdForKey M.toKeys)
  nodup : signers.2.Nodup
  listed : ∀ id ∈ signers.2, ∃ acc ∈ accounts, id = accountIdForKey M.toKeys acc.privateKey
  length_le : signers.2.length ≤ k

private theorem signers_step (k : ℕ) (acc : List M.PrivateKey × List AccountId)
    (h : SignersWF accounts k acc) :
    (arbSigners.step u accounts acc).Ensures (SignersWF accounts (k + 1)) := by
  obtain ⟨keys, signerIds⟩ := acc
  refine Gen.ensures_bind (arbIndexed_ensures accounts) fun account haccount => ?_
  dsimp only
  split
  -- a repeated signer is skipped
  · exact Gen.ensures_pure { h with length_le := Nat.le_succ_of_le h.length_le }
  · rename_i hnew
    refine Gen.ensures_pure ⟨?_, ?_, ?_, ?_⟩
    · have hderived : signerIds = keys.map (accountIdForKey M.toKeys) := h.derived
      simp [hderived]
    · have hnodup := List.Nodup.concat hnew h.nodup
      rwa [List.concat_eq_append] at hnodup
    · intro id hid
      rw [List.mem_append, List.mem_singleton] at hid
      cases hid with
      | inl hid => exact h.listed id hid
      | inr hid => exact ⟨account, haccount, hid⟩
    · have hlen : signerIds.length ≤ k := h.length_le
      rw [List.length_append, List.length_singleton]
      omega

theorem arbSigners_ensures : (arbSigners u accounts).Ensures
    (SignersWF accounts (min accounts.length 3)) := by
  have hcount : (arbSignerCount u (min accounts.length 3)).Ensures
      (· ≤ min accounts.length 3) := by
    unfold arbSignerCount
    split
    · exact Gen.ensures_pure (Nat.zero_le _)
    · refine Gen.ensures_bind_any fun byte => Gen.ensures_pure ?_
      exact Nat.le_of_lt_succ (Nat.mod_lt _ (Nat.succ_pos _))
  refine Gen.ensures_bind hcount fun nSigners hle => ?_
  have hinit : SignersWF accounts 0 (([], []) : List M.PrivateKey × List AccountId) := by
    exact ⟨rfl, List.nodup_nil, List.forall_mem_nil _, Nat.le_refl 0⟩
  -- the loop runs `nSigners` times, which is at most the bound
  have hloop := Gen.ensures_iterate (signers_step (u := u)) nSigners hinit
  intro s signers s' hrun
  have hwf := hloop s signers s' hrun
  have hlen := hwf.length_le
  exact { hwf with length_le := by omega }

/-- The owners after at most `k` iterations. -/
structure OwnersWF (k : ℕ) (ids : List AccountId) : Prop where
  nodup : ids.Nodup
  length_le : ids.length ≤ k

theorem arbPublicAccountIds_ensures {signerIds : List AccountId} (hnd : signerIds.Nodup)
    (hlen : signerIds.length ≤ 3) :
    (arbPublicAccountIds u accounts signerIds).Ensures (OwnersWF 6) := by
  refine Gen.ensures_bind_any fun withSigners => Gen.ensures_bind_any fun byte => ?_
  -- the signers are at most three, and the loop adds at most three more
  have hinit : OwnersWF 3 (if withSigners then signerIds else []) := by
    split
    · exact ⟨hnd, hlen⟩
    · exact ⟨List.nodup_nil, Nat.zero_le _⟩
  have hstep : ∀ k ids, OwnersWF k ids →
      (arbPublicAccountIds.step u accounts ids).Ensures (OwnersWF (k + 1)) := by
    intro k ids h
    refine Gen.ensures_bind_any fun id => ?_
    split
    · exact Gen.ensures_pure { h with length_le := Nat.le_succ_of_le h.length_le }
    · rename_i hnew
      have hlen := h.length_le
      refine Gen.ensures_pure ⟨?_, ?_⟩
      · rw [← List.concat_eq_append]
        exact List.Nodup.concat hnew h.nodup
      · rw [List.length_append, List.length_singleton]
        omega
  have hloop := Gen.ensures_iterate hstep (byte.toNat % 4) hinit
  intro s ids s' hrun
  have hwf := hloop s ids s' hrun
  have hle := hwf.length_le
  exact ⟨hwf.nodup, by omega⟩

/-- Public actions of the given owners, with few effects each. -/
theorem arbPublicActions_ensures (ids : List AccountId) :
    (Gen.traverse (arbPublicAction P C u) ids).Ensures fun publicActions =>
      publicActions.map (·.accountId) = ids ∧ ∀ action ∈ publicActions,
        action.effects.length ≤ 2 := by
  have haction : ∀ id, (arbPublicAction P C u id).Ensures fun action =>
      action.accountId = id ∧ action.effects.length ≤ 2 := by
    intro id
    refine Gen.ensures_bind (P := fun effects => effects.length ≤ 2) ?_ fun effects heffects =>
      Gen.ensures_pure ⟨rfl, heffects⟩
    refine Gen.ensures_bind_any fun byte => ?_
    intro s effects s' hrun
    have hall := Gen.ensures_traverse (fun _ => Gen.ensures_true _) _ s effects s' hrun
    have hlen := hall.length_eq
    have hmod : byte.toNat % 3 < 3 := Nat.mod_lt _ (by omega)
    rw [List.length_replicate] at hlen
    omega
  intro s publicActions s' hrun
  have hall := Gen.ensures_traverse haction ids s publicActions s' hrun
  -- owners and effects are read off the draws one by one
  clear hrun
  induction hall with
  | nil => exact ⟨rfl, List.forall_mem_nil _⟩
  | cons hhead _ ih =>
    rw [List.map_cons, List.forall_mem_cons, hhead.1, ih.1]
    exact ⟨rfl, hhead.2, ih.2⟩

/-- The private actions after `k` iterations: what is left of `k` candidates. -/
def SelectedFrom (k : ℕ) (actions : List (PrivateAction P.toPrivacyTypes)) : Prop :=
  ∃ candidates : List (PrivateAction P.toPrivacyTypes),
    candidates.length = k ∧ candidates.foldl pushPrivateActionIfUnique [] = actions

/-- The loop over private actions selects from one to three draws; the fallback action is
    what is left of itself. -/
theorem arbPrivateActions_selects (liveRoot : CommitmentSetDigest) :
    (arbPrivateActions P u liveRoot).Ensures fun actions =>
      ∃ k, 1 ≤ k ∧ k ≤ 3 ∧ SelectedFrom k actions := by
  refine Gen.ensures_bind_any fun byte => ?_
  have hstep : ∀ k actions, SelectedFrom k actions →
      (arbPrivateActions.step P u liveRoot actions).Ensures (SelectedFrom (k + 1)) := by
    rintro k actions ⟨candidates, hlen, rfl⟩
    refine Gen.ensures_bind_any fun action => Gen.ensures_pure ⟨candidates ++ [action], ?_, ?_⟩
    · rw [List.length_append, hlen, List.length_singleton]
    · rw [List.foldl_append, List.foldl_cons, List.foldl_nil]
  have hinit : SelectedFrom 0 ([] : List (PrivateAction P.toPrivacyTypes)) := ⟨[], rfl, rfl⟩
  have hmod : byte.toNat % 4 < 4 := Nat.mod_lt _ (by omega)
  refine Gen.ensures_bind (Gen.ensures_iterate hstep (byte.toNat % 4) hinit)
    fun actions hactions => ?_
  split
  · exact Gen.ensures_bind_any fun action =>
      Gen.ensures_pure ⟨1, Nat.le_refl 1, by omega, [action], rfl, rfl⟩
  · rename_i hne
    refine Gen.ensures_pure ⟨0 + byte.toNat % 4, ?_, by omega, hactions⟩
    -- without a step nothing would have been kept
    rw [Nat.one_le_iff_ne_zero]
    intro hzero
    obtain ⟨candidates, hlen, rfl⟩ := hactions
    rw [hzero, List.length_eq_zero_iff] at hlen
    exact hne (by rw [hlen]; rfl)

theorem arbPrivateActions_ensures (liveRoot : CommitmentSetDigest) :
    (arbPrivateActions P u liveRoot).Ensures fun actions =>
      ActionsUnique actions ∧ 1 ≤ actions.length ∧ actions.length ≤ 3 := by
  intro s actions s' hrun
  obtain ⟨k, hone, hthree, candidates, hlen, hselected⟩ :=
    arbPrivateActions_selects liveRoot s actions s' hrun
  refine ⟨(foldl_push_eq_iff.mp hselected).1, ?_, ?_⟩
  · have hne : candidates ≠ [] := List.ne_nil_of_length_pos (by omega)
    rw [foldl_push_eq] at hselected
    exact List.length_pos_iff.mpr fun hnil =>
      hne ((List.greedy_eq_nil_iff Clash).mp (hselected.trans hnil))
  · have hle := (List.greedy_sublist Clash candidates).length_le
    rw [← foldl_push_eq, hselected] at hle
    omega

end Loops

/-! ## The generated transactions -/

/-- The validator's structural checks on a message and its signers. -/
structure MessageWF {M : Machine} {P : PrivacyCrates M} (state : M.State)
    (accounts : List (FuzzAccount M.toKeys)) (message : PPMessage P.toPrivacyTypes)
    (signerIds : List AccountId) : Prop where
  signers_nodup : signerIds.Nodup
  signers_length_le : signerIds.length ≤ min 3 accounts.length
  signers_listed : ∀ id ∈ signerIds, ∃ acc ∈ accounts,
    id = accountIdForKey M.toKeys acc.privateKey
  nonces : message.nonces = signerIds.map (M.nonce state)
  owners_nodup : (message.publicActions.map (·.accountId)).Nodup
  publicActions_length_le : message.publicActions.length ≤ 6
  effects_length_le : ∀ action ∈ message.publicActions, action.effects.length ≤ 2
  one_le_privateActions : 1 ≤ message.privateActions.length
  privateActions_length_le : message.privateActions.length ≤ 3
  nullifiers_nodup : (message.privateActions.map (·.nullifier)).Nodup
  commitments_nodup : (message.privateActions.map (·.commitment)).Nodup
  programImageClaims : message.programImageClaims = []

/-- `WitnessSet::for_message` makes one pair for each key, in order. -/
def WitnessPerKey {M : Machine} (P : PrivacyCrates M) : Prop :=
  ∀ message proof keys,
    (M.privacyPreservingWitness
      (P.newTransaction message (P.witnessSetForMessage message proof keys))).map Prod.snd =
      keys.map M.newFromPrivateKey

section Transactions

variable {M : Machine} {P : PrivacyCrates M} {C : EffectCrates P.toPrivacyTypes}
  {u : Unstructured}

/-- Every message is well formed for the signers it is returned with. -/
theorem arbMessage_ensures (state : M.State) (accounts : List (FuzzAccount M.toKeys)) :
    (arbMessage P C u state accounts).Ensures fun drawn =>
      MessageWF state accounts drawn.1 drawn.2.2 ∧
        drawn.2.2 = drawn.2.1.map (accountIdForKey M.toKeys) := by
  refine Gen.ensures_bind arbSigners_ensures fun signers hsigners => ?_
  obtain ⟨keys, signerIds⟩ := signers
  have hthree : signerIds.length ≤ 3 :=
    Nat.le_trans hsigners.length_le (Nat.min_le_right _ _)
  refine Gen.ensures_bind (arbPublicAccountIds_ensures hsigners.nodup hthree) fun ids hids => ?_
  refine Gen.ensures_bind (arbPublicActions_ensures ids) fun publicActions hpublic => ?_
  refine Gen.ensures_bind (arbPrivateActions_ensures _) fun privateActions hprivate => ?_
  refine Gen.ensures_bind_any fun blockWindow => Gen.ensures_bind_any fun timeWindow => ?_
  obtain ⟨howners, heffects⟩ := hpublic
  obtain ⟨hunique, hone, hle⟩ := hprivate
  refine Gen.ensures_pure ⟨?_, hsigners.derived⟩
  exact {
    signers_nodup := hsigners.nodup
    signers_length_le := Nat.min_comm 3 _ ▸ hsigners.length_le
    signers_listed := hsigners.listed
    nonces := rfl
    owners_nodup := howners ▸ hids.nodup
    publicActions_length_le := by
      have hlen := congrArg List.length howners
      rw [List.length_map] at hlen
      exact hlen ▸ hids.length_le
    effects_length_le := heffects
    one_le_privateActions := hone
    privateActions_length_le := hle
    nullifiers_nodup := hunique.nullifiers
    commitments_nodup := hunique.commitments
    programImageClaims := rfl }

/-- The validator derives the signers from the keys a transaction was signed with. -/
theorem signerAccountIds_newTransaction (hwit : WitnessPerKey P)
    (message : PPMessage P.toPrivacyTypes) (proof : Proof) (keys : List M.PrivateKey) :
    signerAccountIds M (.PrivacyPreserving
        (P.newTransaction message (P.witnessSetForMessage message proof keys))) =
      keys.map (accountIdForKey M.toKeys) := by
  have hkeys := congrArg (List.map M.accountIdFrom) (hwit message proof keys)
  rw [List.map_map, List.map_map] at hkeys
  exact hkeys

/-- A proof is the synthesised one, except in the garbage branch. -/
theorem arbProof_eq_ok {message : PPMessage P.toPrivacyTypes} {state : M.State}
    {signerIds : List AccountId} {s s' : u.Bytes} {proof : Proof}
    (h : arbProof P u message state signerIds s = (.ok proof, s')) :
    ∃ byte mid, u.u8 s = (.ok byte, mid) ∧
      if byte.toNat % 8 = 0 then
        ∃ bytes, u.vecU8 mid = (.ok bytes, s') ∧ proof = Proof.fromInner bytes
      else
        proof = synthesizePassingProof P message state signerIds := by
  obtain ⟨byte, mid, hbyte, hrest⟩ := Gen.exists_of_bind_eq_ok h
  refine ⟨byte, mid, hbyte, ?_⟩
  split at hrest
  · rename_i hgarbage
    obtain ⟨bytes, after, hbytes, hpure⟩ := Gen.exists_of_bind_eq_ok hrest
    obtain ⟨hproof, hstate⟩ := Prod.mk.inj hpure
    rw [if_pos hgarbage]
    exact ⟨bytes, hstate ▸ hbytes, (Except.ok.inj hproof).symm⟩
  · rename_i hpassing
    rw [if_neg hpassing]
    exact (Except.ok.inj (Prod.mk.inj hrest).1).symm

end Transactions

/-- Every generated privacy-preserving transaction is well formed: the generator never
    panics, and what it returns was built from a message that passes the structural checks
    for exactly the signers of its witness set, with the nonces these have in the state, and
    with the passing proof of message, state and signers unless the garbage branch was drawn. -/
theorem arbPrivacyPreservingTx_wellFormed {M : Machine} (P : PrivacyCrates M)
    (C : EffectCrates P.toPrivacyTypes) (hwit : WitnessPerKey P) (u : Unstructured)
    (hu : DrawsDoNotPanic u) (state : M.State) (accounts : List (FuzzAccount M.toKeys))
    (input : u.Bytes) :
    (∀ p rest, arbPrivacyPreservingTx P C u state accounts input ≠ (.error (.panic p), rest)) ∧
    ∀ tx rest, arbPrivacyPreservingTx P C u state accounts input = (.ok tx, rest) →
      ∃ message proof keys,
        tx = P.newTransaction message (P.witnessSetForMessage message proof keys) ∧
        let signers := signerAccountIds M (.PrivacyPreserving tx)
        MessageWF state accounts message signers ∧
        ∃ mid byte after, arbMessage P C u state accounts input =
            (.ok (message, keys, signers), mid) ∧
          u.u8 mid = (.ok byte, after) ∧
          if byte.toNat % 8 = 0 then
            ∃ bytes, u.vecU8 after = (.ok bytes, rest) ∧ proof = Proof.fromInner bytes
          else
            proof = synthesizePassingProof P message state signers := by
  refine ⟨fun p rest hpanic => ?_, fun tx rest hrun => ?_⟩
  -- every failure is an error of a draw, never a panic
  · obtain ⟨a, ha⟩ := arbPrivacyPreservingTx_failsWith hu state accounts input _ rest hpanic
    cases ha
  · obtain ⟨drawn, mid, hdrawn, hrun⟩ := Gen.exists_of_bind_eq_ok hrun
    obtain ⟨message, keys, signerIds⟩ := drawn
    obtain ⟨proof, after, hproof, hpure⟩ := Gen.exists_of_bind_eq_ok hrun
    obtain ⟨htx, hstate⟩ := Prod.mk.inj hpure
    obtain rfl := Except.ok.inj htx
    obtain ⟨hwf, hderived⟩ := arbMessage_ensures state accounts input _ mid hdrawn
    have hsigners := signerAccountIds_newTransaction hwit message proof keys
    simp only at hderived
    refine ⟨message, proof, keys, rfl, ?_⟩
    intro signers
    have heq : signers = signerIds := hsigners.trans hderived.symm
    rw [heq]
    obtain ⟨byte, next, hbyte, hcase⟩ := arbProof_eq_ok hproof
    exact ⟨hwf, mid, byte, next, hdrawn, hbyte, hstate ▸ hcase⟩

/-! ## A generated transaction -/

/-- Native effects as a tag and the low byte of the amount, and no bounded windows. -/
def plainEffects : EffectCrates plainCrates.toPrivacyTypes where
  nativeTokenProgramId := ⟨0⟩
  effectToVec
    | .Debit amount => [0, amount.setWidth 8]
    | .Credit amount => [1, amount.setWidth 8]
  validityWindowTryFrom _ := some ()

theorem plainCrates_witnessPerKey : WitnessPerKey plainCrates := by
  intro message proof keys
  exact List.map_map.trans (List.map_congr_left fun _ _ => rfl)

theorem countingDraws_doNotPanic : DrawsDoNotPanic countingDraws where
  u8 _ _ _ h := nomatch (Prod.mk.inj h).1
  u128 _ _ _ h := nomatch (Prod.mk.inj h).1
  bool _ _ _ h := nomatch (Prod.mk.inj h).1
  bytes32 _ _ _ h := nomatch (Prod.mk.inj h).1
  vecU8 _ _ _ h := nomatch (Prod.mk.inj h).1

/-- Draws from 2 on give a transaction with two signers that own its public actions. -/
theorem arbPrivacyPreservingTx_wellFormed_counting : ∃ tx rest,
    arbPrivacyPreservingTx plainCrates plainEffects countingDraws emptyPool twoSigners (2 : ℕ) =
      (.ok tx, rest) ∧
    signerAccountIds plainShielded (.PrivacyPreserving tx) = [⟨2⟩, ⟨1⟩] ∧
    (signerAccountIds plainShielded (.PrivacyPreserving tx)).Nodup := by
  have hrun := (arbPrivacyPreservingTx_wellFormed plainCrates plainEffects
    plainCrates_witnessPerKey countingDraws countingDraws_doNotPanic emptyPool twoSigners
    (2 : ℕ)).2 _ _ rfl
  obtain ⟨message, proof, keys, _, hwf, _⟩ := hrun
  exact ⟨_, _, rfl, rfl, hwf.signers_nodup⟩

end LezFuzzing.Spec
