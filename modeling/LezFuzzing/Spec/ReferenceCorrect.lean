import LezFuzzing.Ledger.Book
import LezFuzzing.Spec.BlockSequenceCorrect
import LezFuzzing.Spec.GenesisCorrect
import LezFuzzing.Spec.ModelLedger

/-!
# The multi-transaction targets raise no false alarm

The reference machine books a valid transfer like a `Ledger.Book` and leaves every
other transaction without effect. From this the checks of every round follow: a rejected
call changes nothing, an accepted one conserves the total of the generated accounts,
increments its one signer, and consumes the nonce its replay would need.

## Key results

- `settle_toBook`: a valid transfer refines the ledger
- `round_reference`: a round of the reference machine is correct and keeps the supply
- `reference_never_panics`: no run from a generated genesis panics
-/

namespace LezFuzzing.Spec

open LezFuzzing.Native Ledger

/-! ## The reference machine is a ledger -/

/-- A reference state as a ledger. -/
def ReferenceState.toBook (state : ReferenceState) : Book AccountId where
  balance id := (state id).data.toNat
  nonce id := (state id).nonce.toNat

section Settle

variable {K : Keys} {state : ReferenceState} {t : NativeTransfer K}

def NativeTransfer.toTransfer (t : NativeTransfer K) : Transfer AccountId where
  src := t.sender
  dst := t.recipient
  nonce := t.nonce.toNat
  amount := t.amount.toNat

/-- A valid transfer is one the ledger accepts. -/
theorem accepts_of_valid (h : t.Valid state) : state.toBook.Accepts t.toTransfer :=
  ⟨congrArg BitVec.toNat h.2.1, h.2.2.1⟩

/-- Settling a valid transfer moves the balances as the ledger does. -/
theorem settle_balance (h : t.Valid state) :
    (t.settle state).toBook.balance = (state.toBook.apply t.toTransfer).balance := by
  obtain ⟨hne, _, hpay, hfit⟩ := h
  funext a
  by_cases hsrc : a = t.sender
  · have hdiff := BitVec.toNat_sub_of_le hpay
    simp [ReferenceState.toBook, Book.apply, NativeTransfer.toTransfer, NativeTransfer.settle,
      hsrc, hne, hdiff]
  · by_cases hdst : a = t.recipient
    · have hsum := BitVec.toNat_add_of_lt hfit
      simp [ReferenceState.toBook, Book.apply, NativeTransfer.toTransfer, NativeTransfer.settle,
        hdst, hne.symm, hsum]
    · simp [ReferenceState.toBook, Book.apply, NativeTransfer.toTransfer, NativeTransfer.settle,
        hsrc, hdst]

/-- Settling a valid transfer books it, as long as the sender's nonce can go on. -/
theorem settle_toBook (h : t.Valid state) (hnonce : (state t.sender).nonce.toNat + 1 < 2 ^ 128) :
    (t.settle state).toBook = state.toBook.apply t.toTransfer := by
  ext a
  · rw [settle_balance h]
  · by_cases hsrc : a = t.sender
    · simp only [ReferenceState.toBook, Book.apply, NativeTransfer.toTransfer,
        NativeTransfer.settle, hsrc, ↓reduceIte]
      exact BitVec.toNat_add_one_of_lt (by decide) hnonce
    · by_cases hdst : a = t.recipient
      · simp [ReferenceState.toBook, Book.apply, NativeTransfer.toTransfer, NativeTransfer.settle,
          hdst, h.1.symm]
      · simp [ReferenceState.toBook, Book.apply, NativeTransfer.toTransfer, NativeTransfer.settle,
          hsrc, hdst]

/-- A settled transfer is not valid again: its nonce is consumed. -/
theorem not_valid_settle (t : NativeTransfer K) (state : ReferenceState) :
    t.Valid state → ¬ t.Valid (t.settle state) := by
  rintro ⟨_, hnonce, _⟩ ⟨_, hnonce', _⟩
  have hnext : (t.settle state t.sender).nonce = (state t.sender).nonce + 1 := by
    simp [NativeTransfer.settle]
  rw [hnext, ← hnonce] at hnonce'
  exact BitVec.add_one_ne (by decide) t.nonce hnonce'.symm

end Settle

/-! ## One round -/

section Reference

variable {K : Keys} {O : OtherTransactions K}
  {statelessOk : LeeTransaction (NativeTransfer K ⊕ O.Pub) O.Priv → Bool}
  {accounts : List (FuzzAccount K)}

/-- A transfer between two of the accounts, signed by its sender. -/
def Listed (M : Machine) (accounts : List (FuzzAccount M.toKeys)) (tx : M.Tx) : Prop :=
  ∃ src ∈ accounts, ∃ dst ∈ accounts, ∃ nonce amount,
    tx = M.createTransactionNativeTokenTransfer src.accountId nonce dst.accountId amount
      src.privateKey

/-- The transfer generator draws listed transfers, self-transfers included. -/
theorem arbFuzzNativeTransfer_listed (M : Machine) (u : Unstructured)
    (accounts : List (FuzzAccount M.toKeys)) :
    (arbFuzzNativeTransfer M u accounts).Ensures (Listed M accounts) := by
  unfold arbFuzzNativeTransfer
  split
  · exact Gen.ensures_fail
  · refine Gen.ensures_bind_any fun fromByte => Gen.ensures_bind_any fun toByte =>
      Gen.ensures_bind_any fun biased => ?_
    cases biased with
    | true =>
      refine Gen.ensures_bind_any fun nonceByte => Gen.ensures_bind_any fun amountRaw => ?_
      exact Gen.ensures_pure ⟨_, List.get_mem _ _, _, List.get_mem _ _, _, _, rfl⟩
    | false =>
      refine Gen.ensures_bind_any fun nonce => Gen.ensures_bind_any fun amount => ?_
      exact Gen.ensures_pure ⟨_, List.get_mem _ _, _, List.get_mem _ _, _, _, rfl⟩

/-- The invariant of a run of the reference machine after `k` transactions: the total of
    the listed accounts is a supply that fits a `u128`, and no nonce exceeds `k`. -/
structure ReferenceInv (ids : List AccountId) (supply k : ℕ) (state : ReferenceState) : Prop where
  total : state.toBook.total ids.toFinset = supply
  supply_lt : supply < 2 ^ 128
  nonce_le : ∀ id, (state id).nonce.toNat ≤ k

theorem ReferenceInv.mono {ids : List AccountId} {supply k m : ℕ} {state : ReferenceState}
    (h : ReferenceInv ids supply k state) (hkm : k ≤ m) : ReferenceInv ids supply m state :=
  ⟨h.total, h.supply_lt, fun id => Nat.le_trans (h.nonce_le id) hkm⟩

/-- The checked total of a reference state is its ledger total. -/
theorem totalNat_reference {ids : List AccountId} (hnd : ids.Nodup) (state : ReferenceState) :
    totalNat (referenceMachine K O statelessOk) state ids = state.toBook.total ids.toFinset := by
  rw [Book.total, List.sum_toFinset _ hnd]
  rfl

variable (O statelessOk) in
/-- An accepted listed transfer keeps the invariant and passes every check. -/
private theorem transfer_correct (hwf : (ids accounts).Nodup) {supply k : ℕ}
    {state : ReferenceState} (hinv : ReferenceInv (ids accounts) supply k state)
    (hk : k + 1 < 2 ^ 128) {t : NativeTransfer K}
    (hvalid : t.Valid state) (hsrc : t.sender ∈ ids accounts) (hdst : t.recipient ∈ ids accounts)
    (hsigner : accountIdForKey K t.privateKey = t.sender) (replayContext : U64 × U64) :
    ReferenceInv (ids accounts) supply (k + 1) (t.settle state) ∧
      AcceptanceCorrect (referenceMachine K O statelessOk) (t.settle state)
        (recordedBalances (referenceMachine K O statelessOk) state (ids accounts))
        (nonceSnapshot (referenceMachine K O statelessOk) state (ids accounts))
        (.Public (.inl t)) replayContext := by
  have hnonce := hinv.nonce_le t.sender
  have hbook := settle_toBook hvalid (by omega)
  have htotal : (t.settle state).toBook.total (ids accounts).toFinset =
      supply := by
    rw [hbook, ← hinv.total]
    exact total_apply (accepts_of_valid hvalid) (List.mem_toFinset.mpr hsrc)
      (List.mem_toFinset.mpr hdst)
  have hnonceAt : ∀ id, (t.settle state id).nonce.toNat =
      (state id).nonce.toNat + if id = t.sender then 1 else 0 := fun id =>
    congrFun (congrArg Book.nonce hbook) id
  have hbefore : snapshotTotal (recordedBalances (referenceMachine K O statelessOk) state
      (ids accounts)) = supply := by
    rw [snapshotTotal_recordedBalances hwf, totalNat_reference hwf, hinv.total]
  have hafter : totalNat (referenceMachine K O statelessOk) (t.settle state)
      (recordedBalances (referenceMachine K O statelessOk) state (ids accounts)).balances.keys =
      supply := by
    rw [totalNat_keys hwf, totalNat_reference hwf, htotal]
  constructor
  · refine ⟨htotal, hinv.supply_lt, fun id => ?_⟩
    have hid := hinv.nonce_le id
    rw [hnonceAt]
    split <;> omega
  · exact {
      decodes := fun _ _ => rfl
      fits_before := hbefore ▸ hinv.supply_lt
      fits_after := hafter ▸ hinv.supply_lt
      conserved := hbefore.trans hafter.symm
      incremented := by
        intro id hid n hlook
        -- the only signer is the sender
        obtain rfl : id = t.sender := by
          rw [← hsigner]
          exact List.mem_singleton.mp hid
        rw [lookup_nonceSnapshot, if_pos hsrc, Option.some.injEq] at hlook
        have hnext := hnonceAt t.sender
        rw [if_pos rfl] at hnext
        rw [← hlook]
        exact ⟨by show (state t.sender).nonce.toNat < _; omega, hnext⟩
      replay_rejected := by
        show (if t.Valid (t.settle state) then _ else _ : Except Unit _ × ReferenceState).1.isOk = _
        rw [if_neg (not_valid_settle t state hvalid)]
        rfl }

/-- A call the reference machine rejects leaves every account alone. -/
private theorem rejection_correct (state : ReferenceState) (ids : List AccountId) :
    RejectionCorrect (referenceMachine K O statelessOk) state
      (recordedBalances (referenceMachine K O statelessOk) state ids)
      (nonceSnapshot (referenceMachine K O statelessOk) state ids) where
  balance id b hlook := by
    rw [lookup_recordedBalances] at hlook
    split at hlook
    · exact hlook
    · exact nomatch hlook
  nonce id n hlook := by
    rw [lookup_nonceSnapshot] at hlook
    split at hlook
    · exact Option.some.inj hlook
    · exact nomatch hlook

/-- The reference machine either books a valid transfer or changes nothing. -/
private theorem execute_cases (tx : (referenceMachine K O statelessOk).Tx) (state : ReferenceState)
    (blockId timestamp : U64) :
    (∃ t : NativeTransfer K, tx = .Public (.inl t) ∧ t.Valid state ∧
      (referenceMachine K O statelessOk).executeCheckOnState tx state blockId timestamp =
        (.ok tx, t.settle state)) ∨
    (referenceMachine K O statelessOk).executeCheckOnState tx state blockId timestamp =
      (.error (), state) := by
  cases tx with
  | PrivacyPreserving tx => exact Or.inr rfl
  | Public tx =>
    cases tx with
    | inr tx => exact Or.inr rfl
    | inl t =>
      by_cases hvalid : t.Valid state
      · exact Or.inl ⟨t, rfl, hvalid, if_pos hvalid⟩
      · exact Or.inr (if_neg hvalid)

/-- A transaction that is a listed transfer or rejected in this state. -/
def Admissible (accounts : List (FuzzAccount K)) (state : ReferenceState)
    (tx : (referenceMachine K O statelessOk).Tx) : Prop :=
  Listed (referenceMachine K O statelessOk) accounts tx ∨ ∀ blockId timestamp,
    ((referenceMachine K O statelessOk).executeCheckOnState tx state blockId timestamp).1.isOk =
      false

/-- A round of an admissible transaction is correct and keeps the invariant. -/
theorem round_reference {reserved : List AccountId} (hwf : FuzzAccountsWF reserved accounts)
    {supply k : ℕ} {state : ReferenceState} (hinv : ReferenceInv (ids accounts) supply k state)
    (hk : k + 1 < 2 ^ 128)
    {txRaw : (referenceMachine K O statelessOk).Tx} (hadm : Admissible accounts state txRaw)
    (blockId timestamp : U64) :
    RoundCorrect (ids accounts)
        (round (referenceMachine K O statelessOk) blockId timestamp state txRaw) ∧
      ReferenceInv (ids accounts) supply (k + 1)
        (round (referenceMachine K O statelessOk) blockId timestamp state txRaw).after := by
  rcases round_cases blockId timestamp state txRaw with hr | ⟨tx, hstateless, hround⟩
  · rw [hr]
    exact ⟨⟨nofun, nofun, nofun⟩, hinv.mono (Nat.le_succ k)⟩
  -- the stateless check hands the transaction back
  obtain rfl : tx = txRaw := by
    show tx = txRaw
    have hcheck : (if statelessOk txRaw then .ok txRaw else .error () :
        Except Unit (referenceMachine K O statelessOk).Tx) = .ok tx := hstateless
    split at hcheck
    · exact (Except.ok.inj hcheck).symm
    · exact nomatch hcheck
  rcases execute_cases tx state blockId timestamp with ⟨t, htx, hvalid, hexec⟩ | hexec
  · rcases hround with ⟨e, herr, _⟩ | ⟨appliedTx, hok, hr⟩
    · exact nomatch (congrArg Prod.fst hexec).symm.trans herr
    obtain rfl : tx = appliedTx := Except.ok.inj ((congrArg Prod.fst hexec).symm.trans hok)
    have hlisted : t.sender ∈ ids accounts ∧ t.recipient ∈ ids accounts ∧
        accountIdForKey K t.privateKey = t.sender := by
      cases hadm with
      | inr h => exact nomatch (congrArg (·.1.isOk) hexec).symm.trans (h blockId timestamp)
      | inl h =>
        obtain ⟨src, hsrc, dst, hdst, nonce, amount, hcreate⟩ := h
        have ht : t = ⟨src.accountId, nonce, dst.accountId, amount, src.privateKey⟩ :=
          Sum.inl.inj (LeeTransaction.Public.inj (htx.symm.trans hcreate))
        rw [ht]
        exact ⟨List.mem_map_of_mem hsrc, List.mem_map_of_mem hdst, (hwf.derived src hsrc).symm⟩
    obtain ⟨hinv', hcorrect⟩ := transfer_correct O statelessOk hwf.nodup hinv hk hvalid hlisted.1
      hlisted.2.1 hlisted.2.2 (blockId + 1, timestamp + 1)
    have hafter : (⟨tx, state, blockId, timestamp⟩ :
        Call (referenceMachine K O statelessOk)).after = t.settle state := congrArg Prod.snd hexec
    -- the replay finds the nonce consumed, and leaves the settled state
    have hreplay : (⟨tx, t.settle state, blockId + 1, timestamp + 1⟩ :
        Call (referenceMachine K O statelessOk)).after = t.settle state := by
      rw [Call.after, htx]
      exact congrArg Prod.snd (if_neg (not_valid_settle t state hvalid))
    simp only [hafter] at hr
    rw [hr, hreplay]
    refine ⟨(roundCorrect_ok_iff hok).mpr ⟨fun _ _ => rfl, ?_⟩, hinv'⟩
    rw [hafter, htx]
    exact hcorrect
  · rcases hround with ⟨e, herr, hr⟩ | ⟨appliedTx, hok, _⟩
    · have hafter : (⟨tx, state, blockId, timestamp⟩ :
          Call (referenceMachine K O statelessOk)).after = state := congrArg Prod.snd hexec
      rw [hr, hafter]
      refine ⟨(roundCorrect_error_iff herr).mpr ⟨fun _ _ => rfl, ?_⟩, hinv.mono (Nat.le_succ k)⟩
      rw [hafter]
      exact rejection_correct state (ids accounts)
    · exact nomatch (congrArg Prod.fst hexec).symm.trans hok

/-- Every round of a run of admissible transactions is correct. -/
private theorem rounds_reference {reserved : List AccountId}
    (hwf : FuzzAccountsWF reserved accounts) (timestampOf : ℕ → U64) {supply i : ℕ}
    {state : ReferenceState} (hinv : ReferenceInv (ids accounts) supply i state)
    (txs : List (referenceMachine K O statelessOk).Tx) (hlen : i + txs.length < 2 ^ 128)
    (hadm : ∀ before tx after, txs = before ++ tx :: after → Admissible accounts
      (endState (referenceMachine K O statelessOk) timestampOf i state before) tx) :
    (∀ r ∈ rounds (referenceMachine K O statelessOk) timestampOf i state txs,
      RoundCorrect (ids accounts) r) ∧
    ReferenceInv (ids accounts) supply (i + txs.length)
      (endState (referenceMachine K O statelessOk) timestampOf i state txs) := by
  induction txs generalizing i state with
  | nil => exact ⟨nofun, hinv⟩
  | cons txRaw txs ih =>
    rw [List.length_cons] at hlen
    obtain ⟨hround, hinv'⟩ := round_reference hwf hinv (by omega) (hadm [] txRaw txs rfl)
      (1 + .ofNat 64 i) (timestampOf i)
    obtain ⟨hrounds, hend⟩ := ih hinv' (by omega) fun before tx after hsplit =>
      hadm (txRaw :: before) tx after (by rw [hsplit, List.cons_append])
    rw [rounds, endState, List.forall_mem_cons, List.length_cons, Nat.add_comm txs.length,
      ← Nat.add_assoc]
    exact ⟨⟨hround, hrounds⟩, hend⟩

end Reference

/-! ## Whole runs -/

/-- A listed account is found under its id. -/
private theorem find?_eq_some {entries : List (AccountId × U128)}
    (hnd : (entries.map Prod.fst).Nodup) {entry : AccountId × U128} (h : entry ∈ entries) :
    entries.find? (fun e => e.1 = entry.1) = some entry := by
  induction entries with
  | nil => exact nomatch h
  | cons e entries ih =>
    rw [List.map_cons, List.nodup_cons] at hnd
    rw [List.mem_cons] at h
    cases h with
    | inl h => simp [h]
    | inr h =>
      have hne : e.1 ≠ entry.1 := fun heq => hnd.1 (heq ▸ List.mem_map_of_mem h)
      rw [List.find?_cons_of_neg (by simpa using hne)]
      exact ih hnd.2 h

/-- Genesis holds the listed balances and no nonces. -/
private theorem referenceInv_genesis {K : Keys} {reserved : List AccountId}
    {accounts : List (FuzzAccount K)} (hwf : FuzzAccountsWF reserved accounts) :
    ReferenceInv (ids accounts) (accounts.map (·.balance.toNat)).sum 0
      (.genesis (accounts.map fun a => (a.accountId, a.balance))) where
  total := by
    have hnd : (ids accounts).Nodup := hwf.nodup
    rw [Book.total, List.sum_toFinset _ hnd, ids, List.map_map]
    refine congrArg List.sum (List.map_congr_left fun acc hacc => ?_)
    have hfind := find?_eq_some (by rwa [List.map_map]) (List.mem_map_of_mem
      (f := fun a : FuzzAccount K => (a.accountId, a.balance)) hacc)
    simp only [Function.comp_apply, ReferenceState.toBook, ReferenceState.genesis, hfind,
      Option.map_some, Option.getD_some]
  supply_lt := hwf.sum_lt
  nonce_le _ := Nat.le_refl 0

/-- No false alarm: from the genesis balances of generated accounts, no sequence of
    transactions that are listed transfers or rejected when their turn comes makes either
    multi-transaction target panic. The bound on the length, far above the 16 that a target
    draws, keeps every nonce below `u128::MAX`. -/
theorem reference_never_panics {K : Keys} (O : OtherTransactions K)
    (statelessOk : LeeTransaction (NativeTransfer K ⊕ O.Pub) O.Priv → Bool) (u : Unstructured)
    (reserved : List AccountId) (input rest : u.Bytes) (accounts : List (FuzzAccount K))
    (hrun : arbitraryFuzzState K u reserved input = (.ok accounts, rest))
    (txs : List (referenceMachine K O statelessOk).Tx) (hlen : txs.length < 2 ^ 128) :
    let initAccs := accounts.map fun a => (a.accountId, a.balance)
    let genesis := ReferenceState.genesis initAccs
    let AllAdmissible := fun timestampOf : ℕ → U64 =>
      ∀ before tx after, txs = before ++ tx :: after → Admissible accounts
        (endState (referenceMachine K O statelessOk) timestampOf 0 genesis before) tx
    (AllAdmissible (fun i => .ofNat 64 i) →
      (fuzzStateTransition (referenceMachine K O statelessOk) initAccs genesis txs).Returns) ∧
    (AllAdmissible (fun i => .ofNat 64 i * 1000) →
      (fuzzMultiBlockStateSequence (referenceMachine K O statelessOk) initAccs genesis
        txs).Returns) := by
  intro initAccs genesis AllAdmissible
  have hwf := arbitraryFuzzState_wellFormed input accounts rest hrun
  have hnd : (ids accounts).Nodup := hwf.nodup
  have hids : initAccs.map Prod.fst = ids accounts := List.map_map
  have hgenesis := referenceInv_genesis hwf
  have hloop : ∀ timestampOf, AllAdmissible timestampOf →
      applyTransactions (referenceMachine K O statelessOk) initAccs timestampOf 0 genesis txs =
        .ok (endState (referenceMachine K O statelessOk) timestampOf 0 genesis txs) ∧
      ReferenceInv (ids accounts) (accounts.map (·.balance.toNat)).sum (0 + txs.length)
        (endState (referenceMachine K O statelessOk) timestampOf 0 genesis txs) := by
    intro timestampOf hadm
    obtain ⟨hrounds, hend⟩ := rounds_reference hwf timestampOf hgenesis txs (by omega) hadm
    exact ⟨applyTransactions_eq_ok_iff.mpr ⟨hids ▸ hrounds, rfl⟩, hend⟩
  constructor
  · intro hadm
    exact ⟨_, (hloop _ hadm).1⟩
  · intro hadm
    obtain ⟨hrun, hend⟩ := hloop _ hadm
    -- both totals are the supply
    obtain ⟨supply, hsupply⟩ := BitVec.exists_toNat_eq hwf.sum_lt
    have hsum : ∀ (k : ℕ) (state : ReferenceState) (overflow : Panic),
        ReferenceInv (ids accounts) (accounts.map (·.balance.toNat)).sum k state →
        sumNativeBalances (referenceMachine K O statelessOk) state (initAccs.map Prod.fst)
          overflow = .ok supply := by
      intro k state overflow hinv
      rw [hids, sumNativeBalances_eq_ok_iff, totalNat_reference hnd, hinv.total, hsupply]
      exact ⟨fun _ _ => rfl, rfl⟩
    have hstart := fun overflow => hsum 0 genesis overflow hgenesis
    have hfinal := fun overflow => hsum _ _ overflow hend
    rw [fuzzMultiBlockStateSequence, hstart, Except.ok_bind, hrun, Except.ok_bind, hfinal,
      Except.ok_bind, Except.returns_assert_bind_iff]
    exact ⟨rfl, Except.returns_ok _⟩

/-- A transfer, a transfer to oneself and an overdraft, between two counted accounts. -/
theorem reference_never_panics_counting :
    (fuzzMultiBlockStateSequence plainMachine [(⟨18⟩, 2), (⟨20⟩, 2)]
      (ReferenceState.genesis [(⟨18⟩, 2), (⟨20⟩, 2)])
      [.Public (.inl (plainTransfer 18 0 20 1)), .Public (.inl (plainTransfer 20 0 20 1)),
        .Public (.inl (plainTransfer 18 1 20 9))]).Returns := by
  refine (reference_never_panics ⟨Unit, Unit, fun _ => [], fun _ => []⟩ (fun _ => true)
    countingDraws [] (17 : ℕ) (22 : ℕ) [⟨⟨18⟩, 2, (18 : Bytes32)⟩, ⟨⟨20⟩, 2, (20 : Bytes32)⟩] rfl
    [.Public (.inl (plainTransfer 18 0 20 1)), .Public (.inl (plainTransfer 20 0 20 1)),
      .Public (.inl (plainTransfer 18 1 20 9))] (by decide)).2 ?_
  intro before tx after hsplit
  have hmem : tx ∈ before ++ tx :: after := List.mem_append_right _ List.mem_cons_self
  rw [← hsplit, List.mem_cons, List.mem_cons, List.mem_singleton] at hmem
  rcases hmem with rfl | rfl | rfl
  · exact Or.inl ⟨_, List.mem_cons_self, _, List.mem_cons_of_mem _ List.mem_cons_self, 0, 1, rfl⟩
  · exact Or.inl ⟨_, List.mem_cons_of_mem _ List.mem_cons_self, _,
      List.mem_cons_of_mem _ List.mem_cons_self, 0, 1, rfl⟩
  · exact Or.inl ⟨_, List.mem_cons_self, _, List.mem_cons_of_mem _ List.mem_cons_self, 1, 9, rfl⟩

end LezFuzzing.Spec
