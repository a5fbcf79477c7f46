import LezFuzzing.Native.SplitPath
import LezFuzzing.Spec.InvariantsCorrect
import LezFuzzing.Spec.ReferenceCorrect

/-!
# What the split path is said to do

The targets that take a transaction through validation and application state what they
expect of the two halves: together they do what execution does (`HalvesAgree`), and the
second half writes the declared accounts and then increments the nonce of every signer
(`TwoStep`). `plainSplit` is a machine with these laws.

## Key results

- `foldl_incrementNonce_of_mem` / `foldl_incrementNonce_of_notMem`: an account after application
- `plainSplit_twoStep`, `plainSplit_conserves`: the laws hold of a machine
-/

namespace LezFuzzing.Spec

open LezFuzzing.Native Ledger

/-! ## The laws -/

/-- Step 1: write the declared accounts. -/
def writeDiff {Data : Type} (publicDiff : HashMap AccountId (Account Data))
    (accounts : AccountId → Account Data) : AccountId → Account Data := fun id =>
  (publicDiff.lookup id).getD (accounts id)

/-- Step 2, for one signer: increment its nonce. -/
def incrementNonce {Data : Type} (accounts : AccountId → Account Data) (signer : AccountId) :
    AccountId → Account Data := fun id =>
  if id = signer then { accounts id with nonce := (accounts id).nonce + 1 } else accounts id

/-- Execution succeeds exactly when validation does, and then applies the validated diff. -/
structure HalvesAgree (S : SplitMachine) : Prop where
  isOk_execute : ∀ tx state blockId timestamp,
    (S.executeCheckOnState tx state blockId timestamp).1.isOk =
      (S.validateOnState tx state blockId timestamp).isOk
  state_execute : ∀ tx state blockId timestamp diff,
    S.validateOnState tx state blockId timestamp = .ok diff →
      (S.executeCheckOnState tx state blockId timestamp).2 = S.applyStateDiff state diff

/-- Application takes the two documented steps, and execution hands back a transaction
    with the same signers. -/
structure TwoStep (S : SplitMachine) : Prop extends HalvesAgree S where
  signers_execute : ∀ tx state blockId timestamp appliedTx,
    (S.executeCheckOnState tx state blockId timestamp).1 = .ok appliedTx →
      signerAccountIds S.toMachine appliedTx = signerAccountIds S.toMachine tx
  accounts_applyStateDiff : ∀ tx state blockId timestamp diff,
    S.validateOnState tx state blockId timestamp = .ok diff →
      S.getAccountById (S.applyStateDiff state diff) =
        (signerAccountIds S.toMachine tx).foldl incrementNonce
          (writeDiff (S.publicDiff diff) (S.getAccountById state))

/-- A validated diff leaves every known balance decodable and conserves their total. -/
def Conserves (S : SplitMachine) (initAccs : List (AccountId × U128)) : Prop :=
  ∀ tx state blockId timestamp diff, S.validateOnState tx state blockId timestamp = .ok diff →
    (∀ id ∈ knownIds initAccs (S.publicDiff diff), (S.balance state id).isSome) →
    (∀ id ∈ knownIds initAccs (S.publicDiff diff),
      (S.balance (S.applyStateDiff state diff) id).isSome) ∧
    totalNat S.toMachine (S.applyStateDiff state diff) (knownIds initAccs (S.publicDiff diff)) =
      totalNat S.toMachine state (knownIds initAccs (S.publicDiff diff))

theorem mem_knownIds {Data : Type} {initAccs : List (AccountId × U128)}
    {publicDiff : HashMap AccountId (Account Data)} {id : AccountId} :
    id ∈ knownIds initAccs publicDiff ↔ id ∈ initAccs.map Prod.fst ∨ id ∈ publicDiff := by
  rw [knownIds, List.mem_dedup, List.mem_append, AList.mem_keys]

/-! ## An account after application -/

section Application

variable {Data : Type} {accounts : AccountId → Account Data}

/-- An account that did not sign keeps its value. -/
theorem foldl_incrementNonce_of_notMem {signers : List AccountId} {id : AccountId}
    (h : id ∉ signers) : signers.foldl incrementNonce accounts id = accounts id := by
  induction signers generalizing accounts with
  | nil => rfl
  | cons signer signers ih =>
    rw [List.mem_cons, not_or] at h
    rw [List.foldl_cons, ih h.2, incrementNonce, if_neg h.1]

/-- Incrementing nonces changes no data. -/
theorem foldl_incrementNonce_data (signers : List AccountId) (id : AccountId) :
    (signers.foldl incrementNonce accounts id).data = (accounts id).data := by
  induction signers generalizing accounts with
  | nil => rfl
  | cons signer signers ih =>
    rw [List.foldl_cons, ih, incrementNonce]
    split <;> rfl

/-- A signer that signed once is incremented once. -/
theorem foldl_incrementNonce_of_mem {signers : List AccountId} (hnd : signers.Nodup)
    {id : AccountId} (h : id ∈ signers) :
    (signers.foldl incrementNonce accounts id).nonce = (accounts id).nonce + 1 := by
  induction signers generalizing accounts with
  | nil => exact nomatch h
  | cons signer signers ih =>
    rw [List.nodup_cons] at hnd
    rw [List.foldl_cons]
    by_cases hid : id = signer
    · subst hid
      rw [foldl_incrementNonce_of_notMem hnd.1, incrementNonce, if_pos rfl]
    · have hmem : id ∈ signers := (List.mem_cons.mp h).resolve_left hid
      rw [ih hnd.2 hmem, incrementNonce, if_neg hid]

theorem writeDiff_of_mem {publicDiff : HashMap AccountId (Account Data)} {id : AccountId}
    {account : Account Data} (h : publicDiff.lookup id = some account) :
    writeDiff publicDiff accounts id = account := by
  rw [writeDiff, h, Option.getD_some]

theorem writeDiff_of_notMem {publicDiff : HashMap AccountId (Account Data)} {id : AccountId}
    (h : id ∉ publicDiff) : writeDiff publicDiff accounts id = accounts id := by
  rw [writeDiff, AList.lookup_eq_none.mpr h, Option.getD_none]

end Application

/-! ## Comparing a state with itself -/

/-- A state agrees with itself on every account. -/
theorem assertSameAccount_self (M : Machine) (diverges : Divergence) (state : M.State)
    (ids : List AccountId) :
    ids.forM (assertSameAccount M diverges state state) = .ok () := by
  refine Except.forM_eq_ok_iff.mpr fun id _ => ?_
  simp [assertSameAccount, Except.assert]

/-! ## An instance that runs -/

section PlainSplit

/-- Private transactions of this instance are lists of signers that touch no account. -/
abbrev PlainTx := LeeTransaction (NativeTransfer plainKeys ⊕ Unit) (List Bytes32)

/-- Both accounts of a transfer with their new balances; the nonces stay as they are. -/
def transferEntries (state : ReferenceState) (t : NativeTransfer plainKeys) :
    List (AccountId × Account U128) :=
  [(t.sender, ⟨(state t.sender).nonce, (state t.sender).data - t.amount⟩),
    (t.recipient, ⟨(state t.recipient).nonce, (state t.recipient).data + t.amount⟩)]

/-- The public diff of a transfer. -/
def transferDiff (state : ReferenceState) (t : NativeTransfer plainKeys) :
    HashMap AccountId (Account U128) :=
  AList.ofPairs (transferEntries state t)

/-- An account that may sign for every sender. -/
def plainDelegate : AccountId := ⟨3⟩

/-- A transfer is valid by the native-transfer rules if its sender or the delegate signed it. -/
def plainValidate (state : ReferenceState) :
    PlainTx → Except Unit (HashMap AccountId (Account U128) × List AccountId)
  | .Public (.inl t) =>
    let signer := accountIdForKey plainKeys t.privateKey
    if t.Valid state ∧ (signer = t.sender ∨ signer = plainDelegate) then
      .ok (transferDiff state t, [signer])
    else
      .error ()
  | .Public (.inr ()) => .error ()
  | .PrivacyPreserving signers => .ok (∅, signers.map AccountId.mk)

/-- The two documented steps, on a diff and its signers. -/
def plainApply (state : ReferenceState)
    (diff : HashMap AccountId (Account U128) × List AccountId) : ReferenceState :=
  diff.2.foldl incrementNonce (writeDiff diff.1 state)

/-- Validation followed by application. -/
def plainExecute (state : ReferenceState) (tx : PlainTx) : Except Unit PlainTx × ReferenceState :=
  match plainValidate state tx with
  | .ok diff => (.ok tx, plainApply state diff)
  | .error e => (.error e, state)

/-- A machine over `plainKeys` with these two halves. -/
@[reducible] def plainSplit : SplitMachine where
  toMachine := { referenceMachine plainKeys ⟨Unit, List Bytes32, fun _ => [], id⟩ fun _ => true with
    executeCheckOnState := fun tx state _ _ => plainExecute state tx }
  ValidatedStateDiff := HashMap AccountId (Account U128) × List AccountId
  publicDiff := Prod.fst
  validateOnState tx state _ _ := plainValidate state tx
  applyStateDiff := plainApply
  debugError _ := "()"

theorem plainSplit_halvesAgree : HalvesAgree plainSplit where
  isOk_execute tx state _ _ := by
    show (plainExecute state tx).1.isOk = (plainValidate state tx).isOk
    unfold plainExecute
    cases plainValidate state tx <;> rfl
  state_execute tx state _ _ diff h := by
    have hvalid : plainValidate state tx = .ok diff := h
    show (plainExecute state tx).2 = plainApply state diff
    simp only [plainExecute, hvalid]

/-- The signers that a validated diff carries are those of the transaction. -/
theorem plainValidate_signers {state : ReferenceState} {tx : PlainTx}
    {diff : HashMap AccountId (Account U128) × List AccountId}
    (h : plainValidate state tx = .ok diff) :
    diff.2 = signerAccountIds plainSplit.toMachine tx := by
  cases tx with
  | Public tx =>
    cases tx with
    | inl t =>
      simp only [plainValidate] at h
      split at h
      · obtain rfl := Except.ok.inj h
        rfl
      · exact nomatch h
    | inr => exact nomatch h
  | PrivacyPreserving signers =>
    obtain rfl := Except.ok.inj h
    show signers.map AccountId.mk = (signers.map fun pk => ((), pk)).map fun w => ⟨w.2⟩
    rw [List.map_map, Function.comp_def]

theorem plainSplit_twoStep : TwoStep plainSplit where
  toHalvesAgree := plainSplit_halvesAgree
  signers_execute tx state _ _ appliedTx h := by
    have hexec : (plainExecute state tx).1 = .ok appliedTx := h
    unfold plainExecute at hexec
    split at hexec
    · obtain rfl := Except.ok.inj hexec
      rfl
    · exact nomatch hexec
  accounts_applyStateDiff tx state _ _ diff h := by
    rw [← plainValidate_signers h]
    rfl

/-- The balances after an application are the ones the diff writes. -/
theorem balance_plainApply (state : ReferenceState)
    (diff : HashMap AccountId (Account U128) × List AccountId) (id : AccountId) :
    plainSplit.balance (plainApply state diff) id = some (writeDiff diff.1 state id).data :=
  congrArg some (foldl_incrementNonce_data diff.2 id)

/-- A transfer's diff writes the balances of the settled transfer. -/
theorem writeDiff_transferDiff_data {state : ReferenceState} {t : NativeTransfer plainKeys}
    (hne : t.sender ≠ t.recipient) (id : AccountId) :
    (writeDiff (transferDiff state t) state id).data = (t.settle state id).data := by
  have hnd : ((transferEntries state t).map Prod.fst).Nodup := by simp [transferEntries, hne]
  unfold transferDiff
  by_cases hsrc : id = t.sender
  · subst hsrc
    rw [writeDiff_of_mem (AList.lookup_ofPairs_of_mem hnd List.mem_cons_self)]
    simp [NativeTransfer.settle]
  · by_cases hdst : id = t.recipient
    · subst hdst
      rw [writeDiff_of_mem (AList.lookup_ofPairs_of_mem hnd
        (List.mem_cons_of_mem _ List.mem_cons_self))]
      simp [NativeTransfer.settle, hne.symm]
    · have hnotMem : id ∉ AList.ofPairs (transferEntries state t) := by
        simp [AList.mem_ofPairs, transferEntries, hsrc, hdst]
      rw [writeDiff_of_notMem hnotMem]
      simp [NativeTransfer.settle, hsrc, hdst]

/-- Every diff of this machine conserves the total of the known accounts. -/
theorem plainSplit_conserves (initAccs : List (AccountId × U128)) :
    Conserves plainSplit initAccs := by
  intro tx state _ _ diff h _
  have hvalid : plainValidate state tx = .ok diff := h
  refine ⟨fun id _ => by rw [balance_plainApply]; rfl, ?_⟩
  -- the balances after the application, as one function
  have htotal : ∀ after : ReferenceState,
      (∀ id, (writeDiff diff.1 state id).data = (after id).data) →
      totalNat plainSplit.toMachine (plainApply state diff) (knownIds initAccs diff.1) =
        totalNat plainSplit.toMachine after (knownIds initAccs diff.1) := by
    intro after hafter
    exact totalNat_congr fun id _ => by rw [balance_plainApply, hafter]; rfl
  cases tx with
  | Public tx =>
    cases tx with
    | inl t =>
      simp only [plainValidate] at hvalid
      split at hvalid
      · rename_i hsigned
        obtain rfl := Except.ok.inj hvalid
        have hne := hsigned.1.1
        have hmem : ∀ id, id = t.sender ∨ id = t.recipient →
            id ∈ (knownIds initAccs (transferDiff state t)).toFinset := by
          intro id hid
          rw [List.mem_toFinset, mem_knownIds]
          exact .inr (by simpa [transferDiff, AList.mem_ofPairs, transferEntries] using hid)
        -- the settled transfer is one of the ledger, and both its accounts are known
        have hbook : (t.settle state).toBook.total
            (knownIds initAccs (transferDiff state t)).toFinset =
            state.toBook.total (knownIds initAccs (transferDiff state t)).toFinset := by
          rw [Book.total, settle_balance hsigned.1]
          exact total_apply (accepts_of_valid hsigned.1) (hmem _ (.inl rfl)) (hmem _ (.inr rfl))
        have hnd : (knownIds initAccs (transferDiff state t)).Nodup := List.nodup_dedup _
        rw [Book.total, List.sum_toFinset _ hnd, Book.total, List.sum_toFinset _ hnd] at hbook
        exact (htotal _ (writeDiff_transferDiff_data hne)).trans hbook
      · cases hvalid
    | inr => cases hvalid
  | PrivacyPreserving signers =>
    obtain rfl := Except.ok.inj hvalid
    exact htotal state fun id => by rw [writeDiff_of_notMem (AList.notMem_empty id)]

end PlainSplit

end LezFuzzing.Spec
