import LezFuzzing.Spec.GenesisCorrect
import LezFuzzing.Spec.ModelLedger

/-!
# Command intents (`fuzz/fuzz_targets/fuzz_stateful_model_lockstep.rs`)

The comments on `NonceKind` and `AmountKind` say what each kind is meant to lead to. The
resolvers use wrapping and saturating arithmetic, which keeps to the intent except for a
balance of `u128::MAX`: no amount exceeds that one. The generator caps every balance at an
eighth, so the supply of at most eight accounts stays below `u128::MAX`, and with it every
balance that any schedule can reach.

## Key results

- `reach_modelRun`: a schedule that runs through has kept the accounts and the supply
- `balance_lt_of_reach`: no reached balance is `u128::MAX`
- `modelRun_intents`: every kind of command is predicted as it is meant
-/

namespace LezFuzzing.Spec

open LezFuzzing.Native Ledger

/-! ## Resolved nonces and amounts -/

/-- An offset is between 1 and 255, so that adding it changes every nonce. -/
theorem resolveNonce_off_ne (d : BitVec 8) (current : U128) :
    resolveNonce (.Off d) current ≠ current := by
  intro h
  have hnat := congrArg BitVec.toNat h
  have hd := d.isLt
  have hlt := current.isLt
  simp only [resolveNonce, BitVec.toNat_add, BitVec.toNat_ofNat] at hnat
  omega

/-- A remainder modulo the successor is within the balance. -/
theorem resolveAmount_withinBalance_le (raw balance : U128) :
    (resolveAmount (.WithinBalance raw) balance).toNat ≤ balance.toNat := by
  have hmod : (resolveAmount (.WithinBalance raw) balance).toNat =
      raw.toNat % (balance.saturatingAdd 1).toNat := BitVec.toNat_umod
  have hsat := BitVec.toNat_saturatingAdd balance 1
  have hone : (1 : U128).toNat = 1 := rfl
  have hlt := balance.isLt
  -- the successor sticks at the largest value, but it is never zero
  have hpos : 0 < (balance.saturatingAdd 1).toNat := by omega
  have hrem := Nat.mod_lt raw.toNat hpos
  omega

/-- Below the largest value there is something that exceeds the balance. -/
theorem lt_resolveAmount_excessive {balance : U128} (hmax : balance.toNat < 2 ^ 128 - 1)
    (raw : U128) : balance.toNat < (resolveAmount (.Excessive raw) balance).toNat := by
  have hsat := BitVec.toNat_saturatingAdd balance 1
  have hone : (1 : U128).toNat = 1 := rfl
  have hsum := BitVec.toNat_saturatingAdd (balance.saturatingAdd 1) (raw % 1024)
  simp only [resolveAmount]
  omega

/-! ## Reached models -/

section Reach

variable {K : Keys} {accs : LockstepAccounts K}

/-- What every reached model has in common with the first one. -/
structure Reach (accs : LockstepAccounts K) (model : Model) : Prop where
  inv : ModelInv (ids accs.accounts).toFinset model
  supply : (toBook model).total (ids accs.accounts).toFinset =
    (startBook accs).total (ids accs.accounts).toFinset

/-- One command keeps the accounts and the supply. -/
theorem Reach.modelStep (hnd : (ids accs.accounts).Nodup) {model model' : Model}
    {accepted accepted' : List TransferFields} (h : Reach accs model) (cmd : Command)
    (hstep : modelStep accs (model, accepted) cmd = .ok (model', accepted')) :
    Reach accs model' := by
  cases cmd with
  | AdvanceBlock jump =>
    obtain ⟨rfl, _⟩ := Prod.mk.inj (Except.ok.inj hstep)
    exact h
  | ReplayLast =>
    obtain ⟨rfl, _⟩ := Prod.mk.inj (Except.ok.inj hstep)
    exact h
  | Transfer src dst nonce amount =>
    have hbetween := resolve_between hnd model src dst nonce amount
    obtain ⟨model₁, hsubmit, hrest⟩ := Except.bind_eq_ok_iff.mp hstep
    obtain ⟨hinv, htotal⟩ := submit_conserves h.inv hbetween hsubmit
    -- accepted or not, the step returns the model of the submission
    have heq : model₁ = model' := by
      split at hrest
      · exact (Prod.mk.inj (Except.ok.inj hrest)).1
      · exact (Prod.mk.inj (Except.ok.inj hrest)).1
    subst heq
    exact ⟨hinv, htotal.trans h.supply⟩

/-- Every schedule keeps the accounts and the supply, as far as it runs. -/
theorem reach_foldlM (hnd : (ids accs.accounts).Nodup) {cmds : List Command} {model model' : Model}
    {accepted accepted' : List TransferFields} (h : Reach accs model)
    (hrun : cmds.foldlM (modelStep accs) (model, accepted) = .ok (model', accepted')) :
    Reach accs model' := by
  induction cmds generalizing model accepted with
  | nil =>
    obtain ⟨rfl, _⟩ := Prod.mk.inj (Except.ok.inj hrun)
    exact h
  | cons cmd cmds ih =>
    rw [List.foldlM_cons] at hrun
    obtain ⟨mid, hstep, hrest⟩ := Except.bind_eq_ok_iff.mp hrun
    exact ih (h.modelStep hnd cmd hstep) hrest

/-- A schedule that runs through ends in a reached model. -/
theorem reach_modelRun (hfunded : Funded accs.accounts) {cmds : List Command} {model : Model}
    {accepted : List TransferFields}
    (hrun : modelRun accs.accounts cmds = .ok (model, accepted)) : Reach accs model := by
  rw [modelRun, dif_pos accs.two_le] at hrun
  exact reach_foldlM hfunded.nodup ⟨(runInv_new hfunded).inv, rfl⟩ hrun

/-- Generated accounts have distinct ids and a supply that fits. -/
theorem FuzzAccountsWF.funded {reserved : List AccountId} {accounts : List (FuzzAccount K)}
    (h : FuzzAccountsWF reserved accounts) : Funded accounts where
  nodup := h.nodup
  supply := h.sum_lt

/-- The cap leaves a gap between the supply and the largest `u128`. -/
theorem balance_lt_of_reach {reserved : List AccountId}
    (hwf : FuzzAccountsWF reserved accs.accounts) {model : Model} (h : Reach accs model)
    {id : AccountId} (hid : id ∈ (ids accs.accounts).toFinset) :
    (model.balance id).toNat < 2 ^ 128 - 1 := by
  have hle : (model.balance id).toNat ≤ (toBook model).total (ids accs.accounts).toFinset :=
    Finset.single_le_sum (f := (toBook model).balance) (fun _ _ => Nat.zero_le _) hid
  have hsum := hwf.sum_le
  rw [h.supply, startBook_total hwf.nodup] at hle
  omega

end Reach

/-! ## Intents -/

/-- What the model predicts for a `Transfer` command. -/
def predicted {K : Keys} (accs : LockstepAccounts K) (model : Model) (src dst : BitVec 8)
    (nonce : NonceKind) (amount : AmountKind) : Predict :=
  let t := accs.resolve model src dst nonce amount
  model.predict t.fromId t.toId t.declaredNonce t.amount

section Predicted

variable {K : Keys} {accs : LockstepAccounts K} {model : Model} {src dst : BitVec 8}

/-- A command is accepted exactly when its nonce resolves to the sender's and its amount
    to one the sender has. -/
theorem predicted_isAccept_iff (hnd : (ids accs.accounts).Nodup) (h : Reach accs model)
    {nonce : NonceKind} {amount : AmountKind} :
    (predicted accs model src dst nonce amount).isAccept = true ↔
      resolveNonce nonce (model.nonce (accs.sender src).accountId) =
          model.nonce (accs.sender src).accountId ∧
        (resolveAmount amount (model.balance (accs.sender src).accountId)).toNat ≤
          (model.balance (accs.sender src).accountId).toNat := by
  have hbetween := resolve_between hnd model src dst nonce amount
  refine (predict_isAccept_iff h.inv hbetween).trans (and_congr_left' ?_)
  exact BitVec.toNat_inj

end Predicted

/-- Command intents mean what they say: for generated accounts, after any schedule that
    runs through, a correct nonce with an amount within the balance is predicted to be
    accepted, an excessive amount or an offset nonce to be rejected, and a raw amount is
    accepted exactly when the sender has it. -/
theorem modelRun_intents (K : Keys) (u : Unstructured) (reserved : List AccountId)
    (input rest : u.Bytes) (accounts : List (FuzzAccount K))
    (hgen : arbitraryFuzzState K u reserved input = (.ok accounts, rest))
    (htwo : 2 ≤ accounts.length) (cmds : List Command) (model : Model)
    (accepted : List TransferFields) (hrun : modelRun accounts cmds = .ok (model, accepted))
    (src dst : BitVec 8) :
    let accs : LockstepAccounts K := ⟨accounts, htwo⟩
    (predicted accs model src dst .Correct .Zero).isAccept = true ∧
    (∀ raw, (predicted accs model src dst .Correct (.WithinBalance raw)).isAccept = true) ∧
    (predicted accs model src dst .Correct .All).isAccept = true ∧
    (∀ raw, predicted accs model src dst .Correct (.Excessive raw) = .Reject) ∧
    (∀ d amount, predicted accs model src dst (.Off d) amount = .Reject) ∧
    ∀ x, (predicted accs model src dst .Correct (.Raw x)).isAccept = true ↔
      x ≤ model.balance (accs.sender src).accountId := by
  intro accs
  have hwf : FuzzAccountsWF reserved accs.accounts :=
    arbitraryFuzzState_wellFormed input accounts rest hgen
  have hreach : Reach accs model := reach_modelRun hwf.funded hrun
  have hnd : (ids accs.accounts).Nodup := hwf.nodup
  have hmax := balance_lt_of_reach hwf hreach (List.mem_toFinset.mpr (sender_mem_ids src))
  refine ⟨?_, fun raw => ?_, ?_, fun raw => ?_, fun d amount => ?_, fun x => ?_⟩
  · exact (predicted_isAccept_iff hnd hreach).mpr ⟨rfl, Nat.zero_le _⟩
  · exact (predicted_isAccept_iff hnd hreach).mpr ⟨rfl, resolveAmount_withinBalance_le _ _⟩
  · exact (predicted_isAccept_iff hnd hreach).mpr ⟨rfl, Nat.le_refl _⟩
  · rw [Predict.eq_reject_iff, predicted_isAccept_iff hnd hreach]
    intro h
    exact Nat.not_le.mpr (lt_resolveAmount_excessive hmax raw) h.2
  · rw [Predict.eq_reject_iff, predicted_isAccept_iff hnd hreach]
    intro h
    exact resolveNonce_off_ne d _ h.1
  · rw [predicted_isAccept_iff hnd hreach, BitVec.le_def]
    exact and_iff_right rfl

/-- The accounts that draws from 17 on give. -/
def countedAccounts : LockstepAccounts plainMachine.toKeys where
  accounts := [⟨⟨18⟩, 2, (18 : Bytes32)⟩, ⟨⟨20⟩, 2, (20 : Bytes32)⟩]
  two_le := by decide

/-- A sender that has transferred everything can still transfer nothing, with its new nonce. -/
theorem modelRun_intents_counted : ∃ model accepted,
    modelRun countedAccounts.accounts [.Transfer 0 0 .Correct .All] = .ok (model, accepted) ∧
    (predicted countedAccounts model 0 7 .Correct .Zero).isAccept = true :=
  ⟨_, _, rfl, (modelRun_intents plainMachine.toKeys countingDraws (reservedAccountIds plainGenesis)
    (17 : ℕ) (22 : ℕ) countedAccounts.accounts rfl (by decide)
    [.Transfer 0 0 .Correct .All] _ _ rfl 0 7).1⟩

end LezFuzzing.Spec
