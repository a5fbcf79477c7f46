import LezFuzzing.Ledger.Book
import LezFuzzing.Spec.RecipientCorrect
import LezFuzzing.Spec.ReferenceMachine

/-!
# The reference model is a ledger

The model of the lockstep target keeps `u128` balances and nonces in a map and updates
two entries by machine arithmetic. `Model.toBook` reads it as a `Ledger.Book`. As long as
the supply fits a `u128`, sender and recipient differ and no nonce is exhausted,
`predict` is the ledger's acceptance and `apply_transfer` is its booking, so that
everything known about ledgers holds of every schedule.

## Key results

- `predict_isAccept_iff`: the overflow branch never decides
- `submit_spec`: submitting a transfer refines the ledger
- `modelRun_inv`: every reached model is a chain of accepted transfers from the start
- `modelRun_ledger`: nonces count, balances add up, the supply is conserved
- `modelRun_no_replay`: accepted nonces are consecutive and never accepted again
-/

namespace LezFuzzing.Spec

open LezFuzzing.Native Ledger

/-! ## Reading the model as a ledger -/

/-- A transfer with its amounts as natural numbers. -/
def toTransfer (t : TransferFields) : Transfer AccountId where
  src := t.fromId
  dst := t.toId
  nonce := t.declaredNonce.toNat
  amount := t.amount.toNat

/-- The model as a ledger; an account without an entry has zero of both. -/
def toBook (model : Model) : Book AccountId where
  balance id := (model.balance id).toNat
  nonce id := (model.nonce id).toNat

/-- The map has exactly the accounts of `S`, and their supply fits a `u128`. -/
structure ModelInv (S : Finset AccountId) (model : Model) : Prop where
  keys : ∀ id, id ∈ model.accounts ↔ id ∈ S
  supply : (toBook model).total S < 2 ^ 128

/-- A transfer between two different accounts of `S`. -/
structure Between (S : Finset AccountId) (t : TransferFields) : Prop where
  src_mem : t.fromId ∈ S
  dst_mem : t.toId ∈ S
  ne : t.fromId ≠ t.toId

@[simp] theorem balance_insert (accounts : HashMap AccountId (U128 × U128)) (id a : AccountId)
    (entry : U128 × U128) : (Model.mk (accounts.insert id entry)).balance a =
      if a = id then entry.1 else (Model.mk accounts).balance a := by
  by_cases h : a = id
  · subst h
    simp [Model.balance]
  · simp [Model.balance, h]

@[simp] theorem nonce_insert (accounts : HashMap AccountId (U128 × U128)) (id a : AccountId)
    (entry : U128 × U128) : (Model.mk (accounts.insert id entry)).nonce a =
      if a = id then entry.2 else (Model.mk accounts).nonce a := by
  by_cases h : a = id
  · subst h
    simp [Model.nonce]
  · simp [Model.nonce, h]

section Submit

variable {S : Finset AccountId} {model : Model} {t : TransferFields}

/-- What the sender can pay, the recipient can hold. -/
theorem balance_add_lt (hinv : ModelInv S model) (ht : Between S t)
    (hpay : t.amount.toNat ≤ (model.balance t.fromId).toNat) :
    (model.balance t.toId).toNat + t.amount.toNat < 2 ^ 128 := by
  have hle := add_balance_le_total (toBook model) ht.ne ht.src_mem ht.dst_mem
  have hlt := hinv.supply
  simp only [toBook] at hle hlt
  omega

/-- The prediction is the ledger's acceptance: the overflow branch is never the one
    that rejects. -/
theorem predict_isAccept_iff (hinv : ModelInv S model) (ht : Between S t) :
    (model.predict t.fromId t.toId t.declaredNonce t.amount).isAccept = true ↔
      (toBook model).Accepts (toTransfer t) := by
  unfold Model.predict Book.Accepts
  simp only [toTransfer, toBook, BitVec.toNat_inj]
  -- one case for each early return, in the order the code takes them
  by_cases hnonce : t.declaredNonce = model.nonce t.fromId
  · by_cases hpay : t.amount.toNat ≤ (model.balance t.fromId).toNat
    · have hfit := BitVec.checkedAdd_of_lt (balance_add_lt hinv ht hpay)
      have hgt : ¬ t.amount > model.balance t.fromId := by
        rw [gt_iff_lt, BitVec.lt_def]
        omega
      simp [hnonce, hpay, hgt, hfit, Predict.isAccept]
    · have hgt : t.amount > model.balance t.fromId := by
        rw [gt_iff_lt, BitVec.lt_def]
        omega
      simp [hnonce, hpay, hgt, Predict.isAccept]
  · simp [hnonce, Predict.isAccept]

/-- A prediction is acceptance or rejection. -/
theorem Predict.eq_reject_iff {p : Predict} : p = .Reject ↔ ¬ p.isAccept = true := by
  cases p with
  | Reject => simp [Predict.isAccept]
  | Accept amount => simp [Predict.isAccept]

/-- An accepting prediction repeats the amount it was asked about. -/
theorem predict_eq_accept (model : Model) (fromId toId : AccountId) (nonce amount : U128)
    (h : (model.predict fromId toId nonce amount).isAccept = true) :
    model.predict fromId toId nonce amount = .Accept amount := by
  unfold Model.predict at h ⊢
  split at h
  · exact nomatch h
  · split at h
    · exact nomatch h
    · split at h
      · exact nomatch h
      · simp [*]

/-- Every account of `S` has an entry, which `balance` and `nonce` read. -/
theorem lookup_eq (hinv : ModelInv S model) {id : AccountId} (hid : id ∈ S) :
    model.accounts.lookup id = some (model.balance id, model.nonce id) := by
  have hmem := (hinv.keys id).mpr hid
  obtain ⟨⟨bal, nonce⟩, hlook⟩ := Option.isSome_iff_exists.mp (AList.lookup_isSome.mpr hmem)
  simp [Model.balance, Model.nonce, hlook]

/-- Committing an accepted transfer cannot panic, and books it. -/
theorem applyTransfer_spec (hinv : ModelInv S model) (ht : Between S t)
    (hacc : (toBook model).Accepts (toTransfer t))
    (hnonce : (model.nonce t.fromId).toNat + 1 < 2 ^ 128) :
    ∃ model', model.applyTransfer t.fromId t.toId t.amount = .ok model' ∧
      ModelInv S model' ∧ toBook model' = (toBook model).apply (toTransfer t) := by
  have hpay : t.amount.toNat ≤ (model.balance t.fromId).toNat := hacc.2
  have hfit := balance_add_lt hinv ht hpay
  have hone : (model.nonce t.fromId).toNat + (1 : U128).toNat < 2 ^ 128 := hnonce
  -- no lookup misses and no operation overflows
  have hrun : model.applyTransfer t.fromId t.toId t.amount = .ok
      ⟨(model.accounts.insert t.fromId
          (model.balance t.fromId - t.amount, model.nonce t.fromId + 1)).insert t.toId
        (model.balance t.toId + t.amount, model.nonce t.toId)⟩ := by
    simp only [Model.applyTransfer, lookup_eq hinv ht.src_mem, lookup_eq hinv ht.dst_mem,
      BitVec.checkedSub_of_le hpay, BitVec.checkedAdd_of_lt hone, BitVec.checkedAdd_of_lt hfit,
      Except.expect_some, Except.ok_bind, Except.pure_eq_ok]
  refine ⟨_, hrun, ?_⟩
  have hbook : toBook ⟨(model.accounts.insert t.fromId
        (model.balance t.fromId - t.amount, model.nonce t.fromId + 1)).insert t.toId
        (model.balance t.toId + t.amount, model.nonce t.toId)⟩ =
      (toBook model).apply (toTransfer t) := by
    ext a
    · -- balances: the second write wins at the recipient
      by_cases hdst : a = t.toId
      · have hsrc : a ≠ t.fromId := fun h => ht.ne (h.symm.trans hdst)
        have hsum := BitVec.toNat_add_of_lt hfit
        simp [toBook, Book.apply, toTransfer, hdst, ht.ne.symm, hsum]
      · by_cases hsrc : a = t.fromId
        · have hdiff := BitVec.toNat_sub_of_le hpay
          simp [toBook, Book.apply, toTransfer, hsrc, ht.ne, hdiff]
        · simp [toBook, Book.apply, toTransfer, hdst, hsrc]
    · -- nonces: only the sender's moves
      by_cases hdst : a = t.toId
      · simp [toBook, Book.apply, toTransfer, hdst, ht.ne.symm]
      · by_cases hsrc : a = t.fromId
        · simp [toBook, Book.apply, toTransfer, hsrc, ht.ne]
          omega
        · simp [toBook, Book.apply, toTransfer, hdst, hsrc]
  refine ⟨⟨?_, ?_⟩, hbook⟩
  · -- both written keys were there before
    intro id
    rw [AList.mem_insert, AList.mem_insert, hinv.keys]
    constructor
    · intro h
      rcases h with rfl | rfl | h
      · exact ht.dst_mem
      · exact ht.src_mem
      · exact h
    · exact fun h => Or.inr (Or.inr h)
  · rw [hbook, total_apply hacc ht.src_mem ht.dst_mem]
    exact hinv.supply

/-- Submitting a transfer refines the ledger: accepted transfers are booked, rejected
    ones leave the model alone, and nothing panics. -/
theorem submit_spec (hinv : ModelInv S model) (ht : Between S t)
    (hnonce : (model.nonce t.fromId).toNat + 1 < 2 ^ 128) :
    ((toBook model).Accepts (toTransfer t) ∧
      model.predict t.fromId t.toId t.declaredNonce t.amount = .Accept t.amount ∧
      ∃ model', model.applyTransfer t.fromId t.toId t.amount = .ok model' ∧
        ModelInv S model' ∧ toBook model' = (toBook model).apply (toTransfer t)) ∨
    (¬ (toBook model).Accepts (toTransfer t) ∧
      model.predict t.fromId t.toId t.declaredNonce t.amount = .Reject) := by
  by_cases hacc : (toBook model).Accepts (toTransfer t)
  · have hpredict := (predict_isAccept_iff hinv ht).mpr hacc
    exact Or.inl ⟨hacc, predict_eq_accept _ _ _ _ _ hpredict,
      applyTransfer_spec hinv ht hacc hnonce⟩
  · refine Or.inr ⟨hacc, ?_⟩
    rw [Predict.eq_reject_iff, predict_isAccept_iff hinv ht]
    exact hacc

/-- A commit that returns had room for the sender's next nonce. -/
theorem nonce_lt_of_applyTransfer {model' : Model} (hinv : ModelInv S model) (ht : Between S t)
    (h : model.applyTransfer t.fromId t.toId t.amount = .ok model') :
    (model.nonce t.fromId).toNat + 1 < 2 ^ 128 := by
  simp only [Model.applyTransfer, lookup_eq hinv ht.src_mem, lookup_eq hinv ht.dst_mem,
    Except.expect_some, Except.ok_bind] at h
  obtain ⟨_, _, h⟩ := Except.bind_eq_ok_iff.mp h
  obtain ⟨next, hnext, _⟩ := Except.bind_eq_ok_iff.mp h
  have hsum := BitVec.checkedAdd_eq_some_iff.mp (Except.expect_eq_ok_iff.mp hnext)
  have hlt := next.isLt
  have hone : (1 : U128).toNat = 1 := rfl
  omega

/-- A submission that returns keeps the accounts and the supply. -/
theorem submit_conserves {model' : Model} (hinv : ModelInv S model) (ht : Between S t)
    (h : model.submit t = .ok model') :
    ModelInv S model' ∧ (toBook model').total S = (toBook model).total S := by
  unfold Model.submit at h
  cases hpredict : model.predict t.fromId t.toId t.declaredNonce t.amount with
  | Reject =>
    rw [hpredict] at h
    obtain rfl := Except.ok.inj h
    exact ⟨hinv, rfl⟩
  | Accept amount =>
    have haccept : (model.predict t.fromId t.toId t.declaredNonce t.amount).isAccept = true := by
      rw [hpredict]
      rfl
    have hacc := (predict_isAccept_iff hinv ht).mp haccept
    have hamount := hpredict.symm.trans (predict_eq_accept _ _ _ _ _ haccept)
    obtain rfl := Predict.Accept.inj hamount
    rw [hpredict] at h
    have hnonce := nonce_lt_of_applyTransfer hinv ht h
    obtain ⟨model₁, hrun, hinv₁, hbook⟩ := applyTransfer_spec hinv ht hacc hnonce
    obtain rfl := Except.ok.inj (hrun.symm.trans h)
    refine ⟨hinv₁, ?_⟩
    rw [hbook, total_apply hacc ht.src_mem ht.dst_mem]

end Submit

/-! ## Resolved transfers -/

/-- The ids of the fuzz accounts. -/
def ids {K : Keys} (accounts : List (FuzzAccount K)) : List AccountId :=
  accounts.map (·.accountId)

/-- A list of accounts as the generator promises it: distinct ids, and a supply that fits. -/
structure Funded {K : Keys} (accounts : List (FuzzAccount K)) : Prop where
  nodup : (ids accounts).Nodup
  supply : (accounts.map (·.balance.toNat)).sum < 2 ^ 128

section Resolve

variable {K : Keys} {accs : LockstepAccounts K}

private theorem get_mem_ids (i : ℕ) : (accs.get i).accountId ∈ ids accs.accounts :=
  List.mem_map_of_mem (List.get_mem _ _)

theorem sender_mem_ids (src : BitVec 8) : (accs.sender src).accountId ∈ ids accs.accounts :=
  get_mem_ids _

/-- Distinct indices of distinct ids name distinct accounts. -/
private theorem get_ne (hnd : (ids accs.accounts).Nodup) {i j : ℕ} (hi : i < accs.accounts.length)
    (hj : j < accs.accounts.length) (hij : i ≠ j) :
    (accs.get i).accountId ≠ (accs.get j).accountId := by
  intro heq
  have hget : ∀ k, k < accs.accounts.length →
      (ids accs.accounts)[k]? = some (accs.get k).accountId := by
    intro k hk
    simp [LockstepAccounts.get, ids, Nat.mod_eq_of_lt hk, List.getElem?_eq_getElem hk]
  have hlen : i < (ids accs.accounts).length := by rwa [ids, List.length_map]
  exact hij ((List.getElem?_inj hlen hnd).mp (by rw [hget i hi, hget j hj, heq]))

/-- A resolved transfer is between two different fuzz accounts. -/
theorem resolve_between (hnd : (ids accs.accounts).Nodup) (model : Model) (src dst : BitVec 8)
    (nonce : NonceKind) (amount : AmountKind) :
    Between (ids accs.accounts).toFinset (accs.resolve model src dst nonce amount) where
  src_mem := List.mem_toFinset.mpr (get_mem_ids _)
  dst_mem := List.mem_toFinset.mpr (get_mem_ids _)
  ne := by
    have hlen := accs.two_le
    have hsrc : src.toNat % accs.accounts.length < accs.accounts.length :=
      Nat.mod_lt _ (by omega)
    have hdst : resolveRecipient dst (src.toNat % accs.accounts.length) accs.accounts.length <
        accs.accounts.length := resolveRecipient_lt (by omega)
    have hne := get_ne hnd hsrc hdst (resolveRecipient_ne hlen hsrc).symm
    have hget : accs.get (src.toNat % accs.accounts.length) = accs.get src.toNat := by
      simp [LockstepAccounts.get]
    rwa [hget] at hne

end Resolve

/-! ## Runs of the model -/

/-- The ledger a run starts from. -/
def startBook {K : Keys} (accs : LockstepAccounts K) : Book AccountId :=
  toBook (Model.new accs.initAccs)

/-- The invariant of the model's run: the model is the start ledger after the accepted
    transfers, each of which was accepted in its turn. -/
structure RunInv {K : Keys} (accs : LockstepAccounts K) (n : ℕ) (model : Model)
    (accepted : List TransferFields) : Prop where
  inv : ModelInv (ids accs.accounts).toFinset model
  within : ∀ t ∈ accepted, Between (ids accs.accounts).toFinset t
  chain : (startBook accs).Chain (accepted.map toTransfer)
  book : toBook model = (startBook accs).applyAll (accepted.map toTransfer)
  length_le : accepted.length ≤ n

section Runs

variable {K : Keys} {accs : LockstepAccounts K} {n : ℕ} {model : Model}
  {accepted : List TransferFields}

theorem RunInv.mono (h : RunInv accs n model accepted) {m : ℕ} (hnm : n ≤ m) :
    RunInv accs m model accepted :=
  { h with length_le := Nat.le_trans h.length_le hnm }

/-- A fresh model has used no nonce yet. -/
theorem nonce_new {accounts : List (AccountId × U128)} {id : AccountId} {entry : U128 × U128}
    (h : (Model.new accounts).accounts.lookup id = some entry) : entry.2 = 0 := by
  obtain ⟨acc, _, heq⟩ := List.mem_map.mp (AList.mem_of_lookup_ofPairs h)
  exact (congrArg (fun x : AccountId × U128 × U128 => x.2.2) heq).symm

/-- Before the first command every nonce is zero. -/
theorem startBook_nonce (id : AccountId) : (startBook accs).nonce id = 0 := by
  show ((Model.new accs.initAccs).nonce id).toNat = 0
  unfold Model.nonce
  cases hlook : (Model.new accs.initAccs).accounts.lookup id with
  | none => rfl
  | some entry => simp [nonce_new hlook]

/-- Before the first command every account holds its listed balance. -/
theorem startBook_balance (hnd : (ids accs.accounts).Nodup) {acc : FuzzAccount K}
    (hacc : acc ∈ accs.accounts) : (startBook accs).balance acc.accountId = acc.balance.toNat := by
  have hlook : (Model.new accs.initAccs).accounts.lookup acc.accountId = some (acc.balance, 0) := by
    unfold Model.new LockstepAccounts.initAccs
    rw [List.map_map]
    refine AList.lookup_ofPairs_of_mem ?_ (List.mem_map_of_mem hacc)
    rwa [List.map_map]
  show ((Model.new accs.initAccs).balance acc.accountId).toNat = acc.balance.toNat
  simp [Model.balance, hlook]

/-- The start total is the sum of the listed balances. -/
theorem startBook_total (hnd : (ids accs.accounts).Nodup) :
    (startBook accs).total (ids accs.accounts).toFinset =
      (accs.accounts.map (·.balance.toNat)).sum := by
  rw [Book.total, List.sum_toFinset _ hnd, ids, List.map_map]
  exact congrArg List.sum (List.map_congr_left fun acc hacc => startBook_balance hnd hacc)

/-- The run invariant holds before the first command. -/
theorem runInv_new (hfunded : Funded accs.accounts) :
    RunInv accs 0 (Model.new accs.initAccs) [] where
  inv := {
    keys := by
      intro id
      show id ∈ AList.ofPairs _ ↔ _
      rw [AList.mem_ofPairs, List.mem_toFinset, ids, LockstepAccounts.initAccs]
      simp
    supply := (startBook_total hfunded.nodup).trans_lt hfunded.supply }
  within := nofun
  chain := trivial
  book := rfl
  length_le := Nat.le_refl 0

/-- A nonce counts the accepted transfers of its account. -/
theorem RunInv.nonce_eq (h : RunInv accs n model accepted) (id : AccountId) :
    (model.nonce id).toNat = numSent (accepted.map toTransfer) id := by
  show (toBook model).nonce id = _
  rw [h.book, nonce_applyAll, startBook_nonce, Nat.zero_add]

/-- No nonce exceeds the number of commands. -/
theorem RunInv.nonce_le (h : RunInv accs n model accepted) (id : AccountId) :
    (model.nonce id).toNat ≤ n := by
  have hnonce := h.nonce_eq id
  -- it counts a part of the accepted transfers, of which there is one a command at most
  have hcount : numSent (accepted.map toTransfer) id ≤ (accepted.map toTransfer).length :=
    List.countP_le_length
  have hlen := h.length_le
  rw [List.length_map] at hcount
  omega

/-- A transfer accepted earlier is never accepted again. -/
theorem RunInv.predict_reject (h : RunInv accs n model accepted) {t : TransferFields}
    (ht : t ∈ accepted) : model.predict t.fromId t.toId t.declaredNonce t.amount = .Reject := by
  have hnot : ¬ (toBook model).Accepts (toTransfer t) := by
    rw [h.book]
    exact not_accepts_of_mem h.chain (List.mem_map_of_mem ht)
  rw [Predict.eq_reject_iff, predict_isAccept_iff h.inv (h.within t ht)]
  exact hnot

/-- One submission extends the run, by the transfer if it is accepted. -/
theorem RunInv.submit (h : RunInv accs n model accepted) (hn : n + 1 < 2 ^ 128)
    {t : TransferFields} (ht : Between (ids accs.accounts).toFinset t) :
    (∃ model', model.predict t.fromId t.toId t.declaredNonce t.amount = .Accept t.amount ∧
      model.applyTransfer t.fromId t.toId t.amount = .ok model' ∧
      RunInv accs (n + 1) model' (accepted ++ [t])) ∨
    model.predict t.fromId t.toId t.declaredNonce t.amount = .Reject := by
  have hnonce := h.nonce_le t.fromId
  -- the nonce is below the number of commands, so it can be incremented
  rcases submit_spec h.inv ht (by omega) with ⟨hacc, hpredict, model', happly, hinv', hbook'⟩ | hrej
  · refine Or.inl ⟨model', hpredict, happly, ?_⟩
    exact {
      inv := hinv'
      within := by
        intro u hu
        rw [List.mem_append, List.mem_singleton] at hu
        cases hu with
        | inl hu => exact h.within u hu
        | inr hu => exact hu ▸ ht
      chain := by
        rw [List.map_append, List.map_singleton, Book.chain_concat, ← h.book]
        exact ⟨h.chain, hacc⟩
      book := by rw [List.map_append, List.map_singleton, Book.applyAll_concat, ← h.book, hbook']
      length_le := by
        have hlen := h.length_le
        rw [List.length_append, List.length_singleton]
        omega }
  · exact Or.inr hrej.2

/-- A submission returns, and extends the run by the transfer if the model predicted its
    acceptance. -/
theorem RunInv.exists_submit (h : RunInv accs n model accepted) (hn : n + 1 < 2 ^ 128)
    {t : TransferFields} (ht : Between (ids accs.accounts).toFinset t) :
    ∃ model', model.submit t = .ok model' ∧ RunInv accs (n + 1) model'
      (if (model.predict t.fromId t.toId t.declaredNonce t.amount).isAccept then accepted ++ [t]
        else accepted) := by
  rcases h.submit hn ht with ⟨model', hpredict, happly, h'⟩ | hpredict
  · refine ⟨model', ?_, ?_⟩
    · rw [Model.submit, hpredict]
      exact happly
    · rwa [hpredict]
  · refine ⟨model, ?_, ?_⟩
    · rw [Model.submit, hpredict]
      rfl
    · rw [hpredict]
      exact h.mono (Nat.le_succ n)

/-- One command of a schedule extends the run. -/
theorem modelStep_inv (hnd : (ids accs.accounts).Nodup) (h : RunInv accs n model accepted)
    (hn : n + 1 < 2 ^ 128) (cmd : Command) :
    ∃ model' accepted', modelStep accs (model, accepted) cmd = .ok (model', accepted') ∧
      RunInv accs (n + 1) model' accepted' ∧ accepted <+: accepted' := by
  cases cmd with
  | AdvanceBlock jump =>
    exact ⟨model, accepted, rfl, h.mono (Nat.le_succ n), List.prefix_rfl⟩
  | ReplayLast =>
    exact ⟨model, accepted, rfl, h.mono (Nat.le_succ n), List.prefix_rfl⟩
  | Transfer src dst nonce amount =>
    have hbetween := resolve_between hnd model src dst nonce amount
    obtain ⟨model', hsubmit, h'⟩ := h.exists_submit hn hbetween
    refine ⟨model', _, ?_, h', ?_⟩
    · simp only [modelStep, hsubmit, Except.ok_bind]
      split
      · rfl
      · rfl
    · split
      · exact List.prefix_append _ _
      · exact List.prefix_rfl

/-- A schedule continues a run, which never panics and only ever extends its record. -/
theorem modelSteps_inv (hnd : (ids accs.accounts).Nodup) (h : RunInv accs n model accepted)
    (cmds : List Command) (hn : n + cmds.length < 2 ^ 128) :
    ∃ model' accepted', cmds.foldlM (modelStep accs) (model, accepted) = .ok (model', accepted') ∧
      RunInv accs (n + cmds.length) model' accepted' ∧ accepted <+: accepted' := by
  induction cmds generalizing n model accepted with
  | nil => exact ⟨model, accepted, rfl, h, List.prefix_rfl⟩
  | cons cmd cmds ih =>
    rw [List.length_cons] at hn
    obtain ⟨model₁, accepted₁, hstep, h₁, hext₁⟩ := modelStep_inv hnd h (by omega) cmd
    obtain ⟨model', accepted', hrest, h', hext'⟩ := ih h₁ (by omega)
    refine ⟨model', accepted', ?_, ?_, hext₁.trans hext'⟩
    · rw [List.foldlM_cons, hstep, Except.ok_bind, hrest]
    · rwa [List.length_cons, Nat.add_comm cmds.length, ← Nat.add_assoc]

/-- Every schedule shorter than `2 ^ 128` runs through, to a model that satisfies the
    run invariant. -/
theorem modelRun_inv (accs : LockstepAccounts K) (hfunded : Funded accs.accounts)
    (cmds : List Command) (hlen : cmds.length < 2 ^ 128) :
    ∃ model accepted, modelRun accs.accounts cmds = .ok (model, accepted) ∧
      RunInv accs cmds.length model accepted := by
  have hrun := modelSteps_inv hfunded.nodup (runInv_new hfunded) cmds (by omega)
  obtain ⟨model, accepted, hrun, h, _⟩ := hrun
  rw [Nat.zero_add] at h
  exact ⟨model, accepted, by rw [modelRun, dif_pos accs.two_le]; exact hrun, h⟩

end Runs

/-! ## What every run guarantees -/

/-- A model's total over the listed accounts. -/
theorem total_toBook {K : Keys} {accounts : List (FuzzAccount K)} (hnd : (ids accounts).Nodup)
    (model : Model) : (toBook model).total (ids accounts).toFinset =
      (accounts.map fun acc => (model.balance acc.accountId).toNat).sum := by
  rw [Book.total, List.sum_toFinset _ hnd, ids, List.map_map]
  rfl

/-- The ledger invariant of the reference model: no schedule panics it; the accounts
    stay, nonces count the transfers sent, balances are what was there plus receipts
    minus payments, the supply is conserved; and a rejected transfer is rejected for its
    nonce or for its sender's balance, never for the recipient's. -/
theorem modelRun_ledger {K : Keys} (accs : LockstepAccounts K) (hfunded : Funded accs.accounts)
    (cmds : List Command) (hlen : cmds.length < 2 ^ 128) :
    ∃ model accepted, modelRun accs.accounts cmds = .ok (model, accepted) ∧
      (∀ id, id ∈ model.accounts ↔ id ∈ ids accs.accounts) ∧
      (∀ acc ∈ accs.accounts,
        (model.nonce acc.accountId).toNat = numSent (accepted.map toTransfer) acc.accountId ∧
        (model.balance acc.accountId).toNat + sent (accepted.map toTransfer) acc.accountId =
          acc.balance.toNat + received (accepted.map toTransfer) acc.accountId) ∧
      (accs.accounts.map fun acc => (model.balance acc.accountId).toNat).sum =
        (accs.accounts.map (·.balance.toNat)).sum ∧
      ∀ src dst nonce amount, let t := accs.resolve model src dst nonce amount
        model.predict t.fromId t.toId t.declaredNonce t.amount = .Reject →
          t.declaredNonce ≠ model.nonce t.fromId ∨ t.amount > model.balance t.fromId := by
  obtain ⟨model, accepted, hrun, h⟩ := modelRun_inv accs hfunded cmds hlen
  refine ⟨model, accepted, hrun, fun id => ?_, fun acc hacc => ⟨?_, ?_⟩, ?_, ?_⟩
  · rw [h.inv.keys, List.mem_toFinset]
  · exact h.nonce_eq acc.accountId
  · have hbalance := balance_applyAll h.chain acc.accountId
    rwa [← h.book, startBook_balance hfunded.nodup hacc] at hbalance
  · rw [← total_toBook hfunded.nodup, h.book, ← startBook_total hfunded.nodup]
    refine total_applyAll h.chain fun u hu => ?_
    obtain ⟨t, ht, rfl⟩ := List.mem_map.mp hu
    exact ⟨(h.within t ht).src_mem, (h.within t ht).dst_mem⟩
  · intro src dst nonce amount t hreject
    have hbetween := resolve_between hfunded.nodup model src dst nonce amount
    have hfalse : (model.predict t.fromId t.toId t.declaredNonce t.amount).isAccept ≠ true := by
      rw [hreject]
      exact Bool.false_ne_true
    have hnot := mt (predict_isAccept_iff h.inv hbetween).mpr hfalse
    -- the ledger refused it, and the ledger has only two reasons
    by_cases hnonce : t.declaredNonce = model.nonce t.fromId
    · refine Or.inr ?_
      rw [gt_iff_lt, BitVec.lt_def, ← Nat.not_le]
      exact fun hpay => hnot ⟨congrArg BitVec.toNat hnonce, hpay⟩
    · exact Or.inl hnonce

/-- Two accounts, for the runs below. -/
def twoAccounts : LockstepAccounts plainMachine.toKeys where
  accounts := [⟨⟨1⟩, 10, (1 : Bytes32)⟩, ⟨⟨2⟩, 3, (2 : Bytes32)⟩]
  two_le := by decide

theorem twoAccounts_funded : Funded twoAccounts.accounts where
  nodup := by decide
  supply := by decide

/-- A transfer of everything and back again leaves the supply of 13. -/
theorem modelRun_ledger_twoAccounts : ∃ model accepted,
    modelRun twoAccounts.accounts
      [.Transfer 0 0 .Correct .All, .ReplayLast, .Transfer 1 0 (.Off 0) .All] =
      .ok (model, accepted) ∧
    (twoAccounts.accounts.map fun acc => (model.balance acc.accountId).toNat).sum = 13 :=
  have ⟨model, accepted, hrun, _, _, htotal, _⟩ :=
    modelRun_ledger twoAccounts twoAccounts_funded
      [.Transfer 0 0 .Correct .All, .ReplayLast, .Transfer 1 0 (.Off 0) .All] (by decide)
  ⟨model, accepted, hrun, htotal⟩

/-- No replay over whole histories: each sender's accepted nonces are `0, 1, 2, …` in
    order, no pair of sender and nonce is accepted twice, and whatever was accepted up
    to some point is rejected at every later one. -/
theorem modelRun_no_replay {K : Keys} (accounts : List (FuzzAccount K)) (hfunded : Funded accounts)
    (cmds later : List Command) (hlen : (cmds ++ later).length < 2 ^ 128) :
    ∃ model₁ accepted₁ model₂ accepted₂,
      modelRun accounts cmds = .ok (model₁, accepted₁) ∧
      modelRun accounts (cmds ++ later) = .ok (model₂, accepted₂) ∧
      (∀ id, (accepted₂.filter (·.fromId = id)).map (·.declaredNonce.toNat) =
        List.range (accepted₂.countP (·.fromId = id))) ∧
      (accepted₂.map fun t => (t.fromId, t.declaredNonce)).Nodup ∧
      accepted₁ <+: accepted₂ ∧
      ∀ t ∈ accepted₁, model₂.predict t.fromId t.toId t.declaredNonce t.amount = .Reject := by
  by_cases htwo : 2 ≤ accounts.length
  · let accs : LockstepAccounts K := ⟨accounts, htwo⟩
    rw [List.length_append] at hlen
    obtain ⟨model₁, accepted₁, hrun₁, h₁⟩ := modelRun_inv accs hfunded cmds (by omega)
    obtain ⟨model₂, accepted₂, hrun₂, h₂, hext⟩ := modelSteps_inv hfunded.nodup h₁ later hlen
    have hrun : modelRun accounts (cmds ++ later) = .ok (model₂, accepted₂) := by
      rw [modelRun, dif_pos htwo] at hrun₁ ⊢
      rw [List.foldlM_append, hrun₁]
      exact hrun₂
    -- what was accepted by the first part is part of the second's record
    refine ⟨model₁, accepted₁, model₂, accepted₂, hrun₁, hrun, fun id => ?_, ?_, hext,
      fun t ht => h₂.predict_reject (hext.subset ht)⟩
    · have hrange := nonces_eq_range h₂.chain id
      rw [startBook_nonce, ← List.range_eq_range', List.filter_map, List.map_map, numSent,
        List.countP_map] at hrange
      exact hrange
    · have hnd := nodup_src_nonce h₂.chain
      refine List.Nodup.of_map (fun p : AccountId × U128 => (p.1, p.2.toNat)) ?_
      rwa [List.map_map] at hnd ⊢
  · -- with fewer accounts the target returns before the first command
    have hrun : ∀ cmds, modelRun accounts cmds =
        .ok (Model.new (accounts.map fun a => (a.accountId, a.balance)), []) := fun cmds => by
      rw [modelRun, dif_neg htwo]
      rfl
    exact ⟨_, _, _, _, hrun cmds, hrun _, fun _ => rfl, List.nodup_nil, List.prefix_rfl,
      List.forall_mem_nil _⟩

/-- The transfer of everything is rejected after the money has come back. -/
theorem modelRun_no_replay_twoAccounts : ∃ model accepted,
    modelRun twoAccounts.accounts [.Transfer 0 0 .Correct .All, .Transfer 1 0 .Correct .All] =
      .ok (model, accepted) ∧
    model.predict ⟨1⟩ ⟨2⟩ 0 10 = .Reject := by
  obtain ⟨model₁, accepted₁, model₂, accepted₂, hrun₁, hrun₂, _, _, _, hreject⟩ :=
    modelRun_no_replay twoAccounts.accounts twoAccounts_funded
      [.Transfer 0 0 .Correct .All] [.Transfer 1 0 .Correct .All] (by decide)
  have hfirst : modelRun twoAccounts.accounts [.Transfer 0 0 .Correct .All] =
      .ok (_, [⟨⟨1⟩, ⟨2⟩, 0, 10⟩]) := rfl
  obtain ⟨_, rfl⟩ := Prod.mk.inj (Except.ok.inj (hrun₁.symm.trans hfirst))
  exact ⟨model₂, accepted₂, hrun₂, hreject _ List.mem_cons_self⟩

end LezFuzzing.Spec
