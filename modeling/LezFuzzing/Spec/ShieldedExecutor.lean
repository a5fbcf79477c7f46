import LezFuzzing.Ledger.Fresh
import LezFuzzing.Spec.PrivacyCorrect
import LezFuzzing.Spec.PrivacyTransitionCorrect

/-!
# An executor that follows the documented rules

The target's documentation says what an accepted privacy-preserving transaction has passed
and what it does: it carries private actions, their nullifiers are unspent and their
commitments new, both are recorded, its effects are settled in order on its owners' shards,
and each of its signers uses one nonce. A rejected one does nothing. `ExecutesShielded`
collects these rules for an arbitrary machine, and `Recorded` says what a whole run of
accepted transactions adds up to.

## Key results

- `applyActions_nonce`: what settlement leaves alone
- `sum_applyActions`: what settlement does to the sum of the balances
- `Applied.recorded_cons`: a run of transactions, one in front of the others
-/

namespace LezFuzzing.Spec

open LezFuzzing.Native Ledger Keyed

/-! ## Settling any effects -/

section Settlement

variable {M : Machine}

/-- How a deferred effect acts on the account it is declared for; an effect of a program
    without a deployed guest does not go through. An effect only touches shards, and one that
    is not native leaves the native balance alone. -/
structure EffectRules (T : NativeToken M) where
  apply : DeferredPublicEffect → Account M.Data → Option (Account M.Data)
  apply_native : ∀ effect account, Addressed T effect →
    apply effect account = settleEffect T effect account
  nonce_eq : ∀ effect account account', apply effect account = some account' →
    account'.nonce = account.nonce
  balance_eq : ∀ effect account account', ¬ Addressed T effect →
    apply effect account = some account' →
    M.nativeBalance account'.data = M.nativeBalance account.data

variable {T : NativeToken M} (E : EffectRules T)

/-- The effects of one action, on its owner's account. -/
def EffectRules.applyEffects (action : PublicActionWithID) (account : Account M.Data) :
    Option (Account M.Data) :=
  action.effects.foldlM (fun account effect => E.apply effect account) account

/-- Settle the actions in order on one shared state, then use a nonce of each signer. -/
def applyActions (signerIds : List AccountId) (publicActions : List PublicActionWithID)
    (accounts : AccountId → Account M.Data) : Option (AccountId → Account M.Data) := do
  let accounts ← publicActions.foldlM (fun accounts action =>
    modifyM accounts action.accountId (E.applyEffects action)) accounts
  return fun id => bumped T signerIds id (accounts id)

/-- The native effects that a list of effects declares. -/
def declaredEffects (T : NativeToken M) (effects : List DeferredPublicEffect) :
    List NativeEffect :=
  (effects.filter fun effect => decide (Addressed T effect)).filterMap fun effect =>
    T.effectFromSlice effect.data

/-- The native effects that a list of actions declares. -/
def declared (T : NativeToken M) (publicActions : List PublicActionWithID) : List NativeEffect :=
  publicActions.flatMap fun action => declaredEffects T action.effects

variable {E}

theorem debited_append (xs ys : List NativeEffect) :
    debited (xs ++ ys) = debited xs + debited ys := by
  simp [debited]

theorem credited_append (xs ys : List NativeEffect) :
    credited (xs ++ ys) = credited xs + credited ys := by
  simp [credited]

/-- A native effect that settles decodes and stays in range, and its result is written. -/
theorem settleEffect_eq_some {effect : DeferredPublicEffect} {account account' : Account M.Data}
    (h : settleEffect T effect account = some account') :
    ∃ native balance mid, T.effectFromSlice effect.data = some native ∧
      M.nativeBalance account.data = some balance ∧ native.checkedApply balance = some mid ∧
      account' = { account with
        data := T.setShard account.data T.nativeTokenProgramId (T.encodeBalance mid) } := by
  simp only [settleEffect, Option.bind_eq_bind, Option.bind_eq_some_iff] at h
  obtain ⟨balance, hbalance, native, hdecode, mid, happly, hwrite⟩ := h
  exact ⟨native, balance, mid, hdecode, hbalance, happly, (Option.some.inj hwrite).symm⟩

/-- Effects leave the nonce alone. -/
theorem EffectRules.applyEffects_nonce {action : PublicActionWithID}
    {account account' : Account M.Data} (h : E.applyEffects action account = some account') :
    account'.nonce = account.nonce := by
  unfold applyEffects at h
  generalize action.effects = effects at h
  induction effects generalizing account with
  | nil => exact congrArg Account.nonce (Option.some.inj h).symm
  | cons effect effects ih =>
    rw [List.foldlM_cons, Option.bind_eq_bind, Option.bind_eq_some_iff] at h
    obtain ⟨mid, hfirst, hrest⟩ := h
    rw [ih hrest, E.nonce_eq effect account mid hfirst]

/-- The native balance of an account, or zero where it does not decode. -/
def balanceOf (M : Machine) (account : Account M.Data) : ℕ :=
  ((M.nativeBalance account.data).map BitVec.toNat).getD 0

/-- One effect moves the balance by what it declares, and what decodes goes on decoding. -/
private theorem apply_balance (laws : NativeTokenLaws T) {effect : DeferredPublicEffect}
    {account account' : Account M.Data} (h : E.apply effect account = some account') :
    balanceOf M account' + debited (declaredEffects T [effect]) =
        balanceOf M account + credited (declaredEffects T [effect]) ∧
      ((M.nativeBalance account.data).isSome → (M.nativeBalance account'.data).isSome) := by
  by_cases haddr : Addressed T effect
  · rw [E.apply_native effect account haddr] at h
    obtain ⟨native, balance, mid, hdecode, hbalance, happly, rfl⟩ := settleEffect_eq_some h
    have hdeclared : declaredEffects T [effect] = [native] := by
      simp [declaredEffects, haddr, hdecode]
    have hmid := checkedApply_eq_some_iff.mp happly
    refine ⟨?_, fun _ => ?_⟩
    · simpa [balanceOf, laws.nativeBalance_setShard, hbalance, hdeclared] using hmid
    · rw [laws.nativeBalance_setShard, Option.isSome_some]
  · have hsame := E.balance_eq effect account account' haddr h
    have hdeclared : declaredEffects T [effect] = [] := by simp [declaredEffects, haddr]
    refine ⟨?_, fun hsome => hsame ▸ hsome⟩
    simp [balanceOf, hsame, hdeclared]

theorem declaredEffects_cons (effect : DeferredPublicEffect) (effects : List DeferredPublicEffect) :
    declaredEffects T (effect :: effects) =
      declaredEffects T [effect] ++ declaredEffects T effects := by
  rw [← List.singleton_append, declaredEffects, List.filter_append, List.filterMap_append]
  rfl

/-- The effects of an action move the balance by what they declare, and what decodes goes on
    decoding. -/
theorem EffectRules.applyEffects_balance (laws : NativeTokenLaws T) {action : PublicActionWithID}
    {account account' : Account M.Data} (h : E.applyEffects action account = some account') :
    balanceOf M account' + debited (declaredEffects T action.effects) =
        balanceOf M account + credited (declaredEffects T action.effects) ∧
      ((M.nativeBalance account.data).isSome → (M.nativeBalance account'.data).isSome) := by
  unfold applyEffects at h
  generalize action.effects = effects at h ⊢
  induction effects generalizing account with
  | nil =>
    obtain rfl := Option.some.inj h
    exact ⟨rfl, id⟩
  | cons effect effects ih =>
    rw [List.foldlM_cons, Option.bind_eq_bind, Option.bind_eq_some_iff] at h
    obtain ⟨mid, hfirst, hrest⟩ := h
    obtain ⟨hsum, hdec⟩ := apply_balance laws hfirst
    obtain ⟨hsum', hdec'⟩ := ih hrest
    rw [declaredEffects_cons, debited_append, credited_append]
    exact ⟨by omega, fun hsome => hdec' (hdec hsome)⟩

/-- What goes through settlement goes through the oracle's fold, with the same result where
    all effects are native. -/
theorem EffectRules.foldNative_of_applyEffects (laws : NativeTokenLaws T)
    {action : PublicActionWithID} {account account' : Account M.Data} {balance : U128}
    (hbalance : M.nativeBalance account.data = some balance)
    (h : E.applyEffects action account = some account') :
    ∃ balance', foldNative T (nativeFront T action.effects) balance = some balance' ∧
      ((∀ effect ∈ action.effects, Addressed T effect) →
        account' = writeBack T action.effects account balance') := by
  unfold applyEffects at h
  generalize action.effects = effects at h ⊢
  induction effects generalizing account balance with
  | nil => exact ⟨balance, rfl, fun _ => (Option.some.inj h).symm⟩
  | cons effect effects ih =>
    rw [List.foldlM_cons, Option.bind_eq_bind, Option.bind_eq_some_iff] at h
    obtain ⟨next, hfirst, hrest⟩ := h
    by_cases haddr : Addressed T effect
    · rw [E.apply_native effect account haddr] at hfirst
      obtain ⟨native, before, mid, hdecode, hbefore, happly, rfl⟩ := settleEffect_eq_some hfirst
      obtain rfl := Option.some.inj (hbefore.symm.trans hbalance)
      obtain ⟨balance', hfold, hwrite⟩ := ih (laws.nativeBalance_setShard _ mid) hrest
      refine ⟨balance', ?_, fun hall => ?_⟩
      · rw [nativeFront_cons_of_addressed haddr, foldNative, List.foldlM_cons, hdecode]
        simp only [Option.bind_some, happly, Option.bind_eq_bind]
        exact hfold
      · rw [hwrite (List.forall_mem_cons.mp hall).2]
        cases effects with
        | nil =>
          obtain rfl := Option.some.inj hfold
          rfl
        | cons next rest =>
          -- the last write of the shard is the one that stays
          simp [writeBack, laws.setShard_setShard]
    · rw [nativeFront_cons_of_not haddr]
      exact ⟨balance, rfl, fun hall => absurd (hall effect List.mem_cons_self) haddr⟩

variable {signerIds : List AccountId} {publicActions : List PublicActionWithID}
  {accounts accounts' : AccountId → Account M.Data}

/-- Settlement is a loop over the actions, and the nonces. -/
theorem applyActions_eq_some_iff :
    applyActions E signerIds publicActions accounts = some accounts' ↔
      ∃ settled, publicActions.foldlM (fun accounts action =>
          modifyM accounts action.accountId (E.applyEffects action)) accounts = some settled ∧
        accounts' = fun id => bumped T signerIds id (settled id) := by
  rw [applyActions, Option.bind_eq_bind, Option.bind_eq_some_iff]
  simp only [Option.pure_def, Option.some.injEq, eq_comm]

/-- Settlement keeps the nonces but for those of the signers, and what decodes. -/
theorem applyActions_nonce (laws : NativeTokenLaws T)
    (h : applyActions E signerIds publicActions accounts = some accounts') (id : AccountId) :
    (accounts' id).nonce = (if id ∈ signerIds then
        T.publicAccountNonceIncrement (accounts id).nonce else (accounts id).nonce) ∧
      ((M.nativeBalance (accounts id).data).isSome →
        (M.nativeBalance (accounts' id).data).isSome) := by
  obtain ⟨settled, hloop, rfl⟩ := applyActions_eq_some_iff.mp h
  have hkept := forall_foldlM_modifyM (R := fun a a' : Account M.Data => a'.nonce = a.nonce ∧
      ((M.nativeBalance a.data).isSome → (M.nativeBalance a'.data).isSome))
    (fun _ => ⟨rfl, fun hs => hs⟩) (fun _ _ _ h h' => ⟨h'.1.trans h.1, fun hs => h'.2 (h.2 hs)⟩)
    (fun _ _ _ hstep => ⟨E.applyEffects_nonce hstep, (E.applyEffects_balance laws hstep).2⟩)
    hloop id
  rw [bumped_nonce, bumped_data, hkept.1]
  exact ⟨rfl, hkept.2⟩

/-- A measure that adds up over effects adds up over actions. -/
private theorem measure_declared {f : List NativeEffect → ℕ} (hnil : f [] = 0)
    (happend : ∀ xs ys, f (xs ++ ys) = f xs + f ys) (publicActions : List PublicActionWithID) :
    f (declared T publicActions) =
      (publicActions.map fun action => f (declaredEffects T action.effects)).sum := by
  induction publicActions with
  | nil => exact hnil
  | cons action actions ih =>
    rw [declared, List.flatMap_cons, happend, List.map_cons, List.sum_cons, ← ih, declared]

/-- Settlement moves the sum of the balances by what the actions declare. -/
theorem sum_applyActions (laws : NativeTokenLaws T) {S : Finset AccountId}
    (howners : ∀ action ∈ publicActions, action.accountId ∈ S)
    (h : applyActions E signerIds publicActions accounts = some accounts') :
    (∑ id ∈ S, balanceOf M (accounts' id)) + debited (declared T publicActions) =
      (∑ id ∈ S, balanceOf M (accounts id)) + credited (declared T publicActions) := by
  obtain ⟨settled, hloop, rfl⟩ := applyActions_eq_some_iff.mp h
  have hsum := sum_foldlM_modifyM (g := E.applyEffects) (μ := balanceOf M) howners
    (fun _ _ _ hstep => (E.applyEffects_balance laws hstep).1) hloop
  have hbumped : ∀ id, balanceOf M (bumped T signerIds id (settled id)) =
      balanceOf M (settled id) := fun id => by rw [balanceOf, bumped_data, balanceOf]
  simp only [hbumped, measure_declared rfl debited_append, measure_declared rfl credited_append]
  exact hsum

end Settlement

/-! ## The rules of execution -/

section Rules

variable {M : Machine} {P : PrivacyCrates M}

def nullifiersOf (message : PPMessage P.toPrivacyTypes) : List P.Nullifier :=
  message.privateActions.map (·.nullifier)

def commitmentsOf (message : PPMessage P.toPrivacyTypes) : List P.Commitment :=
  message.privateActions.map (·.commitment)

/-- What accepting a transaction has required of the state before it, and done to it. -/
structure Applied (T : PrivacyTarget P) (V : ShieldedView P) (E : EffectRules T.toNativeToken)
    (tx : M.PrivacyPreservingTransaction) (before after : M.State) : Prop where
  privateActions_ne : (T.message tx).privateActions ≠ []
  nullifiers : Inserts (V.nullifiers before) (nullifiersOf (T.message tx)) (V.nullifiers after)
  commitments : Inserts (V.commitments before) (commitmentsOf (T.message tx)) (V.commitments after)
  accounts : applyActions E (privacySigners M tx) (T.message tx).publicActions
    (M.getAccountById before) = some (M.getAccountById after)

/-- The documented behaviour of gate and executor on privacy-preserving transactions. -/
structure ExecutesShielded (T : PrivacyTarget P) (V : ShieldedView P)
    (E : EffectRules T.toNativeToken) : Prop where
  gate : ∀ tx leeTx, M.transactionStatelessCheck (.PrivacyPreserving tx) = .ok leeTx →
    leeTx = .PrivacyPreserving tx
  accepted : ∀ tx state blockId timestamp appliedTx state',
    M.executeCheckOnState (.PrivacyPreserving tx) state blockId timestamp =
      (.ok appliedTx, state') →
    appliedTx = .PrivacyPreserving tx ∧ Applied T V E tx state state'
  rejected : ∀ tx state blockId timestamp e state',
    M.executeCheckOnState (.PrivacyPreserving tx) state blockId timestamp = (.error e, state') →
    state' = state

variable {T : PrivacyTarget P} {V : ShieldedView P} {E : EffectRules T.toNativeToken}

/-- Once it was accepted, a transaction is rejected wherever its nullifiers are remembered. -/
theorem ExecutesShielded.rejects_again (h : ExecutesShielded T V E)
    {tx : M.PrivacyPreservingTransaction} {before after state : M.State}
    (happlied : Applied T V E tx before after) (hsub : V.nullifiers after ⊆ V.nullifiers state)
    (blockId timestamp : U64) :
    ∃ e, M.executeCheckOnState (.PrivacyPreserving tx) state blockId timestamp =
      (.error e, state) := by
  cases hexec : M.executeCheckOnState (.PrivacyPreserving tx) state blockId timestamp with
  | mk result state' =>
    cases result with
    | error e =>
      obtain rfl := h.rejected tx state blockId timestamp e state' hexec
      exact ⟨e, rfl⟩
    | ok appliedTx =>
      obtain ⟨_, hagain⟩ := h.accepted tx state blockId timestamp appliedTx state' hexec
      obtain ⟨action, haction⟩ := List.exists_mem_of_ne_nil _ happlied.privateActions_ne
      have hmem : action.nullifier ∈ nullifiersOf (T.message tx) := List.mem_map_of_mem haction
      exact absurd hagain.nullifiers (happlied.nullifiers.not_again hsub hmem hmem)

end Rules

/-! ## The ledger of a run -/

section Books

variable {M : Machine} {P : PrivacyCrates M}

/-- How often an account has signed one of the transactions. -/
def timesSigned (M : Machine) (id : AccountId) (txs : List M.PrivacyPreservingTransaction) : ℕ :=
  txs.countP fun tx => decide (id ∈ privacySigners M tx)

/-- The native effects that transactions declare. -/
def declaredIn (T : PrivacyTarget P) (txs : List M.PrivacyPreservingTransaction) :
    List NativeEffect :=
  txs.flatMap fun tx => declared T.toNativeToken (T.message tx).publicActions

/-- One state is the other one with the given transactions on the books: their nullifiers and
    their commitments are all distinct, were new, and are what the two sets have grown by; an
    account has used a nonce for each transaction it signed; and the balances of any accounts
    that include all owners sum up to what they did before and what the effects declare. -/
structure Recorded (T : PrivacyTarget P) (V : ShieldedView P) (before : M.State)
    (txs : List M.PrivacyPreservingTransaction) (after : M.State) : Prop where
  nullifiers : Inserts (V.nullifiers before) (txs.flatMap fun tx => nullifiersOf (T.message tx))
    (V.nullifiers after)
  commitments : Inserts (V.commitments before)
    (txs.flatMap fun tx => commitmentsOf (T.message tx)) (V.commitments after)
  nonces : ∀ id, M.nonce after id = M.nonce before id + .ofNat 128 (timesSigned M id txs)
  supply : ∀ S : Finset AccountId,
    (∀ tx ∈ txs, ∀ action ∈ (T.message tx).publicActions, action.accountId ∈ S) →
    (∑ id ∈ S, balanceOf M (M.getAccountById after id)) + debited (declaredIn T txs) =
      (∑ id ∈ S, balanceOf M (M.getAccountById before id)) + credited (declaredIn T txs)

variable {T : PrivacyTarget P} {V : ShieldedView P} {E : EffectRules T.toNativeToken}
  {tx : M.PrivacyPreservingTransaction} {txs : List M.PrivacyPreservingTransaction}
  {before mid after : M.State}

theorem Recorded.nil : Recorded T V before [] before where
  nullifiers := .nil
  commitments := .nil
  nonces id := by simp [timesSigned]
  supply S _ := rfl

private theorem timesSigned_cons (id : AccountId) :
    timesSigned M id (tx :: txs) =
      timesSigned M id txs + if id ∈ privacySigners M tx then 1 else 0 := by
  rw [timesSigned, List.countP_cons, timesSigned]
  simp only [decide_eq_true_eq]

/-- One more transaction in front. -/
theorem Applied.recorded_cons (laws : NativeTokenLaws T.toNativeToken)
    (hincrement : ∀ nonce, T.publicAccountNonceIncrement nonce = nonce + 1)
    (h : Applied T V E tx before mid) (hrest : Recorded T V mid txs after) :
    Recorded T V before (tx :: txs) after where
  nullifiers := h.nullifiers.append hrest.nullifiers
  commitments := h.commitments.append hrest.commitments
  nonces id := by
    have hstep := (applyActions_nonce laws h.accounts id).1
    rw [hrest.nonces id, Machine.nonce, hstep, timesSigned_cons, Machine.nonce]
    split
    · rw [hincrement, BitVec.ofNat_add, BitVec.add_comm (BitVec.ofNat 128 _), ← BitVec.add_assoc]
      rfl
    · rw [Nat.add_zero]
  supply S howners := by
    obtain ⟨hown, hlater⟩ := List.forall_mem_cons.mp howners
    have hfirst := sum_applyActions laws hown h.accounts
    have hsum := hrest.supply S hlater
    rw [declaredIn, List.flatMap_cons, debited_append, credited_append]
    simp only [declaredIn] at hsum
    omega

end Books

end LezFuzzing.Spec
