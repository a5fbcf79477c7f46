import LezFuzzing.ForStd.Keyed
import LezFuzzing.Native.PublicEffects
import LezFuzzing.Spec.InvariantsCorrect

/-!
# The effect oracle equals sequential settlement

The target recomputes each public account by itself, from the state before the transaction.
Settlement threads one state through all actions and effects and fails as a whole at the
first failure, and increments the nonces of the signers in the end. With distinct owners
the two agree: an effect reads and writes its owner's entry only, a balance that was
written is read back, and a later write of the native shard replaces an earlier one.

## Key results

- `foldBalance_eq_some_iff`: a run of effects, as arithmetic
- `settle_eq_some_iff`: settlement, account by account
- `expectedAccount_eq`: the oracle, account by account
- `assertPublicEffectsApplied_settles`: the two agree
-/

namespace LezFuzzing.Spec

open LezFuzzing.Native Keyed

/-! ## Effects on a balance -/

/-- What the effects take from a balance. -/
def debited (effects : List NativeEffect) : ℕ :=
  (effects.map fun
    | .Debit amount => amount.toNat
    | .Credit _ => 0).sum

/-- What the effects add to a balance. -/
def credited (effects : List NativeEffect) : ℕ :=
  (effects.map fun
    | .Debit _ => 0
    | .Credit amount => amount.toNat).sum

/-- Apply effects to a balance, first to last. -/
def foldBalance (effects : List NativeEffect) (balance : U128) : Option U128 :=
  effects.foldlM (fun balance effect => effect.checkedApply balance) balance

@[simp] theorem debited_nil : debited [] = 0 := rfl

@[simp] theorem credited_nil : credited [] = 0 := rfl

/-- After the effects the balance is neither negative nor too large. -/
def InRange (balance : U128) (effects : List NativeEffect) : Prop :=
  debited effects ≤ balance.toNat + credited effects ∧
    balance.toNat + credited effects < 2 ^ 128 + debited effects

theorem inRange_nil (balance : U128) : InRange balance [] := by
  have hlt := balance.isLt
  constructor
  · simp
  · simpa using hlt

/-- One effect succeeds exactly with the mathematical result. -/
theorem checkedApply_eq_some_iff {effect : NativeEffect} {balance after : U128} :
    effect.checkedApply balance = some after ↔
      after.toNat + debited [effect] = balance.toNat + credited [effect] := by
  cases effect with
  | Debit amount =>
    rw [NativeEffect.checkedApply, BitVec.checkedSub_eq_some_iff]
    simp only [debited, credited, List.map_cons, List.map_nil, List.sum_cons, List.sum_nil]
    omega
  | Credit amount =>
    rw [NativeEffect.checkedApply, BitVec.checkedAdd_eq_some_iff]
    simp only [debited, credited, List.map_cons, List.map_nil, List.sum_cons, List.sum_nil]
    omega

theorem debited_cons (effect : NativeEffect) (effects : List NativeEffect) :
    debited (effect :: effects) = debited [effect] + debited effects := by
  simp [debited]

theorem credited_cons (effect : NativeEffect) (effects : List NativeEffect) :
    credited (effect :: effects) = credited [effect] + credited effects := by
  simp [credited]

/-- A run of effects succeeds exactly when the balance stays in range after each of them,
    with the mathematical result. -/
theorem foldBalance_eq_some_iff {effects : List NativeEffect} {balance after : U128} :
    foldBalance effects balance = some after ↔
      after.toNat + debited effects = balance.toNat + credited effects ∧
        ∀ front, front <+: effects → InRange balance front := by
  unfold foldBalance
  induction effects generalizing balance with
  | nil =>
    simp only [List.foldlM_nil, Option.pure_def, Option.some.injEq, List.prefix_nil, debited_nil,
      credited_nil, Nat.add_zero, forall_eq, BitVec.toNat_inj]
    exact ⟨fun h => ⟨h.symm, inRange_nil balance⟩, fun h => h.1.symm⟩
  | cons effect effects ih =>
    rw [List.foldlM_cons, Option.bind_eq_bind, Option.bind_eq_some_iff, debited_cons,
      credited_cons]
    constructor
    · intro h
      obtain ⟨mid, hfirst, hrest⟩ := h
      have hmid := checkedApply_eq_some_iff.mp hfirst
      obtain ⟨hsum, hrange⟩ := ih.mp hrest
      refine ⟨by omega, fun front hfront => ?_⟩
      cases front with
      | nil => exact inRange_nil balance
      | cons e front =>
        obtain ⟨rfl, htail⟩ := List.cons_prefix_cons.mp hfront
        obtain ⟨hlow, hhigh⟩ := hrange front htail
        unfold InRange
        rw [debited_cons, credited_cons]
        omega
    · intro h
      obtain ⟨hsum, hrange⟩ := h
      -- the first effect alone stays in range, so it has a result
      obtain ⟨hlow, hhigh⟩ := hrange [effect] (List.cons_prefix_cons.mpr ⟨rfl, List.nil_prefix⟩)
      obtain ⟨mid, hmid⟩ := BitVec.exists_toNat_eq (w := 128)
        (n := balance.toNat + credited [effect] - debited [effect]) (by omega)
      refine ⟨mid, checkedApply_eq_some_iff.mpr (by omega),
        ih.mpr ⟨by omega, fun front hfront => ?_⟩⟩
      obtain ⟨hlow', hhigh'⟩ := hrange (effect :: front)
        (List.cons_prefix_cons.mpr ⟨rfl, hfront⟩)
      rw [debited_cons, credited_cons] at hlow' hhigh'
      unfold InRange
      omega

/-! ## Sequential settlement -/

section Settlement

variable {M : Machine} (T : NativeToken M)

/-- Settle one effect on the account it is declared for. -/
def settleEffect (effect : DeferredPublicEffect) (account : Account M.Data) :
    Option (Account M.Data) := do
  let balance ← M.nativeBalance account.data
  let native ← T.effectFromSlice effect.data
  let balance ← native.checkedApply balance
  return { account with
    data := T.setShard account.data T.nativeTokenProgramId (T.encodeBalance balance) }

/-- Increment the nonce of an account. -/
def bumpNonce (account : Account M.Data) : Account M.Data :=
  { account with nonce := T.publicAccountNonceIncrement account.nonce }

/-- Settle the actions in order, each effect by effect, on one shared state; then increment
    the nonce of each distinct signer. -/
def settle (signerIds : List AccountId) (publicActions : List PublicActionWithID)
    (accounts : AccountId → Account M.Data) : Option (AccountId → Account M.Data) := do
  let accounts ← publicActions.foldlM (fun accounts action =>
    action.effects.foldlM (fun accounts effect =>
      modifyM accounts action.accountId (settleEffect T effect)) accounts) accounts
  signerIds.dedup.foldlM (fun accounts id =>
    modifyM accounts id fun account => some (bumpNonce T account)) accounts

/-- What the token program's encodings satisfy: a balance that was written is read back,
    and a later write of a shard replaces an earlier one. -/
structure NativeTokenLaws : Prop where
  nativeBalance_setShard : ∀ data balance,
    M.nativeBalance (T.setShard data T.nativeTokenProgramId (T.encodeBalance balance)) =
      some balance
  setShard_setShard : ∀ data shard shard',
    T.setShard (T.setShard data T.nativeTokenProgramId shard) T.nativeTokenProgramId shard' =
      T.setShard data T.nativeTokenProgramId shard'

/-- A native effect on the native shard, which decodes. -/
structure Native (effect : DeferredPublicEffect) : Prop where
  program : effect.programAccountId = T.nativeTokenProgramId
  shard : effect.shardProgramAccountId = T.nativeTokenProgramId
  decodes : (T.effectFromSlice effect.data).isSome

/-- The native effects of an action. -/
def decoded (effects : List DeferredPublicEffect) : List NativeEffect :=
  effects.filterMap fun effect => T.effectFromSlice effect.data

/-- An account with a new balance, which is written only if there were effects. -/
def writeBack (effects : List DeferredPublicEffect) (account : Account M.Data) (balance : U128) :
    Account M.Data :=
  if effects.isEmpty then
    account
  else
    { account with
      data := T.setShard account.data T.nativeTokenProgramId (T.encodeBalance balance) }

variable {T}

theorem Native.exists_decode {effect : DeferredPublicEffect} (h : Native T effect) :
    ∃ native, T.effectFromSlice effect.data = some native :=
  Option.isSome_iff_exists.mp h.decodes

theorem decoded_cons {effect : DeferredPublicEffect} {native : NativeEffect}
    (h : T.effectFromSlice effect.data = some native) (effects : List DeferredPublicEffect) :
    decoded T (effect :: effects) = native :: decoded T effects :=
  List.filterMap_cons_some h

/-- Settling the effects of one account is folding them into its balance and writing the
    result once. -/
theorem foldlM_settleEffect_eq (laws : NativeTokenLaws T) {effects : List DeferredPublicEffect}
    (hnative : ∀ effect ∈ effects, Native T effect) {account : Account M.Data} {balance : U128}
    (hbalance : M.nativeBalance account.data = some balance) :
    effects.foldlM (fun account effect => settleEffect T effect account) account =
      (foldBalance (decoded T effects) balance).map (writeBack T effects account) := by
  induction effects generalizing account balance with
  | nil => rfl
  | cons effect effects ih =>
    rw [List.forall_mem_cons] at hnative
    obtain ⟨native, hdecode⟩ := hnative.1.exists_decode
    rw [List.foldlM_cons, decoded_cons hdecode, foldBalance, List.foldlM_cons]
    cases happly : native.checkedApply balance with
    | none => simp [settleEffect, hbalance, hdecode, happly]
    | some mid =>
      have hstep : settleEffect T effect account = some { account with
          data := T.setShard account.data T.nativeTokenProgramId (T.encodeBalance mid) } := by
        simp [settleEffect, hbalance, hdecode, happly]
      rw [hstep, Option.bind_eq_bind, Option.bind_some, Option.bind_eq_bind, Option.bind_some,
        ih hnative.2 (laws.nativeBalance_setShard _ mid)]
      cases effects with
      | nil => rfl
      | cons next rest =>
        -- the write of the next effect replaces this one
        refine congrArg (Option.map · _) (funext fun after => ?_)
        simp [writeBack, laws.setShard_setShard]

/-- The effects of one action, settled on its owner's account. -/
def settleEffects (T : NativeToken M) (action : PublicActionWithID) (account : Account M.Data) :
    Option (Account M.Data) :=
  action.effects.foldlM (fun account effect => settleEffect T effect account) account

/-- Settled effects leave the nonce alone and the balance they add up to. -/
theorem settleEffects_spec (laws : NativeTokenLaws T) {action : PublicActionWithID}
    (hnative : ∀ effect ∈ action.effects, Native T effect) {account account' : Account M.Data}
    {balance : U128} (hbalance : M.nativeBalance account.data = some balance)
    (h : settleEffects T action account = some account') :
    account'.nonce = account.nonce ∧ ∃ after, M.nativeBalance account'.data = some after ∧
      foldBalance (decoded T action.effects) balance = some after := by
  rw [settleEffects, foldlM_settleEffect_eq laws hnative hbalance, Option.map_eq_some_iff] at h
  obtain ⟨after, hfold, rfl⟩ := h
  unfold writeBack
  split
  · rename_i hempty
    -- nothing was written, so the balance is the one before
    rw [List.isEmpty_iff.mp hempty] at hfold
    obtain rfl := Option.some.inj hfold
    exact ⟨rfl, balance, hbalance, by rw [List.isEmpty_iff.mp hempty]; rfl⟩
  · exact ⟨rfl, after, laws.nativeBalance_setShard _ after, hfold⟩

/-- An account after the signers' nonces have been incremented. -/
def bumped (T : NativeToken M) (signerIds : List AccountId) (id : AccountId)
    (account : Account M.Data) : Account M.Data :=
  if id ∈ signerIds then bumpNonce T account else account

/-- Incrementing the nonce of each distinct signer is incrementing that of every signer. -/
theorem foldlM_bumpNonce_eq (signerIds : List AccountId)
    (accounts : AccountId → Account M.Data) :
    signerIds.dedup.foldlM (fun accounts id =>
        modifyM accounts id fun account => some (bumpNonce T account)) accounts =
      some fun id => bumped T signerIds id (accounts id) := by
  have hnd : (signerIds.dedup.map id).Nodup := by
    rw [List.map_id]
    exact List.nodup_dedup signerIds
  refine (foldlM_modifyM_eq_some_iff (g := fun _ account => some (bumpNonce T account))
    hnd).mpr ⟨fun x hx => ?_, fun k hk => ?_⟩
  · exact congrArg some (if_pos (List.mem_dedup.mp hx)).symm
  · rw [List.map_id, List.mem_dedup] at hk
    exact if_neg hk

variable {signerIds : List AccountId} {publicActions : List PublicActionWithID}
  {accounts accounts' : AccountId → Account M.Data}

/-- Settlement is one update an action, and the nonces. -/
theorem settle_eq : settle T signerIds publicActions accounts =
    (publicActions.foldlM (fun accounts action =>
      modifyM accounts action.accountId (settleEffects T action)) accounts).map
        fun accounts id => bumped T signerIds id (accounts id) := by
  unfold settle
  simp only [foldlM_modifyM_same, foldlM_bumpNonce_eq]
  rw [Option.map_eq_bind]
  rfl

/-- Settlement, account by account. -/
theorem settle_eq_some_iff (hnd : (publicActions.map (·.accountId)).Nodup) :
    settle T signerIds publicActions accounts = some accounts' ↔
      (∀ action ∈ publicActions,
        (settleEffects T action (accounts action.accountId)).map
            (bumped T signerIds action.accountId) = some (accounts' action.accountId)) ∧
      ∀ id, id ∉ publicActions.map (·.accountId) →
        accounts' id = bumped T signerIds id (accounts id) := by
  rw [settle_eq, Option.map_eq_some_iff]
  constructor
  · intro h
    obtain ⟨settled, hloop, rfl⟩ := h
    obtain ⟨hactions, hothers⟩ := (foldlM_modifyM_eq_some_iff hnd).mp hloop
    exact ⟨fun action haction => by rw [hactions action haction, Option.map_some],
      fun id hid => congrArg (bumped T signerIds id) (hothers id hid)⟩
  · intro h
    obtain ⟨hactions, hothers⟩ := h
    have hsome : (publicActions.foldlM (fun accounts action =>
        modifyM accounts action.accountId (settleEffects T action)) accounts).isSome := by
      rw [foldlM_modifyM_isSome_iff hnd]
      intro action haction
      have hisSome := congrArg Option.isSome (hactions action haction)
      rwa [Option.isSome_map] at hisSome
    obtain ⟨settled, hloop⟩ := Option.isSome_iff_exists.mp hsome
    refine ⟨settled, hloop, ?_⟩
    obtain ⟨hsettled, hkept⟩ := (foldlM_modifyM_eq_some_iff hnd).mp hloop
    funext id
    by_cases hid : id ∈ publicActions.map (·.accountId)
    · obtain ⟨action, haction, rfl⟩ := List.mem_map.mp hid
      have heq := hactions action haction
      rw [hsettled action haction, Option.map_some] at heq
      exact Option.some.inj heq
    · rw [hkept id hid, hothers id hid]

/-- A settled account is the one its own effects settle to, and the nonce. -/
theorem exists_settled (hnd : (publicActions.map (·.accountId)).Nodup)
    (h : settle T signerIds publicActions accounts = some accounts') {action : PublicActionWithID}
    (haction : action ∈ publicActions) :
    ∃ account, settleEffects T action (accounts action.accountId) = some account ∧
      accounts' action.accountId = bumped T signerIds action.accountId account := by
  have hsettled := ((settle_eq_some_iff hnd).mp h).1 action haction
  obtain ⟨account, haccount, heq⟩ := Option.map_eq_some_iff.mp hsettled
  exact ⟨account, haccount, heq.symm⟩

/-- Nonce increments leave the data of an account alone. -/
theorem bumped_data (id : AccountId) (account : Account M.Data) :
    (bumped T signerIds id account).data = account.data := by
  unfold bumped
  split
  · rfl
  · rfl

/-- Nonce increments, from the nonce before. -/
theorem bumped_nonce (id : AccountId) (account : Account M.Data) :
    (bumped T signerIds id account).nonce =
      if id ∈ signerIds then T.publicAccountNonceIncrement account.nonce else account.nonce := by
  unfold bumped
  split
  · rfl
  · rfl

/-- Settlement succeeds exactly when it does on each account by itself. -/
theorem settle_isSome_iff (hnd : (publicActions.map (·.accountId)).Nodup) :
    (settle T signerIds publicActions accounts).isSome ↔
      ∀ action ∈ publicActions, (settleEffects T action (accounts action.accountId)).isSome := by
  rw [settle_eq, Option.isSome_map, foldlM_modifyM_isSome_iff hnd]

end Settlement

/-! ## The oracle -/

section Oracle

variable {M : Machine} {T : NativeToken M} {stateBefore : M.State} {signerIds : List AccountId}

/-- The oracle's fold of native effects fails only where the balance cannot take one. -/
theorem foldEffects_eq {effects : List DeferredPublicEffect}
    (hnative : ∀ effect ∈ effects, Native T effect) (balance : U128) :
    foldEffects T balance effects =
      Except.expect ((foldBalance (decoded T effects) balance).map some) .effectOutOfRange := by
  induction effects generalizing balance with
  | nil => rfl
  | cons effect effects ih =>
    rw [List.forall_mem_cons] at hnative
    obtain ⟨native, hdecode⟩ := hnative.1.exists_decode
    have hskip : ¬ (effect.programAccountId ≠ T.nativeTokenProgramId ∨
        effect.shardProgramAccountId ≠ T.nativeTokenProgramId) := by
      rw [hnative.1.program, hnative.1.shard]
      simp
    rw [foldEffects, if_neg hskip, hdecode, Except.expect_some, Except.ok_bind,
      decoded_cons hdecode, foldBalance, List.foldlM_cons]
    cases native.checkedApply balance with
    | none => rfl
    | some mid => exact ih hnative.2 mid

/-- The oracle expects the settled account with the signer's nonce increment, and fails only
    where settling the account does. -/
theorem expectedAccount_eq (laws : NativeTokenLaws T) {action : PublicActionWithID}
    (hnative : ∀ effect ∈ action.effects, Native T effect) {balance : U128}
    (hbalance : M.balance stateBefore action.accountId = some balance) :
    expectedAccount T stateBefore signerIds action =
      Except.expect ((settleEffects T action (M.getAccountById stateBefore action.accountId)).map
        fun account => some (bumped T signerIds action.accountId account)) .effectOutOfRange := by
  have hsettle := foldlM_settleEffect_eq laws hnative hbalance
  rw [expectedAccount, nativeBalance, hbalance, Except.expect_some, Except.ok_bind,
    foldEffects_eq hnative, settleEffects, hsettle]
  cases foldBalance (decoded T action.effects) balance with
  | none => rfl
  | some after =>
    simp only [Option.map_some, Except.expect_some, Except.ok_bind, Except.pure_eq_ok, writeBack,
      bumped, bumpNonce, List.contains_iff_mem]

/-- The assertion on one action passes exactly when its effects settle and the state has the
    settled account with the signer's nonce increment. -/
theorem assertAction_eq_ok_iff (laws : NativeTokenLaws T) {action : PublicActionWithID}
    (hnative : ∀ effect ∈ action.effects, Native T effect) {balance : U128}
    (hbalance : M.balance stateBefore action.accountId = some balance)
    {current : Account M.Data} {e : Panic} :
    (expectedAccount T stateBefore signerIds action >>= fun expected =>
      match expected with
      | none => return ()
      | some expected => Except.assert (current = expected) e) = .ok () ↔
      (settleEffects T action (M.getAccountById stateBefore action.accountId)).map
        (bumped T signerIds action.accountId) = some current := by
  rw [expectedAccount_eq laws hnative hbalance]
  cases settleEffects T action (M.getAccountById stateBefore action.accountId) with
  | none => simp [Except.expect]
  | some account =>
    simp only [Option.map_some, Except.expect_some, Except.ok_bind, Except.assert_eq_ok_iff,
      Option.some.injEq]
    exact eq_comm

/-- The tracked accounts are the listed ones, the signers and the owners. -/
theorem mem_trackedAccounts_iff {initIds signerIds publicAccountIds : List AccountId}
    {id : AccountId} :
    id ∈ trackedAccounts initIds signerIds publicAccountIds ↔
      id ∈ initIds ∨ id ∈ signerIds ∨ id ∈ publicAccountIds := by
  unfold trackedAccounts
  rw [← List.mem_append]
  generalize signerIds ++ publicAccountIds = ids
  induction ids generalizing initIds with
  | nil => simp
  | cons next ids ih =>
    rw [List.foldl_cons, ih, List.mem_cons]
    split
    · rename_i hnext
      constructor
      · tauto
      · rintro (h | rfl | h)
        · exact .inl h
        · exact .inl hnext
        · exact .inr h
    · rw [List.mem_append, List.mem_singleton]
      tauto

end Oracle

/-! ## The two agree -/

section Agreement

variable {M : Machine} {T : NativeToken M} {stateBefore : M.State} {signerIds : List AccountId}
  {publicActions : List PublicActionWithID} {accounts : AccountId → Account M.Data}

/-- Settlement succeeds exactly when the oracle's checked arithmetic does on every action. -/
theorem settle_isSome_iff_expected (laws : NativeTokenLaws T)
    (hnd : (publicActions.map (·.accountId)).Nodup)
    (hnative : ∀ action ∈ publicActions, ∀ effect ∈ action.effects, Native T effect)
    (hbalance : ∀ action ∈ publicActions, ∃ before,
      M.balance stateBefore action.accountId = some before) :
    (settle T signerIds publicActions (M.getAccountById stateBefore)).isSome ↔
      ∀ action ∈ publicActions,
        expectedAccount T stateBefore signerIds action ≠ .error .effectOutOfRange := by
  rw [settle_isSome_iff hnd]
  refine forall₂_congr fun action haction => ?_
  obtain ⟨before, hbefore⟩ := hbalance action haction
  rw [expectedAccount_eq laws (hnative action haction) hbefore]
  cases settleEffects T action (M.getAccountById stateBefore action.accountId) with
  | none => simp [Except.expect]
  | some account => simp

/-- The balance that an action's effects settle to, and its range on the way there. -/
theorem settleEffects_balance (laws : NativeTokenLaws T) {action : PublicActionWithID}
    (hnative : ∀ effect ∈ action.effects, Native T effect) {before : U128}
    (hbefore : M.balance stateBefore action.accountId = some before) {account : Account M.Data}
    (h : settleEffects T action (M.getAccountById stateBefore action.accountId) = some account) :
    ∃ after : U128, M.nativeBalance account.data = some after ∧
      after.toNat + debited (decoded T action.effects) =
        before.toNat + credited (decoded T action.effects) ∧
      ∀ front, front <+: decoded T action.effects → InRange before front := by
  obtain ⟨_, after, hafter, hfold⟩ := settleEffects_spec laws hnative hbefore h
  exact ⟨after, hafter, foldBalance_eq_some_iff.mp hfold⟩

/-- Settlement increments the nonces of the signers and no others. -/
theorem settled_nonce (laws : NativeTokenLaws T)
    (hnd : (publicActions.map (·.accountId)).Nodup)
    (hnative : ∀ action ∈ publicActions, ∀ effect ∈ action.effects, Native T effect)
    (hbalance : ∀ action ∈ publicActions, ∃ before,
      M.balance stateBefore action.accountId = some before)
    (h : settle T signerIds publicActions (M.getAccountById stateBefore) = some accounts)
    (id : AccountId) :
    (accounts id).nonce =
      if id ∈ signerIds then T.publicAccountNonceIncrement (M.nonce stateBefore id)
      else M.nonce stateBefore id := by
  by_cases hid : id ∈ publicActions.map (·.accountId)
  · obtain ⟨action, haction, rfl⟩ := List.mem_map.mp hid
    obtain ⟨before, hbefore⟩ := hbalance action haction
    obtain ⟨account, haccount, heq⟩ := exists_settled hnd h haction
    have hnonce := (settleEffects_spec laws (hnative action haction) hbefore haccount).1
    rw [heq, bumped_nonce, hnonce]
    rfl
  · rw [((settle_eq_some_iff hnd).mp h).2 id hid, bumped_nonce]
    rfl

/-- The whole check passes exactly on the owners' settled accounts. -/
theorem assertPublicEffectsApplied_eq_ok_iff (laws : NativeTokenLaws T)
    (hnd : (publicActions.map (·.accountId)).Nodup)
    (hnative : ∀ action ∈ publicActions, ∀ effect ∈ action.effects, Native T effect)
    (hbalance : ∀ action ∈ publicActions, ∃ before,
      M.balance stateBefore action.accountId = some before) (state : M.State) :
    assertPublicEffectsApplied T stateBefore state signerIds publicActions = .ok () ↔
      ∃ accounts, settle T signerIds publicActions (M.getAccountById stateBefore) = some accounts ∧
        ∀ action ∈ publicActions, M.getAccountById state action.accountId =
          accounts action.accountId := by
  have hcheck : assertPublicEffectsApplied T stateBefore state signerIds publicActions = .ok () ↔
      ∀ action ∈ publicActions,
        (settleEffects T action (M.getAccountById stateBefore action.accountId)).map
          (bumped T signerIds action.accountId) =
            some (M.getAccountById state action.accountId) := by
    rw [assertPublicEffectsApplied, Except.forM_eq_ok_iff]
    refine forall₂_congr fun action haction => ?_
    obtain ⟨before, hbefore⟩ := hbalance action haction
    exact assertAction_eq_ok_iff laws (hnative action haction) hbefore
  rw [hcheck]
  constructor
  · intro hall
    have hsome : (settle T signerIds publicActions (M.getAccountById stateBefore)).isSome := by
      rw [settle_isSome_iff hnd]
      intro action haction
      have hisSome := congrArg Option.isSome (hall action haction)
      rwa [Option.isSome_map] at hisSome
    obtain ⟨accounts, haccounts⟩ := Option.isSome_iff_exists.mp hsome
    refine ⟨accounts, haccounts, fun action haction => ?_⟩
    have hsettled := ((settle_eq_some_iff hnd).mp haccounts).1 action haction
    exact Option.some.inj ((hall action haction).symm.trans hsettled)
  · intro h
    obtain ⟨accounts, haccounts, hagree⟩ := h
    intro action haction
    rw [hagree action haction]
    exact ((settle_eq_some_iff hnd).mp haccounts).1 action haction

end Agreement

/-- The per-account effect oracle equals sequential settlement. Take a transaction whose
    public actions have distinct owners and native effects that decode, and whose tracked
    accounts had balances that decode, as the snapshot before it has checked. Settlement
    succeeds exactly when no effect of any action makes the oracle's checked arithmetic
    panic. Then every owner's settled account is the one the oracle expects; its balance is
    what it was, plus all credits, minus all debits, in range after every effect; the data
    of all other accounts is unchanged, and exactly the signers' nonces are incremented.
    So the whole check passes on a state exactly when settlement succeeds and the state has
    the owners' settled accounts. -/
theorem assertPublicEffectsApplied_settles {M : Machine} (T : NativeToken M)
    (laws : NativeTokenLaws T) (stateBefore : M.State) (initIds signerIds : List AccountId)
    (publicActions : List PublicActionWithID)
    (hsnapshot : (balanceSnapshot M stateBefore
      (trackedAccounts initIds signerIds (publicActions.map (·.accountId)))).Returns)
    (hnd : (publicActions.map (·.accountId)).Nodup)
    (hnative : ∀ action ∈ publicActions, ∀ effect ∈ action.effects, Native T effect) :
    let settled := settle T signerIds publicActions (M.getAccountById stateBefore)
    (settled.isSome ↔ ∀ action ∈ publicActions,
      expectedAccount T stateBefore signerIds action ≠ .error .effectOutOfRange) ∧
    (∀ accounts, settled = some accounts →
      (∀ action ∈ publicActions,
        expectedAccount T stateBefore signerIds action = .ok (some (accounts action.accountId)) ∧
        ∃ before after : U128, M.balance stateBefore action.accountId = some before ∧
          M.nativeBalance (accounts action.accountId).data = some after ∧
          after.toNat + debited (decoded T action.effects) =
            before.toNat + credited (decoded T action.effects) ∧
          ∀ front, front <+: decoded T action.effects → InRange before front) ∧
      (∀ id, id ∉ publicActions.map (·.accountId) →
        (accounts id).data = (M.getAccountById stateBefore id).data) ∧
      ∀ id, (accounts id).nonce =
        if id ∈ signerIds then T.publicAccountNonceIncrement (M.nonce stateBefore id)
        else M.nonce stateBefore id) ∧
    ∀ state, assertPublicEffectsApplied T stateBefore state signerIds publicActions = .ok () ↔
      ∃ accounts, settled = some accounts ∧
        ∀ action ∈ publicActions, M.getAccountById state action.accountId =
          accounts action.accountId := by
  intro settled
  obtain ⟨snapshot, hsnapshot⟩ := hsnapshot
  have hdecodes := (balanceSnapshot_eq_ok_iff.mp hsnapshot).1
  have hbalance : ∀ action ∈ publicActions, ∃ before,
      M.balance stateBefore action.accountId = some before := fun action haction =>
    Option.isSome_iff_exists.mp (hdecodes _ (mem_trackedAccounts_iff.mpr
      (.inr (.inr (List.mem_map_of_mem haction)))))
  refine ⟨settle_isSome_iff_expected laws hnd hnative hbalance, fun accounts haccounts =>
    ⟨fun action haction => ?_, fun id hid => ?_, settled_nonce laws hnd hnative hbalance haccounts⟩,
    assertPublicEffectsApplied_eq_ok_iff laws hnd hnative hbalance⟩
  · obtain ⟨before, hbefore⟩ := hbalance action haction
    obtain ⟨account, haccount, heq⟩ := exists_settled hnd haccounts haction
    constructor
    · rw [expectedAccount_eq laws (hnative action haction) hbefore, haccount, Option.map_some,
        Except.expect_some, heq]
    · obtain ⟨after, hafter, hsum, hrange⟩ :=
        settleEffects_balance laws (hnative action haction) hbefore haccount
      refine ⟨before, after, hbefore, ?_, hsum, hrange⟩
      rw [heq, bumped_data]
      exact hafter
  · rw [((settle_eq_some_iff hnd).mp haccounts).2 id hid, bumped_data]

/-! ## A settled transfer -/

/-- The lowest `k` bytes of a number, least significant first. -/
def leBytes : ℕ → ℕ → List (BitVec 8)
  | 0, _ => []
  | k + 1, n => .ofNat 8 n :: leBytes k (n / 256)

/-- The number that bytes stand for, least significant first. -/
def leValue : List (BitVec 8) → ℕ
  | [] => 0
  | byte :: bytes => byte.toNat + 256 * leValue bytes

/-- Reading the bytes of a number gives it back, as far as it fits. -/
theorem leValue_leBytes (k n : ℕ) : leValue (leBytes k n) = n % 256 ^ k := by
  induction k generalizing n with
  | zero => simp [leBytes, leValue, Nat.mod_one]
  | succ k ih =>
    have hsplit : n % (256 * 256 ^ k) = n % 256 + 256 * (n / 256 % 256 ^ k) := Nat.mod_mul
    have hpow : 256 ^ (k + 1) = 256 * 256 ^ k := Nat.pow_succ'
    rw [leBytes, leValue, ih, BitVec.toNat_ofNat, hpow, hsplit]

/-- A native token whose effects are a tag and sixteen bytes, over data that is a balance. -/
def plainToken : NativeToken plainMachine where
  nativeTokenProgramId := ⟨0⟩
  effectFromSlice
    | 0 :: bytes => if bytes.length = 16 then some (.Debit (.ofNat 128 (leValue bytes))) else none
    | 1 :: bytes => if bytes.length = 16 then some (.Credit (.ofNat 128 (leValue bytes))) else none
    | _ => none
  encodeBalance balance := leBytes 16 balance.toNat
  setShard data program bytes := if program = ⟨0⟩ then BitVec.ofNat 128 (leValue bytes) else data
  publicAccountNonceIncrement nonce := nonce + 1

theorem plainToken_laws : NativeTokenLaws plainToken where
  nativeBalance_setShard data balance := by
    refine congrArg some (BitVec.eq_of_toNat_eq ?_)
    have hlt := balance.isLt
    show (BitVec.ofNat 128 (leValue (leBytes 16 balance.toNat))).toNat = balance.toNat
    rw [leValue_leBytes, BitVec.toNat_ofNat]
    omega
  setShard_setShard _ _ _ := rfl

/-- A native effect as a message carries it. -/
def plainEffect (tag : BitVec 8) (amount : ℕ) : DeferredPublicEffect :=
  ⟨⟨0⟩, ⟨0⟩, tag :: leBytes 16 amount⟩

/-- Account 1 pays 4 and gets 1 back, account 2 gets 3. -/
def plainActions : List PublicActionWithID :=
  [⟨⟨1⟩, [plainEffect 0 4, plainEffect 1 1]⟩, ⟨⟨2⟩, [plainEffect 1 3]⟩]

theorem plainActions_native : ∀ action ∈ plainActions, ∀ effect ∈ action.effects,
    Native plainToken effect := by
  intro action haction effect heffect
  simp only [plainActions, List.mem_cons, List.not_mem_nil, or_false] at haction
  rcases haction with rfl | rfl
  · simp only [List.mem_cons, List.not_mem_nil, or_false] at heffect
    rcases heffect with rfl | rfl
    · exact ⟨rfl, rfl, rfl⟩
    · exact ⟨rfl, rfl, rfl⟩
  · obtain rfl := List.mem_singleton.mp heffect
    exact ⟨rfl, rfl, rfl⟩

/-- The two accounts are settled as the oracle expects them. -/
theorem assertPublicEffectsApplied_settles_plain :
    let state := ReferenceState.genesis [(⟨1⟩, 10), (⟨2⟩, 3)]
    ∃ accounts, settle plainToken [⟨1⟩] plainActions (plainMachine.getAccountById state) =
        some accounts ∧
      ∀ action ∈ plainActions, expectedAccount plainToken state [⟨1⟩] action =
        .ok (some (accounts action.accountId)) := by
  intro state
  have hsettles := assertPublicEffectsApplied_settles plainToken plainToken_laws state
    [⟨1⟩, ⟨2⟩] [⟨1⟩] plainActions ⟨_, rfl⟩ (by decide) plainActions_native
  have hsome :
      (settle plainToken [⟨1⟩] plainActions (plainMachine.getAccountById state)).isSome := by
    decide +kernel
  obtain ⟨accounts, haccounts⟩ := Option.isSome_iff_exists.mp hsome
  exact ⟨accounts, haccounts, fun action haction =>
    ((hsettles.2.1 accounts haccounts).1 action haction).1⟩

end LezFuzzing.Spec
