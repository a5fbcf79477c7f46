import LezFuzzing.Spec.InvariantsCorrect

/-!
# Generated accounts survive genesis

`arbitraryFuzzState` promises a list that genesis stores as it is: distinct ids, none
of them reserved, each derived from its key, with balances that cannot overflow a sum
of eight. `genesisState` writes the system accounts after the generated ones, so the
promise is kept only if every id it writes is one of `reservedAccountIds`.

## Key results

- `arbitraryFuzzState_wellFormed`: every returned list is well formed
- `balance_genesisState`: a listed, non-reserved account holds its listed balance
- `arbitraryFuzzState_genesis`: the two together, with the sum over the snapshot
-/

namespace LezFuzzing.Spec

open LezFuzzing.Native

/-! ## The generator -/

/-- What `arbitrary_fuzz_state` promises about its result. -/
structure FuzzAccountsWF {K : Keys} (reserved : List AccountId) (accounts : List (FuzzAccount K)) :
    Prop where
  length_le : accounts.length ≤ 8
  nodup : (accounts.map (·.accountId)).Nodup
  not_reserved : ∀ acc ∈ accounts, acc.accountId ∉ reserved
  derived : ∀ acc ∈ accounts, acc.accountId = accountIdForKey K acc.privateKey
  capped : ∀ acc ∈ accounts, acc.balance.toNat ≤ (2 ^ 128 - 1) / 8

section Generator

variable {K : Keys} {u : Unstructured} {reserved : List AccountId}

/-- The loop invariant after `k` iterations: the ids seen are those of the accounts
    pushed, and there are at most `k` of them. -/
private structure LoopInv (K : Keys) (reserved : List AccountId) (k : ℕ)
    (acc : List AccountId × List (FuzzAccount K)) : Prop where
  length_le : acc.2.length ≤ k
  seen : acc.1 = acc.2.map (·.accountId)
  nodup : (acc.2.map (·.accountId)).Nodup
  not_reserved : ∀ a ∈ acc.2, a.accountId ∉ reserved
  derived : ∀ a ∈ acc.2, a.accountId = accountIdForKey K a.privateKey
  capped : ∀ a ∈ acc.2, a.balance.toNat ≤ (2 ^ 128 - 1) / 8

/-- Skipping an account keeps the invariant. -/
private theorem LoopInv.skip {k : ℕ} {acc : List AccountId × List (FuzzAccount K)}
    (h : LoopInv K reserved k acc) : LoopInv K reserved (k + 1) acc :=
  { h with length_le := Nat.le_succ_of_le h.length_le }

/-- Pushing an account that is neither reserved nor seen keeps the invariant. -/
private theorem LoopInv.push {k : ℕ} {seen : List AccountId} {accounts : List (FuzzAccount K)}
    (h : LoopInv K reserved k (seen, accounts)) {a : FuzzAccount K}
    (hreserved : a.accountId ∉ reserved) (hseen : a.accountId ∉ seen)
    (hderived : a.accountId = accountIdForKey K a.privateKey)
    (hcapped : a.balance.toNat ≤ (2 ^ 128 - 1) / 8) :
    LoopInv K reserved (k + 1) (seen ++ [a.accountId], accounts ++ [a]) := by
  have hseenEq : seen = accounts.map (·.accountId) := h.seen
  -- the last three fields speak about each account by itself
  have hall : ∀ {P : FuzzAccount K → Prop}, (∀ b ∈ accounts, P b) → P a →
      ∀ b ∈ accounts ++ [a], P b := by
    intro P hold hnew b hb
    rw [List.mem_append, List.mem_singleton] at hb
    cases hb with
    | inl hb => exact hold b hb
    | inr hb => exact hb ▸ hnew
  exact {
    length_le := by
      have hlen := h.length_le
      simp only [List.length_append, List.length_singleton] at hlen ⊢
      omega
    seen := by simp [hseenEq]
    nodup := by
      rw [List.map_append, List.map_singleton, ← List.concat_eq_append, ← hseenEq]
      exact List.Nodup.concat hseen (hseenEq ▸ h.nodup)
    not_reserved := hall h.not_reserved hreserved
    derived := hall h.derived hderived
    capped := hall h.capped hcapped }

/-- One iteration keeps the invariant, whatever is drawn. -/
private theorem step_ensures (k : ℕ) (acc : List AccountId × List (FuzzAccount K))
    (h : LoopInv K reserved k acc) :
    (arbitraryFuzzState.step K u reserved acc).Ensures (LoopInv K reserved (k + 1)) := by
  obtain ⟨seen, accounts⟩ := acc
  refine Gen.ensures_bind_any fun privateKey => Gen.ensures_bind_any fun raw => ?_
  -- a reserved id, an id seen before, a new account
  split
  · exact Gen.ensures_pure h.skip
  · rename_i hreserved
    split
    · exact Gen.ensures_pure h.skip
    · rename_i hseen
      let a : FuzzAccount K := ⟨accountIdForKey K privateKey, raw / 8, privateKey⟩
      refine Gen.ensures_pure (h.push (a := a) hreserved hseen rfl ?_)
      have hdiv : (raw / 8 : U128).toNat = raw.toNat / 8 := by simp
      have hlt := raw.isLt
      show (raw / 8 : U128).toNat ≤ _
      omega

/-- Every list the generator returns keeps its promise. -/
theorem arbitraryFuzzState_wellFormed :
    (arbitraryFuzzState K u reserved).Ensures (FuzzAccountsWF reserved) := by
  refine Gen.ensures_bind_any fun byte => ?_
  have hinit : LoopInv K reserved 0 ([], []) := by
    exact ⟨Nat.le_refl 0, rfl, List.nodup_nil, nofun, nofun, nofun⟩
  have hloop := Gen.ensures_iterate (step_ensures (u := u)) (byte.toNat % 8 + 1) hinit
  refine Gen.ensures_bind hloop fun acc hacc => Gen.ensures_pure ?_
  have hlen := hacc.length_le
  exact ⟨by omega, hacc.nodup, hacc.not_reserved, hacc.derived, hacc.capped⟩

end Generator

/-- Capped balances of at most eight accounts add up to eight times the cap at most. -/
theorem FuzzAccountsWF.sum_le {K : Keys} {reserved : List AccountId}
    {accounts : List (FuzzAccount K)} (h : FuzzAccountsWF reserved accounts) :
    (accounts.map (·.balance.toNat)).sum ≤ 8 * ((2 ^ 128 - 1) / 8) := by
  have hsum : (accounts.map (·.balance.toNat)).sum ≤ accounts.length * ((2 ^ 128 - 1) / 8) := by
    have := List.sum_le_card_nsmul (accounts.map (·.balance.toNat)) ((2 ^ 128 - 1) / 8) (by
      intro b hb
      obtain ⟨acc, hacc, rfl⟩ := List.mem_map.mp hb
      exact h.capped acc hacc)
    simpa using this
  exact Nat.le_trans hsum (Nat.mul_le_mul_right ((2 ^ 128 - 1) / 8) h.length_le)

/-- Capped balances of at most eight accounts add up to a `u128`. -/
theorem FuzzAccountsWF.sum_lt {K : Keys} {reserved : List AccountId}
    {accounts : List (FuzzAccount K)} (h : FuzzAccountsWF reserved accounts) :
    (accounts.map (·.balance.toNat)).sum < 2 ^ 128 := by
  -- eight times the cap is the largest `u128` at most
  have hsum := h.sum_le
  omega

/-! ## Genesis -/

section Genesis

variable {M : Machine} {G : GenesisCrates M}

/-- Every account genesis appends has a reserved id. -/
theorem mem_reservedAccountIds (laws : GenesisLaws G)
    {entry : AccountId × Account M.Data} (h : entry ∈ systemAccounts G) :
    entry.1 ∈ reservedAccountIds G := by
  have hfee : ∀ id, (id = G.feeStateAccountId ∨ id = G.feeEscrowAccountId ∨
      id = G.feeInboxAccountId) → id ∈ reservedAccountIds G := fun id hid =>
    List.mem_append_right _ ((laws.mem_feeAccountIds id).mpr hid)
  -- bridge, clocks, stake config, then the three fee accounts
  simp only [systemAccounts, List.mem_append, List.mem_map, List.mem_cons,
    List.not_mem_nil, or_false] at h
  rcases h with (rfl | ⟨clockId, hclock, rfl⟩) | rfl | rfl | rfl | rfl
  · simp [reservedAccountIds]
  · simp [reservedAccountIds, hclock]
  · simp [reservedAccountIds]
  · exact hfee _ (Or.inl rfl)
  · exact hfee _ (Or.inr (Or.inl rfl))
  · exact hfee _ (Or.inr (Or.inr rfl))

/-- Writes to other ids do not change what an id holds. -/
private theorem foldl_write_of_ne {α : Type} (id : AccountId) (entries : List (AccountId × α))
    (current : α) (h : ∀ entry ∈ entries, entry.1 ≠ id) :
    entries.foldl (fun current entry => if entry.1 = id then entry.2 else current) current =
      current := by
  induction entries generalizing current with
  | nil => rfl
  | cons entry entries ih =>
    rw [List.forall_mem_cons] at h
    rw [List.foldl_cons, if_neg h.1, ih _ h.2]

/-- A listed account whose id is distinct and not reserved holds its listed balance. -/
theorem balance_genesisState (laws : GenesisLaws G) {balances : List (AccountId × U128)}
    (privateAccounts : List (G.Commitment × G.Nullifier)) (hnd : (balances.map Prod.fst).Nodup)
    {id : AccountId} {balance : U128} (hmem : (id, balance) ∈ balances)
    (hreserved : id ∉ reservedAccountIds G) :
    M.balance (genesisState G balances privateAccounts) id = some balance := by
  obtain ⟨pre, post, rfl⟩ := List.append_of_mem hmem
  have hpost : ∀ entry ∈ post, entry.1 ≠ id := by
    intro entry hentry heq
    rw [List.map_append, List.map_cons, List.nodup_append] at hnd
    -- the id was already used up by the entry in front
    have hnotMem : id ∉ post.map Prod.fst := (List.nodup_cons.mp hnd.2.1).1
    exact hnotMem (List.mem_map.mpr ⟨entry, hentry, heq⟩)
  have hsystem : ∀ entry ∈ systemAccounts G, entry.1 ≠ id := fun entry hentry heq =>
    hreserved (heq ▸ mem_reservedAccountIds laws hentry)
  rw [genesisState, laws.balance_withNamedPrograms, laws.balance_withPrivateAccounts,
    Machine.balance]
  -- the write of `id` is the last one to `id`: what follows writes other accounts
  rw [laws.getAccountById_withPublicAccounts, List.map_append, List.map_cons,
    List.foldl_append, List.foldl_append, List.foldl_cons, if_pos rfl,
    foldl_write_of_ne id (systemAccounts G) _ hsystem, foldl_write_of_ne,
    laws.nativeBalance_funded]
  intro entry hentry
  obtain ⟨source, hsource, rfl⟩ := List.mem_map.mp hentry
  exact hpost source hsource

end Genesis

/-! ## The two together -/

/-- Generated accounts are few, distinct, not reserved, derived from their keys and
    capped, and in the genesis state built from them each holds its generated balance,
    so that their snapshot adds up without overflow. -/
theorem arbitraryFuzzState_genesis (M : Machine) (G : GenesisCrates M) (laws : GenesisLaws G)
    (u : Unstructured) (input rest : u.Bytes) (accounts : List (FuzzAccount M.toKeys))
    (hrun : arbitraryFuzzState M.toKeys u (reservedAccountIds G) input = (.ok accounts, rest)) :
    accounts.length ≤ 8 ∧ (accounts.map (·.accountId)).Nodup ∧
    (∀ acc ∈ accounts, acc.accountId ∉ reservedAccountIds G ∧
      acc.accountId = accountIdForKey M.toKeys acc.privateKey ∧
      acc.balance.toNat ≤ (2 ^ 128 - 1) / 8) ∧
    ∀ privateAccounts : List (G.Commitment × G.Nullifier),
      let state := genesisState G (accounts.map fun acc => (acc.accountId, acc.balance))
        privateAccounts
      (∀ acc ∈ accounts, M.balance state acc.accountId = some acc.balance) ∧
      ∃ snapshot total, balanceSnapshot M state (accounts.map (·.accountId)) = .ok snapshot ∧
        snapshot.total = .ok total ∧
        total.toNat = (accounts.map (·.balance.toNat)).sum := by
  have hwf := arbitraryFuzzState_wellFormed input accounts rest hrun
  refine ⟨hwf.length_le, hwf.nodup,
    fun acc hacc => ⟨hwf.not_reserved acc hacc, hwf.derived acc hacc, hwf.capped acc hacc⟩, ?_⟩
  intro privateAccounts state
  have hkeys : (accounts.map fun acc => (acc.accountId, acc.balance)).map Prod.fst =
      accounts.map (·.accountId) := List.map_map
  have hbalance : ∀ acc ∈ accounts, M.balance state acc.accountId = some acc.balance :=
    fun acc hacc => balance_genesisState laws privateAccounts (hkeys ▸ hwf.nodup)
      (List.mem_map_of_mem hacc) (hwf.not_reserved acc hacc)
  have hdec : ∀ id ∈ accounts.map (·.accountId), (M.balance state id).isSome := by
    intro id hid
    obtain ⟨acc, hacc, rfl⟩ := List.mem_map.mp hid
    rw [hbalance acc hacc, Option.isSome_some]
  have htotal : totalNat M state (accounts.map (·.accountId)) =
      (accounts.map (·.balance.toNat)).sum := by
    rw [totalNat, List.map_map]
    exact congrArg List.sum (List.map_congr_left fun acc hacc =>
      balanceNat_of_balance (hbalance acc hacc))
  obtain ⟨total, heq⟩ := BitVec.exists_toNat_eq hwf.sum_lt
  refine ⟨hbalance, _, total, balanceSnapshot_eq_ok_iff.mpr ⟨hdec, rfl⟩, ?_, heq.symm⟩
  rw [BalanceSnapshot.total_eq_ok_iff, snapshotTotal_recordedBalances hwf.nodup, htotal, heq]

/-- Draws from 17 on give the accounts 18 and 20, with balances 2 each. -/
theorem arbitraryFuzzState_genesis_counting :
    let state := genesisState plainGenesis [(⟨18⟩, 2), (⟨20⟩, 2)] [((), ())]
    ∃ snapshot total, balanceSnapshot plainMachine state [⟨18⟩, ⟨20⟩] = .ok snapshot ∧
      snapshot.total = .ok total ∧ total.toNat = 4 :=
  ((arbitraryFuzzState_genesis plainMachine plainGenesis plainGenesis_laws countingDraws
    (17 : ℕ) (22 : ℕ) [⟨⟨18⟩, 2, (18 : Bytes32)⟩, ⟨⟨20⟩, 2, (20 : Bytes32)⟩]
    rfl).2.2.2 [((), ())]).2

end LezFuzzing.Spec
