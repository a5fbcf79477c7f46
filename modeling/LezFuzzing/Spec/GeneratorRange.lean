import LezFuzzing.Spec.ArbitraryTypesCorrect
import LezFuzzing.Spec.ReferenceCorrect

/-!
# What fuzz states and transfers there are

`arbitraryFuzzState` promises distinct, non-reserved accounts with capped balances. Beyond
that it leaves nothing out: every such list of at most eight accounts can be drawn, and the
empty list exactly if some key collides with a reserved id. From a list of accounts every
native transfer between two of them can be drawn, whatever its nonce and amount.

## Key results

- `arbitraryFuzzState_hasRange`: the account lists
- `arbFuzzNativeTransfer_hasRange`: the transfers
- `fuzzInputs_range`: both, for what most targets begin with
-/

namespace LezFuzzing.Spec

open LezFuzzing.Native

section States

variable {K : Keys} {u : Unstructured} {reserved : List AccountId}

/-- Accounts as the generator can return them. -/
structure ReachableAccounts (K : Keys) (reserved : List AccountId)
    (accounts : List (FuzzAccount K)) : Prop extends FuzzAccountsWF reserved accounts where
  keys : ∀ acc ∈ accounts, ReachableKey K acc.privateKey
  of_nil : accounts = [] → ∃ key, ReachableKey K key ∧ accountIdForKey K key ∈ reserved

/-- The loop invariant that the range needs beyond `FuzzAccountsWF`. -/
private structure RangeInv (K : Keys) (reserved : List AccountId) (k : ℕ)
    (acc : List AccountId × List (FuzzAccount K)) : Prop where
  seen : acc.1 = acc.2.map (·.accountId)
  keys : ∀ a ∈ acc.2, ReachableKey K a.privateKey
  of_nil : 0 < k → acc.2 = [] → ∃ key, ReachableKey K key ∧ accountIdForKey K key ∈ reserved

private theorem rangeInv_step (k : ℕ) (acc : List AccountId × List (FuzzAccount K))
    (h : RangeInv K reserved k acc) :
    (arbitraryFuzzState.step K u reserved acc).Ensures (RangeInv K reserved (k + 1)) := by
  obtain ⟨seen, accounts⟩ := acc
  refine Gen.ensures_bind arbPrivateKey_ensures fun key hkey => ?_
  refine Gen.ensures_bind_any fun raw => ?_
  dsimp only
  split
  · rename_i hreserved
    exact Gen.ensures_pure ⟨h.seen, h.keys, fun _ _ => ⟨key, hkey, hreserved⟩⟩
  · split
    · rename_i hseen
      refine Gen.ensures_pure ⟨h.seen, h.keys, fun _ hnil => ?_⟩
      -- an id that was seen belongs to an account that was pushed
      have hnone : seen = [] := h.seen.trans (congrArg _ hnil)
      rw [hnone] at hseen
      exact nomatch hseen
    · refine Gen.ensures_pure ⟨?_, ?_, fun _ hnil => ?_⟩
      · have hseen : seen = accounts.map (·.accountId) := h.seen
        rw [List.map_append, ← hseen]
        rfl
      · exact List.forall_mem_append.mpr ⟨h.keys, List.forall_mem_singleton.mpr hkey⟩
      · exact absurd (List.append_eq_nil_iff.mp hnil).2 (List.cons_ne_nil _ _)

theorem arbitraryFuzzState_ensures :
    (arbitraryFuzzState K u reserved).Ensures (ReachableAccounts K reserved) := by
  intro s accounts s' hrun
  have hwf := arbitraryFuzzState_wellFormed s accounts s' hrun
  obtain ⟨byte, mid, _, hloop⟩ := Gen.exists_of_bind_eq_ok hrun
  obtain ⟨acc, rest, hiter, hpure⟩ := Gen.exists_of_bind_eq_ok hloop
  obtain ⟨seen, drawn⟩ := acc
  obtain rfl := Except.ok.inj (Prod.mk.inj hpure).1
  have hstart : RangeInv K reserved 0 ([], []) := ⟨rfl, nofun, nofun⟩
  have hinv := Gen.ensures_iterate rangeInv_step _ hstart mid _ rest hiter
  exact { hwf with keys := hinv.keys, of_nil := hinv.of_nil (by omega) }

/-! ### Every list can be drawn -/

/-- A capped balance is an eighth of some number. -/
private theorem capped_mul_div {balance : U128} (hcap : balance.toNat ≤ (2 ^ 128 - 1) / 8) :
    balance * 8 / 8 = balance := by
  refine BitVec.eq_of_toNat_eq ?_
  have hmul : (balance * 8).toNat = balance.toNat * 8 := by
    rw [BitVec.toNat_mul]
    exact Nat.mod_eq_of_lt (show balance.toNat * 8 < 2 ^ 128 by omega)
  rw [BitVec.toNat_udiv, hmul]
  exact Nat.mul_div_cancel _ (by decide)

variable (hu : DrawsReach u)
include hu

/-- An iteration can push any account that may come next. -/
private theorem step_reaches_push {seen : List AccountId} {accounts : List (FuzzAccount K)}
    {a : FuzzAccount K} (hkey : ReachableKey K a.privateKey)
    (hderived : a.accountId = accountIdForKey K a.privateKey)
    (hcap : a.balance.toNat ≤ (2 ^ 128 - 1) / 8) (hreserved : a.accountId ∉ reserved)
    (hseen : a.accountId ∉ seen) :
    (arbitraryFuzzState.step K u reserved (seen, accounts)).Reaches
      (seen ++ [a.accountId], accounts ++ [a]) := by
  refine Gen.reaches_bind ((arbPrivateKey_hasRange hu).reaches hkey) ?_
  refine Gen.reaches_bind (hu.u128.reaches trivial : Gen.Reaches _ (a.balance * 8)) ?_
  dsimp only
  rw [← hderived, if_neg hreserved, if_neg hseen, capped_mul_div hcap]
  exact Gen.reaches_pure

/-- The loop can push a whole list, one account an iteration. -/
private theorem iterate_reaches {accounts pushed : List (FuzzAccount K)}
    (hwf : FuzzAccountsWF reserved (pushed ++ accounts))
    (hkeys : ∀ acc ∈ accounts, ReachableKey K acc.privateKey) :
    (Gen.iterate (arbitraryFuzzState.step K u reserved) accounts.length
      (pushed.map (·.accountId), pushed)).Reaches
        ((pushed ++ accounts).map (·.accountId), pushed ++ accounts) := by
  induction accounts generalizing pushed with
  | nil =>
    rw [List.append_nil]
    exact Gen.reaches_pure
  | cons a accounts ih =>
    obtain ⟨hkey, hrest⟩ := List.forall_mem_cons.mp hkeys
    have ha : a ∈ pushed ++ a :: accounts := List.mem_append_right _ List.mem_cons_self
    have hseen : a.accountId ∉ pushed.map (·.accountId) := by
      have hnd := hwf.nodup
      rw [List.map_append, List.map_cons, List.nodup_append] at hnd
      exact fun hmem => hnd.2.2 _ hmem _ List.mem_cons_self rfl
    have hnext : pushed ++ a :: accounts = (pushed ++ [a]) ++ accounts := by simp
    refine Gen.reaches_bind (step_reaches_push hu hkey (hwf.derived a ha) (hwf.capped a ha)
      (hwf.not_reserved a ha) hseen) ?_
    have hiter := @ih (pushed ++ [a]) (hnext ▸ hwf) hrest
    rw [List.map_append, List.map_singleton] at hiter
    rw [hnext]
    exact hiter

/-- The range of the account generator. -/
theorem arbitraryFuzzState_hasRange :
    (arbitraryFuzzState K u reserved).HasRange (ReachableAccounts K reserved) := by
  refine .of_reaches arbitraryFuzzState_ensures fun accounts haccounts => ?_
  cases haccs : accounts with
  | nil =>
    -- one iteration that skips a reserved id
    obtain ⟨key, hkey, hreserved⟩ := haccounts.of_nil haccs
    refine Gen.reaches_bind (hu.u8.reaches trivial : Gen.Reaches _ (0 : BitVec 8)) ?_
    refine Gen.reaches_bind (a := (([], []) : List AccountId × List (FuzzAccount K))) ?_
      Gen.reaches_pure
    refine Gen.reaches_bind (a := (([], []) : List AccountId × List (FuzzAccount K))) ?_
      Gen.reaches_pure
    refine Gen.reaches_bind ((arbPrivateKey_hasRange hu).reaches hkey) ?_
    refine Gen.reaches_bind (hu.u128.reaches trivial : Gen.Reaches _ (0 : U128)) ?_
    dsimp only
    rw [if_pos hreserved]
    exact Gen.reaches_pure
  | cons first rest =>
    have hle := haccounts.length_le
    rw [haccs, List.length_cons] at hle
    obtain ⟨byte, hbyte⟩ := (exists_byte_mod_eq_iff (k := 8) (n := rest.length) (by decide)
      (by decide)).mpr (by omega)
    have hiter := @iterate_reaches _ _ _ hu accounts [] haccounts.toFuzzAccountsWF haccounts.keys
    rw [haccs, List.length_cons, hbyte] at hiter
    refine Gen.reaches_bind (hu.u8.reaches trivial : Gen.Reaches _ byte) ?_
    exact Gen.reaches_bind hiter Gen.reaches_pure

end States

/-! ## Transfers -/

section Transfers

variable {M : Machine} {u : Unstructured} {accounts : List (FuzzAccount M.toKeys)}

/-- The range of the transfer generator; a byte reaches every one of 256 accounts. -/
theorem arbFuzzNativeTransfer_hasRange (hu : DrawsReach u) (hle : accounts.length ≤ 256) :
    (arbFuzzNativeTransfer M u accounts).HasRange (Listed M accounts) := by
  refine .of_reaches (arbFuzzNativeTransfer_listed M u accounts) fun tx htx => ?_
  obtain ⟨src, hsrc, dst, hdst, nonce, amount, rfl⟩ := htx
  have hne : ¬ accounts.length = 0 := fun h => by
    rw [List.length_eq_zero_iff.mp h] at hsrc
    exact nomatch hsrc
  have hindex : ∀ acc ∈ accounts, ∃ (byte : BitVec 8)
      (hlt : byte.toNat % accounts.length < accounts.length),
      accounts.get ⟨byte.toNat % accounts.length, hlt⟩ = acc := by
    intro acc hacc
    obtain ⟨i, hget⟩ := List.mem_iff_get.mp hacc
    obtain ⟨byte, hbyte⟩ := (exists_byte_mod_eq_iff (by omega) hle).mpr i.isLt
    exact ⟨byte, hbyte ▸ i.isLt, by rw [← hget]; exact congrArg _ (Fin.ext hbyte.symm)⟩
  obtain ⟨fromByte, _, hfrom⟩ := hindex src hsrc
  obtain ⟨toByte, _, hto⟩ := hindex dst hdst
  rw [arbFuzzNativeTransfer, dif_neg hne]
  refine Gen.reaches_bind (hu.u8.reaches trivial : Gen.Reaches _ fromByte) ?_
  refine Gen.reaches_bind (hu.u8.reaches trivial : Gen.Reaches _ toByte) ?_
  -- the adversarial branch covers the biased one
  refine Gen.reaches_bind (hu.bool.reaches trivial : Gen.Reaches _ false) ?_
  refine Gen.reaches_bind (hu.u128.reaches trivial : Gen.Reaches _ nonce) ?_
  refine Gen.reaches_bind (hu.u128.reaches trivial : Gen.Reaches _ amount) ?_
  rw [hfrom, hto]
  exact Gen.reaches_pure

end Transfers

/-- What most targets begin with, in full: where every primitive value can be drawn, the
    accounts are exactly the lists of at most eight distinct, non-reserved accounts with
    constructible keys, the ids of these keys and balances of at most an eighth of the
    maximum, empty only if some key has a reserved id; and for each of these lists the
    transfers are exactly those between two of its accounts, with any nonce and amount. -/
theorem fuzzInputs_range (M : Machine) (u : Unstructured) (hu : DrawsReach u)
    (reserved : List AccountId) (accounts : List (FuzzAccount M.toKeys)) :
    (∀ rest, (∃ input, arbitraryFuzzState M.toKeys u reserved input = (.ok accounts, rest)) ↔
      ReachableAccounts M.toKeys reserved accounts) ∧
    (ReachableAccounts M.toKeys reserved accounts → ∀ tx rest,
      (∃ input, arbFuzzNativeTransfer M u accounts input = (.ok tx, rest)) ↔
        Listed M accounts tx) := by
  refine ⟨arbitraryFuzzState_hasRange hu accounts, fun haccounts =>
    arbFuzzNativeTransfer_hasRange hu ?_⟩
  have hle := haccounts.length_le
  omega

/-- Two accounts and a transfer between them that bytes can lead to. -/
theorem fuzzInputs_range_tape :
    let accounts : List (FuzzAccount plainMachine.toKeys) :=
      [⟨⟨7⟩, 100, (7 : Bytes32)⟩, ⟨⟨9⟩, 0, (9 : Bytes32)⟩]
    (∃ input, arbitraryFuzzState plainMachine.toKeys byteTape.toUnstructured [⟨1000⟩] input =
      (.ok accounts, [])) ∧
    ∃ input, arbFuzzNativeTransfer plainMachine byteTape.toUnstructured accounts input =
      (.ok (.Public (.inl (plainTransfer 7 5 9 100))), []) := by
  intro accounts
  have hrange := fuzzInputs_range plainMachine byteTape.toUnstructured
    byteTape_reaches.toDrawsReach [⟨1000⟩] accounts
  have hall : ∀ acc ∈ accounts, acc.accountId ∉ [(⟨1000⟩ : AccountId)] ∧
      acc.accountId = accountIdForKey plainMachine.toKeys acc.privateKey ∧
      acc.balance.toNat ≤ (2 ^ 128 - 1) / 8 ∧ ReachableKey plainMachine.toKeys acc.privateKey :=
    List.forall_mem_cons.mpr ⟨⟨by decide, rfl, by decide, 7, rfl⟩,
      List.forall_mem_singleton.mpr ⟨by decide, rfl, by decide, 9, rfl⟩⟩
  have haccounts : ReachableAccounts plainMachine.toKeys [⟨1000⟩] accounts := {
    length_le := by decide
    nodup := by decide
    not_reserved := fun acc hacc => (hall acc hacc).1
    derived := fun acc hacc => (hall acc hacc).2.1
    capped := fun acc hacc => (hall acc hacc).2.2.1
    keys := fun acc hacc => (hall acc hacc).2.2.2
    of_nil := nofun }
  exact ⟨(hrange.1 []).mpr haccounts, (hrange.2 haccounts _ []).mpr
    ⟨_, List.mem_cons_self, _, List.mem_cons_of_mem _ List.mem_cons_self, 5, 100, rfl⟩⟩

end LezFuzzing.Spec
