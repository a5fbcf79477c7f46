import LezFuzzing.ForStd.Sweep
import LezFuzzing.Native.Harness
import LezFuzzing.Spec.GenesisCorrect
import LezFuzzing.Spec.PrivacyGeneratorsCorrect

/-!
# The frame raises no alarm of its own

Drawing the accounts never panics where the known-good seed is a key, and the genesis state
built from them can be read everywhere: every balance decodes, and no generated account has
used a nonce. What is left to a target is its own part.

## Key results

- `arbitraryFuzzState_failsWith`: the account generator does not panic
- `GenesisReadable.decodes`, `GenesisReadable.nonce_eq_zero`: what every target starts from
- `withFuzzState_returns_iff`: a target returns exactly when its own part does
-/

namespace LezFuzzing.Spec

open LezFuzzing.Native

theorem GenError.isErr_iff {e : GenError} : e.isErr = true ↔ IsErr e := by
  cases e with
  | err a => exact ⟨fun _ => ⟨a, rfl⟩, fun _ => rfl⟩
  | panic p => exact ⟨nofun, fun ⟨_, h⟩ => nomatch h⟩

/-- A generator without panics can be attempted. -/
theorem isErr_of_failsWith {σ α : Type} {g : Gen σ GenError α} (hg : g.FailsWith IsErr) :
    g.FailsWith fun e => e.isErr = true :=
  fun s e s' hrun => GenError.isErr_iff.mpr (hg s e s' hrun)

/-- A draw with a default returns a value. -/
theorem unwrapOr_succeeds {σ α : Type} {g : Gen σ GenError α} (hg : g.FailsWith IsErr)
    (default : α) : (unwrapOr g default).Succeeds := by
  intro s
  unfold unwrapOr
  cases hrun : g s with
  | mk result s' =>
    cases result with
    | ok a => exact ⟨a, s', rfl⟩
    | error e =>
      obtain ⟨a, rfl⟩ := hg s e s' hrun
      exact ⟨default, s', rfl⟩

/-- A draw with a default still gives every value. -/
theorem unwrapOr_hasRange {σ α : Type} {g : Gen σ GenError α} (hg : g.HasRange fun _ => True)
    (default : α) : (unwrapOr g default).HasRange fun _ => True := by
  refine .of_reaches (Gen.ensures_true _) fun a _ rest => ?_
  obtain ⟨s, hrun⟩ := hg.reaches (a := a) trivial rest
  exact ⟨s, by simp only [unwrapOr, hrun]⟩

theorem attempt_succeeds {σ α : Type} {g : Gen σ GenError α} (hg : g.FailsWith IsErr) :
    (attempt g).Succeeds := Gen.attempt_succeeds (isErr_of_failsWith hg)

/-- A draw of a target whose failure skips a part of it. -/
theorem sweeps_attempt {σ α : Type} {g : Gen σ GenError α} {P Q : α → Prop}
    {k : Option α → Gen σ GenError Unit} (hrange : g.HasRange P) (hfails : g.FailsWith IsErr)
    (hne : ∃ a, P a) (hnone : (k none).Succeeds) (hk : ∀ a, P a → (k (some a)).Sweeps (Q a)) :
    (attempt g >>= k).Sweeps (∀ a, P a → Q a) :=
  Gen.sweeps_attempt_bind hrange (isErr_of_failsWith hfails) hne hnone hk

section Accounts

variable {K : Keys} {u : Unstructured}

/-- With a valid known-good seed there always is a key to fall back to. -/
theorem arbPrivateKey_failsWith (hu : DrawsDoNotPanic u) (hseed : (K.tryNew knownGoodSeed).isSome) :
    (arbPrivateKey K u).FailsWith IsErr := by
  refine Gen.failsWith_bind hu.bytes32 fun bytes => ?_
  obtain ⟨key, hkey⟩ := Option.isSome_iff_exists.mp hseed
  cases K.tryNew bytes with
  | some key => exact Gen.failsWith_pure
  | none =>
    rw [hkey]
    exact Gen.failsWith_pure

/-- Drawing the accounts may fail, but it does not panic. -/
theorem arbitraryFuzzState_failsWith (hu : DrawsDoNotPanic u)
    (hseed : (K.tryNew knownGoodSeed).isSome) (reserved : List AccountId) :
    (arbitraryFuzzState K u reserved).FailsWith IsErr := by
  refine Gen.failsWith_bind hu.u8 fun byte => ?_
  refine Gen.failsWith_bind (Gen.failsWith_iterate (fun _ acc => ?_) _) fun acc =>
    Gen.failsWith_pure
  refine Gen.failsWith_bind (arbPrivateKey_failsWith hu hseed) fun key => ?_
  refine Gen.failsWith_bind hu.u128 fun raw => ?_
  dsimp only
  split
  · exact Gen.failsWith_pure
  · split
    · exact Gen.failsWith_pure
    · exact Gen.failsWith_pure

end Accounts

/-! ## Genesis -/

section Genesis

variable {M : Machine} {G : GenesisCrates M}

variable (G) in
/-- What the targets rely on beside `GenesisLaws`: every account of a fresh state and every
    system account decodes, and a funded account starts with nonce zero. -/
structure GenesisReadable : Prop where
  decodes_new : ∀ id, (M.balance G.new id).isSome
  decodes_system : ∀ entry ∈ systemAccounts G, (M.nativeBalance entry.2.data).isSome
  nonce_funded : ∀ balance, (G.funded balance).nonce = 0
  nonce_withPrivateAccounts : ∀ state privateAccounts id,
    M.nonce (G.withPrivateAccounts state privateAccounts) id = M.nonce state id
  nonce_withNamedPrograms : ∀ state programs id,
    M.nonce (G.withNamedPrograms state programs) id = M.nonce state id

/-- The last write to an id decides; without one the account is the old one. -/
private theorem foldl_write_cases {α : Type} (id : AccountId) (entries : List (AccountId × α))
    (account : α) :
    let written := entries.foldl (fun current entry => if entry.1 = id then entry.2 else current)
      account
    (written = account ∧ ∀ entry ∈ entries, entry.1 ≠ id) ∨ (id, written) ∈ entries := by
  induction entries generalizing account with
  | nil => exact .inl ⟨rfl, nofun⟩
  | cons entry entries ih =>
    intro written
    rcases ih (if entry.1 = id then entry.2 else account) with ⟨hsame, hne⟩ | hmem
    · by_cases heq : entry.1 = id
      · have hwritten : written = entry.2 := hsame.trans (if_pos heq)
        exact .inr (List.mem_cons.mpr (.inl (Prod.ext heq.symm hwritten)))
      · have hwritten : written = account := hsame.trans (if_neg heq)
        exact .inl ⟨hwritten, List.forall_mem_cons.mpr ⟨heq, hne⟩⟩
    · exact .inr (List.mem_cons_of_mem _ hmem)

/-- The account that genesis writes last under an id, or the one of a fresh state. -/
private theorem getAccountById_cases (laws : GenesisLaws G) (balances : List (AccountId × U128))
    (id : AccountId) :
    let account := M.getAccountById (G.withPublicAccounts G.new
      (balances.map (fun (accountId, balance) => (accountId, G.funded balance)) ++
        systemAccounts G)) id
    (account = M.getAccountById G.new id ∧ id ∉ balances.map Prod.fst) ∨
      (∃ balance, account = G.funded balance) ∨ (id, account) ∈ systemAccounts G := by
  intro account
  have hwrite := foldl_write_cases id
    (balances.map (fun (accountId, balance) => (accountId, G.funded balance)) ++
      systemAccounts G) (M.getAccountById G.new id)
  rw [← laws.getAccountById_withPublicAccounts] at hwrite
  rcases hwrite with ⟨hsame, hne⟩ | hmem
  · refine .inl ⟨hsame, fun hmem => ?_⟩
    obtain ⟨entry, hentry, rfl⟩ := List.mem_map.mp hmem
    exact hne _ (List.mem_append_left _ (List.mem_map_of_mem hentry)) rfl
  · rcases List.mem_append.mp hmem with hfunded | hsystem
    · obtain ⟨entry, _, heq⟩ := List.mem_map.mp hfunded
      exact .inr (.inl ⟨entry.2, (congrArg Prod.snd heq).symm⟩)
    · exact .inr (.inr hsystem)

/-- Every balance of a genesis state decodes. -/
theorem GenesisReadable.decodes (h : GenesisReadable G) (laws : GenesisLaws G)
    (balances : List (AccountId × U128)) (privateAccounts : List (G.Commitment × G.Nullifier))
    (id : AccountId) : (M.balance (genesisState G balances privateAccounts) id).isSome := by
  rw [genesisState, laws.balance_withNamedPrograms, laws.balance_withPrivateAccounts,
    Machine.balance]
  rcases getAccountById_cases laws balances id with ⟨hsame, _⟩ | ⟨balance, hfunded⟩ | hsystem
  · rw [hsame]
    exact h.decodes_new id
  · rw [hfunded, laws.nativeBalance_funded, Option.isSome_some]
  · exact h.decodes_system _ hsystem

/-- A listed account that is not reserved has not used a nonce. -/
theorem GenesisReadable.nonce_eq_zero (h : GenesisReadable G) (laws : GenesisLaws G)
    {balances : List (AccountId × U128)} (privateAccounts : List (G.Commitment × G.Nullifier))
    {id : AccountId} (hmem : id ∈ balances.map Prod.fst) (hreserved : id ∉ reservedAccountIds G) :
    M.nonce (genesisState G balances privateAccounts) id = 0 := by
  rw [genesisState, h.nonce_withNamedPrograms, h.nonce_withPrivateAccounts, Machine.nonce]
  rcases getAccountById_cases laws balances id with ⟨_, hnot⟩ | ⟨balance, hfunded⟩ | hsystem
  · exact absurd hmem hnot
  · rw [hfunded, h.nonce_funded]
  · exact absurd (mem_reservedAccountIds laws hsystem) hreserved

end Genesis

/-! ## The frame -/

section Frame

variable {M : Machine} {G : GenesisCrates M} {u : Unstructured}
  {target : List (FuzzAccount M.toKeys) → M.State → Gen u.Bytes GenError Unit}

/-- A target returns exactly when drawing its accounts fails or its own part returns. -/
theorem withFuzzState_returns_iff (hu : DrawsDoNotPanic u)
    (hseed : (M.tryNew knownGoodSeed).isSome) (input : u.Bytes) :
    (∃ rest, withFuzzState G u target input = (.ok (), rest)) ↔
      ∀ fuzzAccs mid,
        arbitraryFuzzState M.toKeys u (reservedAccountIds G) input = (.ok fuzzAccs, mid) →
        ∃ rest, target fuzzAccs (genesisState G (initAccounts fuzzAccs) []) mid =
          (.ok (), rest) := by
  exact Gen.exists_attempt_bind_eq_ok_iff
    (isErr_of_failsWith (arbitraryFuzzState_failsWith hu hseed (reservedAccountIds G)))
    fun s => ⟨s, rfl⟩

/-- A target never panics if its own part never does on generated accounts. -/
theorem withFuzzState_succeeds (hu : DrawsDoNotPanic u) (hseed : (M.tryNew knownGoodSeed).isSome)
    (htarget : ∀ fuzzAccs, FuzzAccountsWF (reservedAccountIds G) fuzzAccs →
      (target fuzzAccs (genesisState G (initAccounts fuzzAccs) [])).Succeeds) :
    (withFuzzState G u target).Succeeds := by
  intro input
  obtain ⟨rest, hrun⟩ := (withFuzzState_returns_iff hu hseed input).mpr fun fuzzAccs mid hrun =>
    have ⟨_, rest, hown⟩ :=
      htarget fuzzAccs (arbitraryFuzzState_wellFormed input fuzzAccs mid hrun) mid
    ⟨rest, hown⟩
  exact ⟨(), rest, hrun⟩

end Frame

end LezFuzzing.Spec
