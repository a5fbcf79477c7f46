import LezFuzzing.Native.Lez

/-!
# Genesis construction (`fuzz_props/src/genesis.rs`)

`genesis_state` chains the user accounts with the system accounts and hands the chain
to the state builder. The system accounts and the builder are LEZ code, collected in
a `GenesisCrates` parameter; `GenesisLaws` states what is relied on.
-/

namespace LezFuzzing.Native

/-- What `genesis.rs` uses of `nssa`, `system_accounts` and `programs`. -/
structure GenesisCrates (M : Machine) where
  /-- `Account::default()` -/
  defaultAccount : Account M.Data
  /-- `Account::funded` -/
  funded : U128 → Account M.Data
  bridgeAccountId : AccountId
  bridgeAccount : Account M.Data
  clockAccountIds : List AccountId
  clockAccount : Account M.Data
  sequencerStakeConfigAccountId : AccountId
  /-- `sequencer_stake_config_account(None, None)` -/
  sequencerStakeConfigAccount : Account M.Data
  feeStateAccountId : AccountId
  feeStateAccount : Account M.Data
  feeEscrowAccountId : AccountId
  feeInboxAccountId : AccountId
  /-- `system_accounts::fee_account_ids()` -/
  feeAccountIds : List AccountId
  Program : Type
  /-- The clock, fee, bridge and sequencer-stake programs, each with its id. -/
  clockProgram : AccountId × Program
  feeProgram : AccountId × Program
  bridgeProgram : AccountId × Program
  sequencerStakeProgram : AccountId × Program
  Commitment : Type
  Nullifier : Type
  /-- `V03State::new()` and its builder methods -/
  new : M.State
  withPublicAccounts : M.State → List (AccountId × Account M.Data) → M.State
  withPrivateAccounts : M.State → List (Commitment × Nullifier) → M.State
  withNamedPrograms : M.State → List (AccountId × Program) → M.State

variable {M : Machine} (G : GenesisCrates M)

/-- The accounts `genesis_state` appends to the ones it is given. -/
def systemAccounts : List (AccountId × Account M.Data) :=
  [(G.bridgeAccountId, G.bridgeAccount)] ++
  G.clockAccountIds.map (fun clockId => (clockId, G.clockAccount)) ++
  [(G.sequencerStakeConfigAccountId, G.sequencerStakeConfigAccount),
    (G.feeStateAccountId, G.feeStateAccount),
    (G.feeEscrowAccountId, G.defaultAccount),
    (G.feeInboxAccountId, G.defaultAccount)]

/-- Build a genesis state from public account balances and private accounts. -/
def genesisState (balances : List (AccountId × U128))
    (privateAccounts : List (G.Commitment × G.Nullifier)) : M.State :=
  let publicAccounts :=
    balances.map (fun (accountId, balance) => (accountId, G.funded balance)) ++ systemAccounts G
  -- the listed accounts come first, so a system account with the same id would win
  let state := G.withPublicAccounts G.new publicAccounts
  let state := G.withPrivateAccounts state privateAccounts
  G.withNamedPrograms state
    [G.clockProgram, G.feeProgram, G.bridgeProgram, G.sequencerStakeProgram]

/-- Public account ids that `genesis_state` populates itself. -/
def reservedAccountIds : List AccountId :=
  [G.bridgeAccountId, G.sequencerStakeConfigAccountId] ++ G.clockAccountIds ++ G.feeAccountIds

/-- What `genesis_state` relies on: public accounts are inserted in iteration order,
    the last write winning; the other builder steps change no native balance; a funded
    account holds its balance; the fee ids are the three that genesis populates. -/
structure GenesisLaws : Prop where
  getAccountById_withPublicAccounts : ∀ state accounts id,
    M.getAccountById (G.withPublicAccounts state accounts) id =
      accounts.foldl (fun current entry => if entry.1 = id then entry.2 else current)
        (M.getAccountById state id)
  balance_withPrivateAccounts : ∀ state privateAccounts id,
    M.balance (G.withPrivateAccounts state privateAccounts) id = M.balance state id
  balance_withNamedPrograms : ∀ state programs id,
    M.balance (G.withNamedPrograms state programs) id = M.balance state id
  nativeBalance_funded : ∀ balance, M.nativeBalance (G.funded balance).data = some balance
  mem_feeAccountIds : ∀ id, id ∈ G.feeAccountIds ↔
    id = G.feeStateAccountId ∨ id = G.feeEscrowAccountId ∨ id = G.feeInboxAccountId

end LezFuzzing.Native
