import LezFuzzing.Native.Genesis
import LezFuzzing.Native.Generators

/-!
# A machine that follows the native-transfer rules

The harnesses describe the state machine by its rules for native transfers: the
declared nonce is the sender's, the sender can pay, the recipient's balance does not
overflow, and sender and recipient differ. `referenceMachine` is a machine with these
rules and no others: every other transaction is rejected and leaves the state alone.

Which other transactions exist, who signs them and which of them pass the stateless
check is left open.
-/

namespace LezFuzzing.Spec

open LezFuzzing.Native

/-- A native transfer, as `create_transaction_native_token_transfer` receives it. -/
structure NativeTransfer (K : Keys) where
  sender : AccountId
  nonce : U128
  recipient : AccountId
  amount : U128
  privateKey : K.PrivateKey

/-- Transactions that are not native transfers. -/
structure OtherTransactions (K : Keys) where
  Pub : Type
  Priv : Type
  publicSigners : Pub → List K.PublicKey
  privateSigners : Priv → List K.PublicKey

/-- Account balances and nonces; an account never written to has zero of both. -/
abbrev ReferenceState := AccountId → Account U128

/-- Balances as listed, nonces zero. -/
def ReferenceState.genesis (accounts : List (AccountId × U128)) : ReferenceState := fun id =>
  ⟨0, ((accounts.find? fun acc => acc.1 = id).map Prod.snd).getD 0⟩

section Rules

variable {K : Keys} (state : ReferenceState) (t : NativeTransfer K)

/-- The complete list of dynamic acceptance rules. -/
def NativeTransfer.Valid : Prop :=
  t.sender ≠ t.recipient ∧ t.nonce = (state t.sender).nonce ∧
    t.amount.toNat ≤ (state t.sender).data.toNat ∧
    (state t.recipient).data.toNat + t.amount.toNat < 2 ^ 128

instance : Decidable (t.Valid state) := by unfold NativeTransfer.Valid; infer_instance

/-- Debit the sender, credit the recipient, increment the sender's nonce. -/
def NativeTransfer.settle : ReferenceState := fun id =>
  if id = t.sender then ⟨(state id).nonce + 1, (state id).data - t.amount⟩
  else if id = t.recipient then ⟨(state id).nonce, (state id).data + t.amount⟩
  else state id

end Rules

/-- The machine whose only valid transactions are native transfers. `statelessOk`
    says what passes the stateless check, which hands the transaction back. Reducible, so
    that its states are seen to be `ReferenceState`s. -/
@[reducible] def referenceMachine (K : Keys) (O : OtherTransactions K)
    (statelessOk : LeeTransaction (NativeTransfer K ⊕ O.Pub) O.Priv → Bool) : Machine where
  toKeys := K
  Data := U128
  nativeBalance := some
  State := ReferenceState
  getAccountById state id := state id
  Signature := Unit
  PublicTransaction := NativeTransfer K ⊕ O.Pub
  PrivacyPreservingTransaction := O.Priv
  publicWitness
    | .inl t => [((), K.newFromPrivateKey t.privateKey)]
    | .inr tx => (O.publicSigners tx).map ((), ·)
  privacyPreservingWitness tx := (O.privateSigners tx).map ((), ·)
  Error := Unit
  transactionStatelessCheck tx := if statelessOk tx then .ok tx else .error ()
  executeCheckOnState tx state _ _ :=
    match tx with
    | .Public (.inl t) => if t.Valid state then (.ok tx, t.settle state) else (.error (), state)
    | .Public (.inr _) => (.error (), state)
    | .PrivacyPreserving _ => (.error (), state)
  createTransactionNativeTokenTransfer sender nonce recipient amount privateKey :=
    .Public (.inl { sender, nonce, recipient, amount, privateKey })

/-! ## An instance that runs -/

/-- Keys that are their own public keys and account ids. -/
def plainKeys : Keys where
  PrivateKey := Bytes32
  PublicKey := Bytes32
  tryNew := some
  newFromPrivateKey := id
  accountIdFrom pk := ⟨pk⟩

/-- The reference machine over `plainKeys`, where everything passes the stateless check. -/
def plainMachine : Machine :=
  referenceMachine plainKeys ⟨Unit, Unit, fun _ => [], fun _ => []⟩ fun _ => true

/-- A transfer signed by its sender. -/
def plainTransfer (sender nonce recipient amount : ℕ) : NativeTransfer plainKeys where
  sender := ⟨.ofNat 256 sender⟩
  nonce := .ofNat 128 nonce
  recipient := ⟨.ofNat 256 recipient⟩
  amount := .ofNat 128 amount
  privateKey := BitVec.ofNat 256 sender

/-- The LEZ crates over `plainMachine`: the system accounts are numbered from 1000. -/
def plainGenesis : GenesisCrates plainMachine where
  defaultAccount := ⟨0, (0 : U128)⟩
  funded balance := ⟨0, balance⟩
  bridgeAccountId := ⟨1000⟩
  bridgeAccount := ⟨0, BitVec.allOnes 128⟩
  clockAccountIds := [⟨1001⟩, ⟨1002⟩, ⟨1003⟩]
  clockAccount := ⟨0, (0 : U128)⟩
  sequencerStakeConfigAccountId := ⟨1004⟩
  sequencerStakeConfigAccount := ⟨0, (0 : U128)⟩
  feeStateAccountId := ⟨1005⟩
  feeStateAccount := ⟨0, (0 : U128)⟩
  feeEscrowAccountId := ⟨1006⟩
  feeInboxAccountId := ⟨1007⟩
  feeAccountIds := [⟨1005⟩, ⟨1006⟩, ⟨1007⟩]
  Program := Unit
  clockProgram := (⟨2000⟩, ())
  feeProgram := (⟨2001⟩, ())
  bridgeProgram := (⟨2002⟩, ())
  sequencerStakeProgram := (⟨2003⟩, ())
  Commitment := Unit
  Nullifier := Unit
  new := fun _ => ⟨0, 0⟩
  withPublicAccounts state accounts := fun id =>
    accounts.foldl (fun current entry => if entry.1 = id then entry.2 else current) (state id)
  withPrivateAccounts state _ := state
  withNamedPrograms state _ := state

theorem plainGenesis_laws : GenesisLaws plainGenesis where
  getAccountById_withPublicAccounts _ _ _ := rfl
  balance_withPrivateAccounts _ _ _ := rfl
  balance_withNamedPrograms _ _ _ := rfl
  nativeBalance_funded _ := rfl
  mem_feeAccountIds id := by simp [plainGenesis]

/-- Draws that count up, whatever is asked for. -/
def countingDraws : Unstructured where
  Bytes := ℕ
  u8 n := (.ok (.ofNat 8 n), n + 1)
  u64 n := (.ok (.ofNat 64 n), n + 1)
  u128 n := (.ok (.ofNat 128 n), n + 1)
  bool n := (.ok (n % 2 = 1), n + 1)
  bytes32 n := (.ok (.ofNat 256 n), n + 1)
  vecU8 n := (.ok [.ofNat 8 n], n + 1)

end LezFuzzing.Spec
