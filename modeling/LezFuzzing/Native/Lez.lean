import LezFuzzing.ForStd.BitVec
import LezFuzzing.ForStd.Except
import LezFuzzing.ForStd.AList

/-!
# The LEZ crates, as the harnesses use them

The state machine under test (`nssa`, `nssa_core`, `common`) is not part of this
repository. A harness only calls it, so it is a parameter here: a `Machine` is any
choice of its types together with the functions the harnesses call. Nothing is
assumed about them in this file; a result that needs more says so in its hypotheses.

Rust's mutable state is passed explicitly: a call that takes `&mut state` returns
the state it leaves behind, whether it succeeded or not.
-/

namespace LezFuzzing.Native

/-- `u64` -/
abbrev U64 := BitVec 64

/-- `u128` -/
abbrev U128 := BitVec 128

/-- `[u8; 32]`, as one number -/
abbrev Bytes32 := BitVec 256

/-- `std::collections::HashMap`: lookup by key, and some order of enumeration. -/
abbrev HashMap (K V : Type) := AList fun _ : K => V

/-- Any 32 bytes name an account. -/
structure AccountId where
  value : Bytes32
  deriving DecidableEq, Repr

/-- An account: its nonce, and its program data with the native-token shard. -/
structure Account (Data : Type) where
  nonce : U128
  data : Data
  deriving DecidableEq

/-- A panic of the harness, with its text. -/
structure Panic where
  message : String

/-- The text every violated invariant is reported with. -/
def Panic.violation (invariant message : String) : Panic :=
  ⟨s!"INVARIANT VIOLATION [{invariant}]: {message}"⟩

/-- The two transaction kinds. -/
inductive LeeTransaction (Pub Priv : Type) where
  | Public (tx : Pub)
  | PrivacyPreserving (tx : Priv)

/-- Signing keys and the account ids derived from them. -/
structure Keys where
  PrivateKey : Type
  PublicKey : Type
  /-- `PrivateKey::try_new`; `none` is an invalid scalar. -/
  tryNew : Bytes32 → Option PrivateKey
  newFromPrivateKey : PrivateKey → PublicKey
  /-- `AccountId::from(&public_key)` -/
  accountIdFrom : PublicKey → AccountId

/-- The state machine and the transaction types. -/
structure Machine extends Keys where
  /-- `Account::data` -/
  Data : Type
  [decEqData : DecidableEq Data]
  /-- Decode the native-token shard; `none` is a shard that does not decode. -/
  nativeBalance : Data → Option U128
  /-- `V03State` -/
  State : Type
  getAccountById : State → AccountId → Account Data
  Signature : Type
  PublicTransaction : Type
  PrivacyPreservingTransaction : Type
  /-- `witness_set().signatures_and_public_keys()` of a public transaction -/
  publicWitness : PublicTransaction → List (Signature × PublicKey)
  /-- `witness_set().signatures_and_public_keys()` of a privacy-preserving transaction -/
  privacyPreservingWitness : PrivacyPreservingTransaction → List (Signature × PublicKey)
  Error : Type
  transactionStatelessCheck : LeeTransaction PublicTransaction PrivacyPreservingTransaction →
    Except Error (LeeTransaction PublicTransaction PrivacyPreservingTransaction)
  /-- Consumes the transaction and hands it back on success. -/
  executeCheckOnState : LeeTransaction PublicTransaction PrivacyPreservingTransaction → State →
    U64 → U64 → Except Error (LeeTransaction PublicTransaction PrivacyPreservingTransaction) × State
  /-- `common::test_utils`: sender, nonce, recipient, amount, signing key -/
  createTransactionNativeTokenTransfer : AccountId → U128 → AccountId → U128 → PrivateKey →
    LeeTransaction PublicTransaction PrivacyPreservingTransaction

instance (M : Machine) : DecidableEq M.Data := M.decEqData

/-- The transactions of a machine. -/
abbrev Machine.Tx (M : Machine) := LeeTransaction M.PublicTransaction M.PrivacyPreservingTransaction

/-- The native balance of an account, if its shard decodes. -/
def Machine.balance (M : Machine) (state : M.State) (id : AccountId) : Option U128 :=
  M.nativeBalance (M.getAccountById state id).data

/-- The nonce of an account. -/
def Machine.nonce (M : Machine) (state : M.State) (id : AccountId) : U128 :=
  (M.getAccountById state id).nonce

/-- The account a private key signs for. -/
def accountIdForKey (K : Keys) (key : K.PrivateKey) : AccountId :=
  K.accountIdFrom (K.newFromPrivateKey key)

/-- The signers of a transaction, from its witness set. -/
def signerAccountIds (M : Machine) : M.Tx → List AccountId
  | .Public pt => (M.publicWitness pt).map fun (_, pk) => M.accountIdFrom pk
  | .PrivacyPreserving pt => (M.privacyPreservingWitness pt).map fun (_, pk) => M.accountIdFrom pk

end LezFuzzing.Native
