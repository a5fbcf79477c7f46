import LezFuzzing.Native.Generators

/-!
# Arbitrary transactions (`fuzz_props/src/arbitrary_types.rs`)

The `Arb…` newtypes: every field of a public transaction is drawn on its own, so that most
transactions are malformed. Their constructors are LEZ code, collected in a parameter; each
takes its arguments in the order the source passes them.
-/

namespace LezFuzzing.Native

/-- `[u8; 64]`, as one number -/
abbrev Bytes64 := BitVec 512

/-- The draws of these generators: one more width than `Unstructured` has. -/
structure WideUnstructured extends Unstructured where
  /-- `<[u8; 64]>::arbitrary` -/
  bytes64 : Gen Bytes GenError Bytes64

/-- What `arbitrary_types.rs` uses of `nssa`. -/
structure PublicTxCrates (M : Machine) where
  ProgramShardSelector : Type
  /-- `ProgramShardSelector::new` -/
  programShardSelectorNew : AccountId → AccountId → ProgramShardSelector
  FeeDeclaration : Type
  /-- `FeeDeclaration::new` -/
  feeDeclarationNew : AccountId → U64 → U64 → U128 → FeeDeclaration
  Message : Type
  /-- `Message::new_preserialized` -/
  messageNewPreserialized : AccountId → List ProgramShardSelector → List U128 →
    List (BitVec 8) → Option FeeDeclaration → Message
  /-- `Signature { value }` -/
  signature : Bytes64 → M.Signature
  /-- `PublicKey::try_new`; `none` is no x-coordinate of a point. -/
  publicKeyTryNew : Bytes32 → Option M.PublicKey
  WitnessSet : Type
  /-- `WitnessSet::from_raw_parts` -/
  fromRawParts : List (M.Signature × M.PublicKey) → WitnessSet
  /-- `PublicTransaction::new` -/
  publicTransactionNew : Message → WitnessSet → M.PublicTransaction

/-- `HashableBlockData`, whose fields are all public. -/
structure HashableBlockData (Tx : Type) where
  blockId : U64
  prevBlockHash : Bytes32
  timestamp : U64
  transactions : List Tx

/-- `T::arbitrary(u).map_or_else(|_| default, |w| w)`, where the default may panic. -/
def mapOrElse {σ α : Type} (g default : Gen σ GenError α) : Gen σ GenError α := fun s =>
  match g s with
  | (.error (.err _), s') => default s'
  | other => other

/-- `repeat_with(|| g).take(len).collect::<ArbResult<Vec<_>>>()` -/
def repeatTake {σ α : Type} (g : Gen σ GenError α) (len : ℕ) : Gen σ GenError (List α) :=
  Gen.traverse (fun () => g) (List.replicate len ())

/-- The key of the known-good seed. -/
def knownGoodKey {σ : Type} (K : Keys) : Gen σ GenError K.PrivateKey :=
  match K.tryNew knownGoodSeed with
  | some key => pure key
  | none => Gen.fail (.panic ⟨"known-good seed"⟩)

variable {M : Machine} (A : PublicTxCrates M) (u : WideUnstructured)

def arbAccountId : Gen u.Bytes GenError AccountId := do
  let bytes ← u.bytes32
  return ⟨bytes⟩

/-- A `Nonce` is a `u128`. -/
def arbNonce : Gen u.Bytes GenError U128 := u.u128

def arbSignature : Gen u.Bytes GenError M.Signature := do
  let value ← u.bytes64
  return A.signature value

/-- A derived key, or raw bytes that fall back to a derived key where they are no point. -/
def arbPublicKey : Gen u.Bytes GenError M.PublicKey := do
  let valid ← u.bool
  if valid then
    let key ← arbPrivateKey M.toKeys u.toUnstructured
    return M.newFromPrivateKey key
  else
    let bytes ← u.bytes32
    match A.publicKeyTryNew bytes with
    | some pk => return pk
    | none =>
      let key ← mapOrElse (arbPrivateKey M.toKeys u.toUnstructured) (knownGoodKey M.toKeys)
      return M.newFromPrivateKey key

def arbProgramShardSelector : Gen u.Bytes GenError A.ProgramShardSelector := do
  let first ← arbAccountId u
  let second ← arbAccountId u
  return A.programShardSelectorNew first second

def arbFeeDeclaration : Gen u.Bytes GenError A.FeeDeclaration := do
  let accountId ← arbAccountId u
  let first ← u.u64
  let second ← u.u64
  let third ← u.u128
  return A.feeDeclarationNew accountId first second third

/-- `None` is a fee-exempt message. -/
def arbFee : Gen u.Bytes GenError (Option A.FeeDeclaration) := do
  let declared ← u.bool
  if declared then
    let fee ← arbFeeDeclaration A u
    return some fee
  else
    return none

/-- Up to seven selectors, and as many nonces. -/
def arbPubTxMessage : Gen u.Bytes GenError A.Message := do
  let programAccountId ← arbAccountId u
  let byte ← u.u8
  let len := byte.toNat % 8
  let shardSelectors ← repeatTake (arbProgramShardSelector A u) len
  let nonces ← repeatTake (arbNonce u) len
  let instructionData ← u.vecU8
  let fee ← arbFee A u
  return A.messageNewPreserialized programAccountId shardSelectors nonces instructionData fee

/-- Up to three pairs of a signature and a key, which need not belong together. -/
def arbWitnessSet : Gen u.Bytes GenError A.WitnessSet := do
  let byte ← u.u8
  let n := byte.toNat % 4
  let pairs ← repeatTake (do
    let signature ← arbSignature A u
    let publicKey ← arbPublicKey A u
    return (signature, publicKey)) n
  return A.fromRawParts pairs

def arbPublicTransaction : Gen u.Bytes GenError M.PublicTransaction := do
  let message ← arbPubTxMessage A u
  let witnessSet ← arbWitnessSet A u
  return A.publicTransactionNew message witnessSet

/-- The `Public` variant only. -/
def arbLeeTransaction : Gen u.Bytes GenError M.Tx := do
  let tx ← arbPublicTransaction A u
  return .Public tx

/-- Up to seven transactions under an arbitrary header. -/
def arbHashableBlockData : Gen u.Bytes GenError (HashableBlockData M.Tx) := do
  let byte ← u.u8
  let n := byte.toNat % 8
  let transactions ← repeatTake (arbLeeTransaction A u) n
  let blockId ← u.u64
  let prevBlockHash ← u.bytes32
  let timestamp ← u.u64
  return { blockId, prevBlockHash, timestamp, transactions }

/-- `arbitrary_transaction` (`generators.rs`) -/
def arbitraryTransaction : Gen u.Bytes GenError M.Tx := arbLeeTransaction A u

end LezFuzzing.Native
