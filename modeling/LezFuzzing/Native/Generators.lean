import LezFuzzing.ForStd.Gen
import LezFuzzing.Native.Lez

/-!
# Fuzz-driven accounts and transfers (`fuzz_props/src/generators.rs`)

`arbitrary::Unstructured` is a source of primitive draws, each of which may fail. How
it cuts the fuzzer's bytes into values is not fixed here: a generator is run against
any source of draws.
-/

namespace LezFuzzing.Native

/-- `arbitrary::Error`, as far as this repository raises it itself. -/
inductive ArbitraryError where
  | notEnoughData
  | incorrectFormat
  deriving DecidableEq

/-- How a generator stops: with an error its caller sees, or with a panic. -/
inductive GenError where
  | err (e : ArbitraryError)
  | panic (p : Panic)

/-- `arbitrary::Unstructured`: the remaining bytes and the draws made from them. -/
structure Unstructured where
  Bytes : Type
  u8 : Gen Bytes GenError (BitVec 8)
  u64 : Gen Bytes GenError U64
  u128 : Gen Bytes GenError U128
  bool : Gen Bytes GenError Bool
  /-- `<[u8; 32]>::arbitrary` -/
  bytes32 : Gen Bytes GenError Bytes32
  /-- `Vec<u8>::arbitrary` -/
  vecU8 : Gen Bytes GenError (List (BitVec 8))

/-- An account with a fuzz-driven balance and key. -/
structure FuzzAccount (K : Keys) where
  accountId : AccountId
  balance : U128
  privateKey : K.PrivateKey

/-- `[1_u8; 32]`, the known-good seed. -/
def knownGoodSeed : Bytes32 := 0x0101010101010101010101010101010101010101010101010101010101010101

section

variable (K : Keys) (u : Unstructured)

/-- `ArbPrivateKey`: 32 bytes as a key, or the known-good key where they are none. -/
def arbPrivateKey : Gen u.Bytes GenError K.PrivateKey := do
  let bytes ← u.bytes32
  match K.tryNew bytes with
  | some key => return key
  | none =>
    match K.tryNew knownGoodSeed with
    | some key => return key
    | none => Gen.fail (.panic ⟨"known-good seed"⟩)

/-- One iteration of the generator loop: the ids seen and the accounts pushed so far.
    A reserved id is skipped before it is recorded as seen. -/
def arbitraryFuzzState.step (reserved : List AccountId) :
    List AccountId × List (FuzzAccount K) →
      Gen u.Bytes GenError (List AccountId × List (FuzzAccount K)) :=
  fun (seen, accounts) => do
    let privateKey ← arbPrivateKey K u
    let accountId := accountIdForKey K privateKey
    let raw ← u.u128
    let balance := raw / 8 -- eight of these cannot overflow a sum
    if accountId ∈ reserved then
      return (seen, accounts)
    else if accountId ∈ seen then
      return (seen, accounts)
    else
      return (seen ++ [accountId], accounts ++ [{ accountId, balance, privateKey }])

/-- Up to 8 accounts with distinct, non-reserved ids and capped balances. -/
def arbitraryFuzzState (reserved : List AccountId) :
    Gen u.Bytes GenError (List (FuzzAccount K)) := do
  let byte ← u.u8
  let n := byte.toNat % 8 + 1
  let (_, accounts) ← Gen.iterate (arbitraryFuzzState.step K u reserved) n ([], [])
  return accounts

end

/-- A nonce in `0..=3` and an amount in `0..=balance`. -/
def biasedValidNonceAmount (nonceByte : BitVec 8) (amountRaw balance : U128) : U128 × U128 :=
  (nonceByte.zeroExtend 128 % 4, amountRaw % balance.saturatingAdd 1)

/-- A native transfer between two of the listed accounts, possibly the same one. -/
def arbFuzzNativeTransfer (M : Machine) (u : Unstructured)
    (accounts : List (FuzzAccount M.toKeys)) : Gen u.Bytes GenError M.Tx :=
  if h : accounts.length = 0 then
    Gen.fail (.err .incorrectFormat)
  else do
    let fromByte ← u.u8
    let toByte ← u.u8
    let src := accounts.get ⟨fromByte.toNat % accounts.length, Nat.mod_lt _ (Nat.pos_of_ne_zero h)⟩
    let dst := accounts.get ⟨toByte.toNat % accounts.length, Nat.mod_lt _ (Nat.pos_of_ne_zero h)⟩
    let biased ← u.bool
    if biased then -- half the time a nonce and an amount that are likely to be valid
      let nonceByte ← u.u8
      let amountRaw ← u.u128
      let (nonce, amount) := biasedValidNonceAmount nonceByte amountRaw src.balance
      return M.createTransactionNativeTokenTransfer src.accountId nonce dst.accountId amount
        src.privateKey
    else
      let nonce ← u.u128
      let amount ← u.u128
      return M.createTransactionNativeTokenTransfer src.accountId nonce dst.accountId amount
        src.privateKey

end LezFuzzing.Native
