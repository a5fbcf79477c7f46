import LezFuzzing.Native.ArbitraryTypes
import LezFuzzing.Native.Harness

/-!
# Block hashes (`fuzz_block_verification.rs`)

The target hashes an arbitrary block, once more after a round trip through `Block`, and then
with one field changed or its transactions reversed.
-/

namespace LezFuzzing.Native

/-- What the target uses of `common` and `borsh`. -/
structure BlockCrates (Tx : Type) where
  Block : Type
  intoPendingBlock : HashableBlockData Tx → Block
  /-- `block.header.hash` -/
  headerHash : Block → Bytes32
  /-- `HashableBlockData::from` -/
  fromBlock : Block → HashableBlockData Tx
  /-- `borsh::to_vec`; `none` is an `Err`. -/
  toVec : Tx → Option (List (BitVec 8))

section BlockVerification

variable {Tx : Type} (B : BlockCrates Tx)

/-- `base.into_pending_block().header.hash` -/
def BlockCrates.hash (base : HashableBlockData Tx) : Bytes32 :=
  B.headerHash (B.intoPendingBlock base)

/-- `bytes[0] ^= 0xFF` -/
def flipFirstByte (bytes : Bytes32) : Bytes32 := bytes ^^^ (0xFF#256 <<< 248)

def incrementBlockId (base : HashableBlockData Tx) : HashableBlockData Tx :=
  { base with blockId := base.blockId + 1 }

def flipPrevBlockHash (base : HashableBlockData Tx) : HashableBlockData Tx :=
  { base with prevBlockHash := flipFirstByte base.prevBlockHash }

def incrementTimestamp (base : HashableBlockData Tx) : HashableBlockData Tx :=
  { base with timestamp := base.timestamp + 1 }

def reverseTransactions (base : HashableBlockData Tx) : HashableBlockData Tx :=
  { base with transactions := base.transactions.reverse }

def assertHashRoundTrip (base : HashableBlockData Tx) : Except Panic Unit :=
  Except.assert (B.hash base = B.hash (B.fromBlock (B.intoPendingBlock base)))
    (.violation "HashRoundTrip" ("HashableBlockData::from(Block) is lossy — re-derived hash " ++
      "differs from the original (a field is dropped or transformed by the From impl, " ++
      "breaking hash integrity)"))

/-- `assert_ne!` on the hashes of a block and of a changed one. -/
def assertHashChanged (base changed : HashableBlockData Tx) (panic : Panic) : Except Panic Unit :=
  Except.assert (B.hash base ≠ B.hash changed) panic

/-- Blocks whose first and last transactions encode alike are not reversed. -/
def assertOrderCommitment (base : HashableBlockData Tx) : Except Panic Unit :=
  if 2 ≤ base.transactions.length then
    match base.transactions[0]?, base.transactions[base.transactions.length - 1]? with
    | some first, some last => do
      let firstVec ← Except.expect (B.toVec first)
        ⟨"serialising a fuzz-generated transaction must succeed"⟩
      let lastVec ← Except.expect (B.toVec last)
        ⟨"serialising a fuzz-generated transaction must succeed"⟩
      if firstVec ≠ lastVec then
        assertHashChanged B base (reverseTransactions base) (.violation "TxOrderCommitment"
          ("reversing the transaction list produced the same block hash — the hash is " ++
            "commutative over transactions (a transaction-reordering attack is possible " ++
            "without invalidating the block hash)"))
    | _, _ => .error ⟨"index out of bounds"⟩
  else
    return ()

def verifyBlock (base : HashableBlockData Tx) : Except Panic Unit := do
  assertHashRoundTrip B base
  assertHashChanged B base (incrementBlockId base) (.violation "HashPreimage/block_id"
    ("incrementing block_id did not change the block hash (block_id is absent from the hash " ++
      "preimage — an attacker can change the block number without invalidating the hash)"))
  assertHashChanged B base (flipPrevBlockHash base) (.violation "HashPreimage/prev_block_hash"
    ("flipping a byte in prev_block_hash did not change the block hash (prev_block_hash is " ++
      "absent from the hash preimage — chain continuity is not committed to)"))
  assertHashChanged B base (incrementTimestamp base) (.violation "HashPreimage/timestamp"
    ("incrementing timestamp did not change the block hash (timestamp is absent from the hash " ++
      "preimage — the block time can be rewritten without invalidating the hash)"))
  assertOrderCommitment B base

end BlockVerification

def fuzzBlockVerification {M : Machine} (A : PublicTxCrates M) (B : BlockCrates M.Tx)
    (u : WideUnstructured) : Gen u.Bytes GenError Unit := do
  match ← attempt (arbHashableBlockData A u) with
  | none => return ()
  | some base => checked (verifyBlock B base)

end LezFuzzing.Native
