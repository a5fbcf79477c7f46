import LezFuzzing.ForStd.Codec
import LezFuzzing.Native.ArbitraryTypes
import LezFuzzing.Native.Harness

/-!
# The targets without a state machine

`fuzz_encoding_roundtrip.rs`, `fuzz_transaction_decoding.rs`, `fuzz_state_serialization.rs`,
`fuzz_nullifier_set_roundtrip.rs` and `fuzz_stateless_verification.rs`: round trips through the
encodings, and the stateless check applied twice. A decoding whose result is dropped is only
run for its panics, of which a total function has none.
-/

namespace LezFuzzing.Native

/-- `Vec<u8>` -/
abbrev Blob := List (BitVec 8)

/-- The encodings of `nssa` and `common`. -/
structure EncodingCrates (M : Machine) where
  /-- `PublicTransaction::to_bytes` -/
  toBytes : M.PublicTransaction → Blob
  /-- `PublicTransaction::from_bytes` -/
  fromBytes : Blob → Option M.PublicTransaction
  /-- `borsh` for `LeeTransaction` -/
  leeTransaction : Codec Blob M.Tx
  /-- `borsh` for `V03State` -/
  state : Codec Blob M.State

section StatelessTargets

variable {M : Machine} (E : EncodingCrates M)

/-! ## `fuzz_encoding_roundtrip` -/

def assertEncodingRoundTrip (tx : M.PublicTransaction) : Except Panic Unit := do
  let encoded := E.toBytes tx
  let decoded ← Except.expect (E.fromBytes encoded)
    ⟨"INVARIANT VIOLATION: PublicTransaction::to_bytes() produced un-decodable output"⟩
  let reEncoded := E.toBytes decoded
  Except.assert (encoded = reEncoded)
    ⟨"INVARIANT VIOLATION: encode(decode(encode(tx))) != encode(tx) for PublicTransaction"⟩

def assertCanonicalEncoding (data : Blob) : Except Panic Unit :=
  match E.fromBytes data with
  | some tx => Except.assert (data = E.toBytes tx)
      ⟨"INVARIANT VIOLATION: PublicTransaction decoded from raw fuzzer bytes but re-encoding " ++
        "differs from the original input (non-canonical encoding accepted)"⟩
  | none => .ok ()

/-- Test 1, on a drawn transaction. -/
def drawnRoundTrip (A : PublicTxCrates M) (u : WideUnstructured) : Gen u.Bytes GenError Unit := do
  match ← attempt (arbPublicTransaction A u) with
  | some tx => checked (assertEncodingRoundTrip E tx)
  | none => return ()

/-- Test 2 takes the bytes that test 1 has drawn from as they are. -/
def fuzzEncodingRoundtrip (A : PublicTxCrates M) (u : WideUnstructured) (data : Blob) :
    Gen u.Bytes GenError Unit := do
  drawnRoundTrip E A u
  checked (assertCanonicalEncoding E data)

/-! ## The `borsh` round trips -/

/-- Encode, decode and encode once more, with the text of each way to fail. -/
def assertRoundTrip {α : Type} (C : Codec Blob α) (encodeErr decodeErr reEncodeErr mismatch : Panic)
    (value : α) : Except Panic Unit := do
  let reEncoded ← Except.expect (C.encode value) encodeErr
  let value2 ← Except.expect (C.decode reEncoded) decodeErr
  let reEncoded2 ← Except.expect (C.encode value2) reEncodeErr
  Except.assert (reEncoded = reEncoded2) mismatch

def fuzzTransactionDecoding (data : Blob) : Except Panic Unit :=
  match E.leeTransaction.decode data with
  | some tx => assertRoundTrip E.leeTransaction ⟨"re-encode of valid tx must succeed"⟩
      ⟨"second decode of re-encoded tx must succeed"⟩
      ⟨"called Result::unwrap() on an Err value"⟩
      ⟨"LeeTransaction roundtrip encoding divergence"⟩ tx
  | none => .ok ()

def fuzzStateSerialization (state : Codec Blob M.State) (data : Blob) : Except Panic Unit :=
  match state.decode data with
  | none => .ok ()
  | some decoded => assertRoundTrip state
      (.violation "StateSerializationRoundtrip"
        "borsh::to_vec of a successfully decoded V03State must not fail")
      (.violation "StateSerializationRoundtrip" ("borsh::from_slice of a V03State that was " ++
        "decoded-then-re-encoded must always succeed (round-trip must be stable)"))
      (.violation "StateSerializationRoundtrip" "second borsh::to_vec must not fail")
      (.violation "StateSerializationRoundtrip" ("encode(decode(encode(decode(data)))) != " ++
        "encode(decode(data)) — V03State Borsh codec is not idempotent"))
      decoded

/-- Part 1, on a genesis state with two nullifiers. -/
def fuzzNullifierSetRoundtrip (state : Codec Blob M.State) (genesis : M.State) :
    Except Panic Unit := do
  let bytes ← Except.expect (state.encode genesis) ⟨"BorshSerialize for V03State must not fail"⟩
  Except.assert (bytes ≠ []) ⟨"assertion failed: !bytes.is_empty()"⟩
  let state2 ← Except.expect (state.decode bytes) (.violation "NullifierSetRoundtrip"
    ("borsh::from_slice of a state with nullifiers must succeed (mutation delete-! in " ++
      "NullifierSet::deserialize_reader detected)"))
  let bytes2 ← Except.expect (state.encode state2) ⟨"second BorshSerialize must not fail"⟩
  Except.assert (bytes = bytes2) (.violation "NullifierSetRoundtrip"
    ("encode(decode(encode(state))) != encode(state) — NullifierSet round-trip is not " ++
      "idempotent"))

/-! ## `fuzz_stateless_verification` -/

/-- What passes the stateless check passes it again. -/
def assertCheckIdempotent (tx : M.Tx) : Except Panic Unit :=
  match M.transactionStatelessCheck tx with
  | .ok checkedTx => Except.assert (M.transactionStatelessCheck checkedTx).isOk
      ⟨"stateless_check is not idempotent: second call failed"⟩
  | .error _ => .ok ()

/-- Path B decodes the bytes and drops the result of the check. -/
def fuzzStatelessVerification (A : PublicTxCrates M) (u : WideUnstructured) :
    Gen u.Bytes GenError Unit := do
  match ← attempt (arbitraryTransaction A u) with
  | some tx => checked (assertCheckIdempotent tx)
  | none => return ()

end StatelessTargets

end LezFuzzing.Native
