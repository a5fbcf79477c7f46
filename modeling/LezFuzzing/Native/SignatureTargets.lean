import LezFuzzing.Native.ArbitraryTypes
import LezFuzzing.Native.Harness
import LezFuzzing.Native.PrivacyGenerators

/-!
# The signature targets (`fuzz_signature_verification.rs`, `fuzz_witness_set_verification.rs`)

Both consist of independent parts, each of which draws its own inputs from the bytes that the
parts before it have left over. A part whose draws fail is skipped.
-/

namespace LezFuzzing.Native

/-- What the targets use of `nssa` to sign and verify. -/
structure SignatureCrates {M : Machine} (A : PublicTxCrates M) where
  /-- `Signature::new` -/
  signatureNew : M.PrivateKey → Bytes32 → M.Signature
  /-- `Signature::is_valid_for` -/
  signatureIsValidFor : M.Signature → Bytes32 → M.PublicKey → Bool
  /-- `WitnessSet::for_message` -/
  forMessage : A.Message → List M.PrivateKey → A.WitnessSet
  /-- `WitnessSet::is_valid_for` -/
  isValidFor : A.WitnessSet → A.Message → Bool
  /-- `borsh::to_vec`; `none` is an `Err`. -/
  messageToVec : A.Message → Option (List (BitVec 8))

section Targets

variable {M : Machine} {A : PublicTxCrates M} (V : SignatureCrates A) (u : WideUnstructured)

/-- `ArbPrivateKey::arbitrary(&mut u)` -/
def drawKey (M : Machine) : Gen u.Bytes GenError (Option M.PrivateKey) :=
  attempt (arbPrivateKey M.toKeys u.toUnstructured)

/-! ## `fuzz_signature_verification` -/

/-- `u.arbitrary().unwrap_or_default()` for a message of 32 bytes. -/
def drawDigest : Gen u.Bytes GenError Bytes32 := unwrapOr u.bytes32 0

/-- A fresh signature verifies. -/
def freshSignature : Gen u.Bytes GenError Unit := do
  match ← drawKey u M with
  | none => return ()
  | some privateKey =>
    let publicKey := M.newFromPrivateKey privateKey
    let msg ← drawDigest u
    checked (Except.assert (V.signatureIsValidFor (V.signatureNew privateKey msg) msg publicKey)
      ⟨"INVARIANT VIOLATION: Signature::new + is_valid_for returned false for the signing key"⟩)

/-- Random signatures are verified for the sake of it: the result is dropped. -/
def randomSignature (A : PublicTxCrates M) : Gen u.Bytes GenError Unit := do
  let signature ← attempt (arbSignature A u)
  let publicKey ← attempt (arbPublicKey A u)
  match signature, publicKey with
  | some _, some _ =>
    let _ ← drawDigest u
    return ()
  | _, _ => return ()

/-- Two keys, and a signature of one of them under the other. -/
def crossKey [DecidableEq M.PublicKey] : Gen u.Bytes GenError Unit := do
  let keyA ← drawKey u M
  let keyB ← drawKey u M
  match keyA, keyB with
  | some keyA, some keyB =>
    let publicA := M.newFromPrivateKey keyA
    let publicB := M.newFromPrivateKey keyB
    let msg ← drawDigest u
    let signature := V.signatureNew keyA msg
    if publicA ≠ publicB then
      checked (Except.assert (V.signatureIsValidFor signature msg publicB = false)
        ⟨"INVARIANT VIOLATION: signature created with key_a verified successfully " ++
          "against key_b where key_a != key_b (cross-key forgery / broken verification)"⟩)
    else
      return ()
  | _, _ => return ()

def fuzzSignatureVerification [DecidableEq M.PublicKey] : Gen u.Bytes GenError Unit := do
  freshSignature V u
  randomSignature u A
  crossKey V u

/-! ## `fuzz_witness_set_verification` -/

/-- Random witness sets are verified for the sake of it: the result is dropped. -/
def randomWitnessSet (A : PublicTxCrates M) : Gen u.Bytes GenError Unit := do
  let _ ← attempt (arbWitnessSet A u)
  let _ ← attempt (arbPubTxMessage A u)
  return ()

/-- Up to three keys. -/
def drawKeys (M : Machine) : Gen u.Bytes GenError (List M.PrivateKey) := do
  let byte ← unwrapOr u.u8 0
  forDrawn (byte.toNat % 4) [] (fun _ => arbPrivateKey M.toKeys u.toUnstructured)
    fun _ keys key => .ok (keys ++ [key])

/-- A witness set is valid for the message it was made for. -/
def correctVerification : Gen u.Bytes GenError Unit := do
  match ← attempt (arbPubTxMessage A u) with
  | none => return ()
  | some msg =>
    let keys ← drawKeys u M
    checked (Except.assert (V.isValidFor (V.forMessage msg keys) msg)
      (.violation "CorrectVerification" ("WitnessSet::for_message produced a witness set that " ++
        "fails is_valid_for on the same message")))

/-- Messages that fail to serialise are not compared. -/
def messagesAreDistinct (msgA msgB : A.Message) : Bool :=
  match V.messageToVec msgA, V.messageToVec msgB with
  | some a, some b => a ≠ b
  | _, _ => false

/-- It is not valid for another message. -/
def messageIsolation : Gen u.Bytes GenError Unit := do
  let msgA ← attempt (arbPubTxMessage A u)
  let msgB ← attempt (arbPubTxMessage A u)
  match msgA, msgB with
  | some msgA, some msgB =>
    if messagesAreDistinct V msgA msgB then
      match ← drawKey u M with
      | none => return ()
      | some privateKey =>
        checked (Except.assert (V.isValidFor (V.forMessage msgA [privateKey]) msgB = false)
          (.violation "MessageIsolation" ("a WitnessSet built for message_a was accepted as " ++
            "valid for message_b even though the two messages have different Borsh encodings " ++
            "— possible signature-binding bypass")))
    else
      return ()
  | _, _ => return ()

def fuzzWitnessSetVerification : Gen u.Bytes GenError Unit := do
  randomWitnessSet u A
  correctVerification V u
  messageIsolation V u

end Targets

end LezFuzzing.Native
