import LezFuzzing.Native.SignatureTargets
import LezFuzzing.Spec.ArbitraryTypesCorrect

/-!
# What the signature targets assert over all their inputs

A fuzzing campaign without an end runs a target on every input. Where every primitive value
can be drawn, what it asserts then is a property of the signatures alone, with the ranges of
the generators as its quantifiers.

For witness sets that are lists of signatures the one-signer test of message isolation turns
out to cover every number of signers but zero.

## Key results

- `fuzzSignatureVerification_fails_iff`: the broken keys that some input finds
- `fuzzWitnessSetVerification_fails_iff`: the broken witness sets, for any number of signers
-/

namespace LezFuzzing.Spec

open LezFuzzing.Native

/-! ## Draws of the targets -/

/-- Up to three keys are drawn, and every list of them can be. -/
theorem drawKeys_hasRange {M : Machine} {u : WideUnstructured} (hreach : WideDrawsReach u) :
    (drawKeys u M).HasRange fun keys =>
      keys.length < 4 ∧ ∀ key ∈ keys, ReachableKey M.toKeys key := by
  refine .of_reaches ?_ fun keys hkeys => ?_
  · -- the loop pushes what it draws, so the keys are the draws in order
    refine Gen.ensures_bind_any fun byte s keys s' hrun => ?_
    obtain ⟨as, hlen, has, hsteps⟩ :=
      Gen.drive_ensures_runSteps arbPrivateKey_ensures s keys s' hrun
    rw [Gen.runSteps_push, List.nil_append] at hsteps
    obtain rfl := Except.ok.inj hsteps
    exact ⟨hlen.trans_lt (Nat.mod_lt _ (by decide)), has⟩
  · obtain ⟨hlt, hkeys⟩ := hkeys
    obtain ⟨byte, hbyte⟩ := (exists_byte_mod_eq_iff (by decide) (by decide)).mpr hlt
    refine Gen.reaches_bind ((unwrapOr_hasRange hreach.u8 0).reaches trivial :
      Gen.Reaches _ byte) ?_
    rw [← hbyte]
    exact Gen.drive_reaches_of_runSteps
      (fun key hkey => (arbPrivateKey_hasRange hreach.toDrawsReach).reaches (hkeys key hkey))
      (by rw [Gen.runSteps_push, List.nil_append])

section Draws

variable {M : Machine} {A : PublicTxCrates M} {u : WideUnstructured}
  (hpanic : WideDrawsDoNotPanic u) (hreach : WideDrawsReach u)
include hpanic hreach

/-- A message of 32 bytes is drawn, or zeros are taken. -/
theorem sweeps_drawDigest {Q : Bytes32 → Prop} {k : Bytes32 → Gen u.Bytes GenError Unit}
    (hk : ∀ msg, (k msg).Sweeps (Q msg)) : (drawDigest u >>= k).Sweeps (∀ msg, Q msg) :=
  (Gen.sweeps_draw (unwrapOr_succeeds hpanic.bytes32 0) (unwrapOr_hasRange hreach.bytes32 0)
    ⟨0, trivial⟩ fun msg _ => hk msg).congr (by simp only [true_implies])

/-- A message is drawn, or its part of the target is skipped. -/
theorem sweeps_drawMessage {Q : A.Message → Prop}
    {k : Option A.Message → Gen u.Bytes GenError Unit} (hnone : (k none).Succeeds)
    (hk : ∀ msg, (k (some msg)).Sweeps (Q msg)) :
    (attempt (arbPubTxMessage A u) >>= k).Sweeps (∀ msg, ReachableMessage A msg → Q msg) :=
  sweeps_attempt (arbPubTxMessage_hasRange hreach) (arbPubTxMessage_failsWith hpanic)
    (exists_reachableMessage A) hnone fun msg _ => hk msg

variable (hseed : (M.tryNew knownGoodSeed).isSome)
include hseed

/-- A key is drawn, or its part of the target is skipped. -/
theorem sweeps_drawKey {Q : M.PrivateKey → Prop}
    {k : Option M.PrivateKey → Gen u.Bytes GenError Unit} (hnone : (k none).Succeeds)
    (hk : ∀ key, (k (some key)).Sweeps (Q key)) :
    (drawKey u M >>= k).Sweeps (∀ key, ReachableKey M.toKeys key → Q key) :=
  sweeps_attempt (arbPrivateKey_hasRange hreach.toDrawsReach)
    (arbPrivateKey_failsWith hpanic.toDrawsDoNotPanic hseed) (exists_reachableKey hseed) hnone
    fun key _ => hk key

/-- Keys are drawn until the first error; what comes after runs in any case. -/
theorem sweeps_drawKeys {Q : List M.PrivateKey → Prop}
    {k : List M.PrivateKey → Gen u.Bytes GenError Unit} (hk : ∀ keys, (k keys).Sweeps (Q keys)) :
    (drawKeys u M >>= k).Sweeps (∀ keys : List M.PrivateKey, keys.length < 4 →
      (∀ key ∈ keys, ReachableKey M.toKeys key) → Q keys) := by
  have hsucceeds : (drawKeys u M).Succeeds :=
    Gen.succeeds_bind (unwrapOr_succeeds hpanic.u8 0) fun byte =>
      Gen.drive_succeeds (fun _ => isErr_of_failsWith
        (arbPrivateKey_failsWith hpanic.toDrawsDoNotPanic hseed)) fun _ keys key => ⟨_, rfl⟩
  exact (Gen.sweeps_draw hsucceeds (drawKeys_hasRange hreach) ⟨[], Nat.succ_pos 3, nofun⟩
    fun keys _ => hk keys).congr (by simp only [and_imp])

/-! ## The parts -/

/-- Verifying random signatures asserts nothing. -/
theorem randomSignature_sweeps : (randomSignature u A).Sweeps True := by
  refine (sweeps_attempt (Q := fun _ => True) (Gen.hasRange_map hreach.bytes64)
    (Gen.failsWith_bind hpanic.bytes64 fun _ => Gen.failsWith_pure) ⟨_, 0, trivial, rfl⟩ ?_
    fun signature _ => ?_).congr (by simp)
  · -- the key is drawn even if there is no signature
    exact Gen.succeeds_bind (attempt_succeeds (arbPublicKey_failsWith hpanic hseed))
      fun publicKey => Gen.succeeds_pure
  · refine (sweeps_attempt (Q := fun _ => True) (arbPublicKey_hasRange hreach)
      (arbPublicKey_failsWith hpanic hseed) (exists_reachablePublicKey A hseed) Gen.succeeds_pure
      fun publicKey _ => ?_).congr (by simp)
    exact (sweeps_drawDigest hpanic hreach fun _ => Gen.sweeps_pure).congr (by simp)

/-- Nor does verifying random witness sets. -/
theorem randomWitnessSet_sweeps : (randomWitnessSet u A).Sweeps True := by
  refine (sweeps_attempt (Q := fun _ => True) (arbWitnessSet_hasRange hreach)
    (arbWitnessSet_failsWith hpanic hseed) (exists_reachableWitness A) ?_
    fun _ _ => ?_).congr (by simp)
  · exact Gen.succeeds_bind (attempt_succeeds (arbPubTxMessage_failsWith hpanic)) fun _ =>
      Gen.succeeds_pure
  · exact (sweeps_drawMessage hpanic hreach Gen.succeeds_pure fun _ => Gen.sweeps_pure).congr
      (by simp)

variable [Nonempty u.Bytes] {V : SignatureCrates A}

/-- Every constructible key is asked to verify its own signature of every message. -/
theorem freshSignature_sweeps : (freshSignature V u).Sweeps
    (∀ key, ReachableKey M.toKeys key → ∀ msg,
      V.signatureIsValidFor (V.signatureNew key msg) msg (M.newFromPrivateKey key) = true) := by
  refine sweeps_drawKey hpanic hreach hseed Gen.succeeds_pure fun key => ?_
  exact sweeps_drawDigest hpanic hreach fun msg =>
    Gen.sweeps_lift.congr Except.returns_assert_iff

/-- Every key is asked to reject the signatures of keys with other public keys. -/
theorem crossKey_sweeps [DecidableEq M.PublicKey] : (crossKey V u).Sweeps
    (∀ keyA, ReachableKey M.toKeys keyA → ∀ keyB, ReachableKey M.toKeys keyB → ∀ msg,
      M.newFromPrivateKey keyA ≠ M.newFromPrivateKey keyB →
      V.signatureIsValidFor (V.signatureNew keyA msg) msg (M.newFromPrivateKey keyB) =
        false) := by
  refine sweeps_drawKey hpanic hreach hseed ?_ fun keyA => ?_
  · exact Gen.succeeds_bind (attempt_succeeds
      (arbPrivateKey_failsWith hpanic.toDrawsDoNotPanic hseed)) fun _ => Gen.succeeds_pure
  · refine sweeps_drawKey hpanic hreach hseed Gen.succeeds_pure fun keyB => ?_
    refine sweeps_drawDigest hpanic hreach fun msg => ?_
    dsimp only
    split
    · rename_i hne
      exact Gen.sweeps_lift.congr (Except.returns_assert_iff.trans
        ⟨fun h _ => h, fun h => h hne⟩)
    -- one key drawn twice, or two with one public key
    · rename_i heq
      exact Gen.sweeps_pure.congr (iff_of_true trivial fun hne => absurd hne heq)

/-- Every witness set of up to three keys is asked to be valid for its message. -/
theorem correctVerification_sweeps : (correctVerification V u).Sweeps
    (∀ msg, ReachableMessage A msg → ∀ keys : List M.PrivateKey, keys.length < 4 →
      (∀ key ∈ keys, ReachableKey M.toKeys key) →
      V.isValidFor (V.forMessage msg keys) msg = true) := by
  refine sweeps_drawMessage hpanic hreach Gen.succeeds_pure fun msg => ?_
  exact sweeps_drawKeys hpanic hreach hseed fun keys =>
    Gen.sweeps_lift.congr Except.returns_assert_iff

/-- Every witness set of one key is asked not to be valid for another message. -/
theorem messageIsolation_sweeps : (messageIsolation V u).Sweeps
    (∀ msgA, ReachableMessage A msgA → ∀ msgB, ReachableMessage A msgB →
      messagesAreDistinct V msgA msgB = true → ∀ key, ReachableKey M.toKeys key →
      V.isValidFor (V.forMessage msgA [key]) msgB = false) := by
  refine sweeps_drawMessage hpanic hreach ?_ fun msgA => ?_
  · exact Gen.succeeds_bind (attempt_succeeds (arbPubTxMessage_failsWith hpanic)) fun _ =>
      Gen.succeeds_pure
  · refine sweeps_drawMessage hpanic hreach Gen.succeeds_pure fun msgB => ?_
    dsimp only
    split
    · rename_i hdistinct
      refine (sweeps_drawKey hpanic hreach hseed Gen.succeeds_pure fun key =>
        Gen.sweeps_lift.congr Except.returns_assert_iff).congr ⟨fun h _ => h, fun h => h hdistinct⟩
    · -- no key is drawn for messages that encode alike
      rename_i hsame
      exact Gen.sweeps_pure.congr (iff_of_true trivial fun h => absurd h hsame)

end Draws

/-! ## The targets -/

/-- `fuzz_signature_verification` fails on some input exactly when some constructible key does
    not verify a signature of its own, or verifies one that a key with another public key has
    made of the same message. -/
theorem fuzzSignatureVerification_fails_iff {M : Machine} [DecidableEq M.PublicKey]
    {A : PublicTxCrates M} (V : SignatureCrates A) (u : WideUnstructured) [Nonempty u.Bytes]
    (hpanic : WideDrawsDoNotPanic u) (hreach : WideDrawsReach u)
    (hseed : (M.tryNew knownGoodSeed).isSome) :
    (∃ input e rest, fuzzSignatureVerification V u input = (.error e, rest)) ↔
      (∃ key msg, ReachableKey M.toKeys key ∧
        V.signatureIsValidFor (V.signatureNew key msg) msg (M.newFromPrivateKey key) = false) ∨
      ∃ keyA keyB msg, ReachableKey M.toKeys keyA ∧ ReachableKey M.toKeys keyB ∧
        M.newFromPrivateKey keyA ≠ M.newFromPrivateKey keyB ∧
        V.signatureIsValidFor (V.signatureNew keyA msg) msg (M.newFromPrivateKey keyB) = true := by
  have hsweeps := (freshSignature_sweeps hpanic hreach hseed (V := V)).seq
    ((randomSignature_sweeps (A := A) hpanic hreach hseed).seq
      (crossKey_sweeps hpanic hreach hseed (V := V)))
  rw [true_and] at hsweeps
  refine hsweeps.fails_iff.trans ?_
  rw [not_and_or]
  push Not
  simp only [ne_eq, Bool.not_eq_true, Bool.not_eq_false, exists_and_left]

/-- Witness sets that are lists of signatures over a digest of the message. -/
structure WitnessScheme {M : Machine} {A : PublicTxCrates M} (V : SignatureCrates A) where
  digest : A.Message → Bytes32
  pairs : A.WitnessSet → List (M.Signature × M.PublicKey)
  pairs_forMessage : ∀ msg keys, pairs (V.forMessage msg keys) =
    keys.map fun key => (V.signatureNew key (digest msg), M.newFromPrivateKey key)
  isValidFor_iff : ∀ witnessSet msg, V.isValidFor witnessSet msg = true ↔
    ∀ pair ∈ pairs witnessSet, V.signatureIsValidFor pair.1 (digest msg) pair.2 = true

/-- A witness set is valid for a message exactly when those of its signers are. -/
theorem WitnessScheme.isValidFor_forMessage_iff {M : Machine} {A : PublicTxCrates M}
    {V : SignatureCrates A} (S : WitnessScheme V) {msgA msgB : A.Message}
    {keys : List M.PrivateKey} :
    V.isValidFor (V.forMessage msgA keys) msgB = true ↔
      ∀ key ∈ keys, V.isValidFor (V.forMessage msgA [key]) msgB = true := by
  simp only [S.isValidFor_iff, S.pairs_forMessage, List.forall_mem_map, List.forall_mem_singleton]

/-- `fuzz_witness_set_verification` fails on some input exactly when a witness set of up to
    three constructible keys is not valid for its message, or one of a single key is valid for
    a message with another encoding. Where witness sets are lists of signatures that is enough
    for every number of signers but zero: a witness set of any number of keys that is not
    valid for its message, or of at least one key and valid for another message, makes the
    target fail on some input. One without signatures is valid for every message. -/
theorem fuzzWitnessSetVerification_fails_iff {M : Machine} {A : PublicTxCrates M}
    (V : SignatureCrates A) (u : WideUnstructured) [Nonempty u.Bytes]
    (hpanic : WideDrawsDoNotPanic u) (hreach : WideDrawsReach u)
    (hseed : (M.tryNew knownGoodSeed).isSome) :
    ((∃ input e rest, fuzzWitnessSetVerification V u input = (.error e, rest)) ↔
      (∃ msg keys, ReachableMessage A msg ∧ keys.length < 4 ∧
        (∀ key ∈ keys, ReachableKey M.toKeys key) ∧
        V.isValidFor (V.forMessage msg keys) msg = false) ∨
      ∃ msgA msgB key, ReachableMessage A msgA ∧ ReachableMessage A msgB ∧
        messagesAreDistinct V msgA msgB = true ∧ ReachableKey M.toKeys key ∧
        V.isValidFor (V.forMessage msgA [key]) msgB = true) ∧
    ∀ _ : WitnessScheme V, ∀ msgA msgB, ReachableMessage A msgA → ReachableMessage A msgB →
      V.isValidFor (V.forMessage msgA []) msgB = true ∧
      ∀ keys : List M.PrivateKey, (∀ key ∈ keys, ReachableKey M.toKeys key) →
        (V.isValidFor (V.forMessage msgA keys) msgA = false ∨
          keys ≠ [] ∧ messagesAreDistinct V msgA msgB = true ∧
            V.isValidFor (V.forMessage msgA keys) msgB = true) →
        ∃ input e rest, fuzzWitnessSetVerification V u input = (.error e, rest) := by
  -- the parts run one after the other, each on what is left of the bytes
  have hsweeps := (randomWitnessSet_sweeps (A := A) hpanic hreach hseed).seq
    ((correctVerification_sweeps hpanic hreach hseed (V := V)).seq
      (messageIsolation_sweeps hpanic hreach hseed (V := V)))
  rw [true_and] at hsweeps
  have hfails : (∃ input e rest, fuzzWitnessSetVerification V u input = (.error e, rest)) ↔
      (∃ msg keys, ReachableMessage A msg ∧ keys.length < 4 ∧
        (∀ key ∈ keys, ReachableKey M.toKeys key) ∧
        V.isValidFor (V.forMessage msg keys) msg = false) ∨
      ∃ msgA msgB key, ReachableMessage A msgA ∧ ReachableMessage A msgB ∧
        messagesAreDistinct V msgA msgB = true ∧ ReachableKey M.toKeys key ∧
        V.isValidFor (V.forMessage msgA [key]) msgB = true := by
    refine hsweeps.fails_iff.trans ?_
    rw [not_and_or]
    push Not
    simp only [ne_eq, Bool.not_eq_true, Bool.not_eq_false, exists_and_left]
  refine ⟨hfails, fun S msgA msgB hmsgA hmsgB => ⟨?_, fun keys hkeys hbreak => ?_⟩⟩
  · -- nothing is verified
    rw [S.isValidFor_forMessage_iff]
    exact nofun
  · rw [hfails]
    rcases hbreak with hinvalid | ⟨hne, hdistinct, hvalid⟩
    · -- one of the signers is to blame
      rw [← Bool.not_eq_true, S.isValidFor_forMessage_iff] at hinvalid
      push Not at hinvalid
      obtain ⟨key, hkey, hinvalid⟩ := hinvalid
      exact .inl ⟨msgA, [key], hmsgA, Nat.one_lt_succ_succ 2,
        List.forall_mem_singleton.mpr (hkeys key hkey), Bool.eq_false_iff.mpr hinvalid⟩
    · -- each of the signers alone is valid for the other message as well
      obtain ⟨key, hkey⟩ := List.exists_mem_of_ne_nil keys hne
      exact .inr ⟨msgA, msgB, key, hmsgA, hmsgB, hdistinct, hkeys key hkey,
        S.isValidFor_forMessage_iff.mp hvalid key hkey⟩

/-! ## Instances that run -/

/-- Messages that are their instruction data. -/
def dataArb : PublicTxCrates plainMachine :=
  { plainArb with
    Message := List (BitVec 8)
    messageNewPreserialized := fun _ _ _ instructionData _ => instructionData
    publicTransactionNew := fun _ _ => .inr () }

/-- Signatures that verify for everything. -/
def openSignatures : SignatureCrates dataArb where
  signatureNew _ _ := ()
  signatureIsValidFor _ _ _ := true
  forMessage _ _ := ()
  isValidFor _ _ := true
  messageToVec := some

instance : DecidableEq plainMachine.PublicKey := inferInstanceAs (DecidableEq Bytes32)

/-- They are caught by a signature under another key. -/
theorem fuzzSignatureVerification_fails_iff_open :
    ∃ input e rest, fuzzSignatureVerification openSignatures byteTape input = (.error e, rest) :=
  (fuzzSignatureVerification_fails_iff openSignatures byteTape byteTape_doNotPanic byteTape_reaches
    rfl).mpr (.inr ⟨(0 : Bytes32), (1 : Bytes32), 0, ⟨0, rfl⟩, ⟨1, rfl⟩, by decide, rfl⟩)

/-- Signatures that record who made them, of which digest. -/
@[reducible] def recordingMachine : Machine := { plainMachine with
  Signature := Bytes32 × Bytes32
  publicWitness := fun _ => []
  privacyPreservingWitness := fun _ => [] }

/-- Messages that are their instruction data, and witness sets that are lists of signatures. -/
@[reducible] def recordingArb : PublicTxCrates recordingMachine where
  ProgramShardSelector := Unit
  programShardSelectorNew _ _ := ()
  FeeDeclaration := Unit
  feeDeclarationNew _ _ _ _ := ()
  Message := List (BitVec 8)
  messageNewPreserialized _ _ _ instructionData _ := instructionData
  signature value := (0, value.setWidth 256)
  publicKeyTryNew bytes := some bytes
  WitnessSet := List ((Bytes32 × Bytes32) × Bytes32)
  fromRawParts pairs := pairs
  publicTransactionNew _ _ := .inr ()

/-- A digest that reads no further than the first byte. -/
def firstByte (msg : List (BitVec 8)) : Bytes32 := (msg.headD 0).setWidth 256

/-- A signature verifies for the key and the digest that it records. -/
@[reducible] def recordedSignatures : SignatureCrates recordingArb where
  signatureNew key digest := (key, digest)
  signatureIsValidFor := fun (signature : Bytes32 × Bytes32) digest (publicKey : Bytes32) =>
    decide (signature = (publicKey, digest))
  forMessage msg keys := keys.map fun key => ((key, firstByte msg), key)
  isValidFor witnessSet msg :=
    witnessSet.all fun pair => decide (pair.1 = (pair.2, firstByte msg))
  messageToVec := some

/-- These witness sets are lists of signatures over a digest. -/
def recordedScheme : WitnessScheme recordedSignatures where
  digest := firstByte
  pairs witnessSet := witnessSet
  pairs_forMessage _ _ := rfl
  isValidFor_iff _ _ := List.all_eq_true

/-- Messages that differ in their second byte have the same digest, and the witness set of two
    signers shows it. -/
theorem fuzzWitnessSetVerification_fails_iff_recorded :
    ∃ input e rest,
      fuzzWitnessSetVerification recordedSignatures byteTape input = (.error e, rest) :=
  ((fuzzWitnessSetVerification_fails_iff recordedSignatures byteTape byteTape_doNotPanic
    byteTape_reaches rfl).2 recordedScheme [0, 0] [0, 1]
      ⟨⟨0⟩, [], [], [0, 0], none, Nat.succ_pos 7, rfl, nofun, nofun, rfl⟩
      ⟨⟨0⟩, [], [], [0, 1], none, Nat.succ_pos 7, rfl, nofun, nofun, rfl⟩).2
    [(1 : Bytes32), (2 : Bytes32)] (fun key _ => ⟨key, rfl⟩)
    (.inr ⟨List.cons_ne_nil _ _, rfl, rfl⟩)

end LezFuzzing.Spec
