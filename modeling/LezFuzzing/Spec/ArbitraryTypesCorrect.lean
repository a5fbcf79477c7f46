import LezFuzzing.ForStd.Range
import LezFuzzing.Native.ArbitraryTypes
import LezFuzzing.Spec.HarnessCorrect
import LezFuzzing.Spec.PublicEffectsCorrect

/-!
# What arbitrary transactions and blocks there are

A generator that silently cannot produce some shape leaves a hole in the fuzzing. Where
every primitive value can be drawn, the ranges of the `Arb…` generators are exactly the
documented ones: all messages with fewer than eight selectors and as many nonces, all
witness sets with fewer than four pairs over constructible keys, all blocks with fewer than
eight of these transactions under any header.

## Key results

- `arbPrivateKey_hasRange`, `arbPublicKey_hasRange`: the keys that can be drawn
- `arbLeeTransaction_hasRange`: the transactions
- `arbHashableBlockData_range`: the blocks, without a panic
-/

namespace LezFuzzing.Spec

open LezFuzzing.Native

/-- Every value can be drawn, with any bytes left over. -/
structure DrawsReach (u : Unstructured) : Prop where
  u8 : u.u8.HasRange fun _ => True
  u64 : u.u64.HasRange fun _ => True
  u128 : u.u128.HasRange fun _ => True
  bool : u.bool.HasRange fun _ => True
  bytes32 : u.bytes32.HasRange fun _ => True
  vecU8 : u.vecU8.HasRange fun _ => True

/-- The draws of `WideUnstructured` as well. -/
structure WideDrawsReach (u : WideUnstructured) : Prop extends DrawsReach u.toUnstructured where
  bytes64 : u.bytes64.HasRange fun _ => True

/-- The remainders of a byte. -/
theorem exists_byte_mod_eq_iff {k n : ℕ} (hpos : 0 < k) (hle : k ≤ 256) :
    (∃ byte : BitVec 8, n = byte.toNat % k) ↔ n < k := by
  constructor
  · rintro ⟨byte, rfl⟩
    exact Nat.mod_lt _ hpos
  · intro hlt
    refine ⟨.ofNat 8 n, ?_⟩
    rw [BitVec.toNat_ofNat, Nat.mod_eq_of_lt (show n < 2 ^ 8 by omega), Nat.mod_eq_of_lt hlt]

/-! ## Keys -/

section Keys

variable {K : Keys}

/-- The private keys that 32 bytes can give. -/
def ReachableKey (K : Keys) (key : K.PrivateKey) : Prop := ∃ bytes, K.tryNew bytes = some key

/-- Whether the drawn bytes are a key or the known seed stands in, 32 bytes gave it. -/
theorem arbPrivateKey_ensures {u : Unstructured} :
    (arbPrivateKey K u).Ensures (ReachableKey K) := by
  refine Gen.ensures_bind_any fun bytes => ?_
  split
  · rename_i key hkey
    exact Gen.ensures_pure ⟨bytes, hkey⟩
  · -- 32 bytes that are no key: the known seed stands in
    split
    · rename_i key hkey
      exact Gen.ensures_pure ⟨knownGoodSeed, hkey⟩
    · exact Gen.ensures_fail

/-- Every constructible key can be drawn: its own bytes give it. -/
theorem arbPrivateKey_hasRange {u : Unstructured} (hu : DrawsReach u) :
    (arbPrivateKey K u).HasRange (ReachableKey K) := by
  refine .of_reaches arbPrivateKey_ensures fun key hkey => ?_
  obtain ⟨bytes, hbytes⟩ := hkey
  refine Gen.reaches_bind (hu.bytes32.reaches trivial : Gen.Reaches _ bytes) ?_
  rw [hbytes]
  exact Gen.reaches_pure

/-- What holds of both alternatives holds of the outcome. -/
theorem mapOrElse_ensures {σ α : Type} {g default : Gen σ GenError α} {P : α → Prop}
    (hg : g.Ensures P) (hdefault : default.Ensures P) : (mapOrElse g default).Ensures P := by
  intro s a s' hrun
  unfold mapOrElse at hrun
  split at hrun
  · exact hdefault _ a s' hrun
  · exact hg s a s' hrun

/-- An outcome fails as the default does, or as the draw with another error. -/
theorem mapOrElse_failsWith {σ α : Type} {g default : Gen σ GenError α}
    (hg : g.FailsWith IsErr) (hdefault : default.FailsWith IsErr) :
    (mapOrElse g default).FailsWith IsErr := by
  intro s e s' hrun
  unfold mapOrElse at hrun
  split at hrun
  · exact hdefault _ e s' hrun
  · exact hg s e s' hrun

/-- The known seed gives a constructible key, if it gives any. -/
theorem knownGoodKey_ensures {σ : Type} :
    (knownGoodKey K : Gen σ _ _).Ensures (ReachableKey K) := by
  unfold knownGoodKey
  split
  · rename_i key hkey
    exact Gen.ensures_pure ⟨knownGoodSeed, hkey⟩
  · exact Gen.ensures_fail

/-- It gives one where the crate accepts the seed. -/
theorem knownGoodKey_failsWith {σ : Type} (hseed : (K.tryNew knownGoodSeed).isSome) :
    (knownGoodKey K : Gen σ _ _).FailsWith IsErr := by
  obtain ⟨key, hkey⟩ := Option.isSome_iff_exists.mp hseed
  rw [knownGoodKey, hkey]
  exact Gen.failsWith_pure

end Keys

/-! ## The parts of a transaction -/

section Parts

variable {M : Machine} {A : PublicTxCrates M} {u : WideUnstructured}

/-- The public keys that can be drawn: the valid ones among all 32 bytes, and the derived. -/
def ReachablePublicKey (A : PublicTxCrates M) (pk : M.PublicKey) : Prop :=
  (∃ bytes, A.publicKeyTryNew bytes = some pk) ∨
    ∃ key, ReachableKey M.toKeys key ∧ pk = M.newFromPrivateKey key

/-- A selector is made of any two account ids. -/
def ReachableSelector (A : PublicTxCrates M) (selector : A.ProgramShardSelector) : Prop :=
  ∃ first second, selector = A.programShardSelectorNew first second

/-- A fee declaration is made of any account id and numbers. -/
def ReachableFee (A : PublicTxCrates M) (fee : A.FeeDeclaration) : Prop :=
  ∃ accountId first second third, fee = A.feeDeclarationNew accountId first second third

/-- Fewer than eight selectors and as many nonces. -/
def ReachableMessage (A : PublicTxCrates M) (message : A.Message) : Prop :=
  ∃ programAccountId selectors nonces instructionData fee,
    selectors.length < 8 ∧ nonces.length = selectors.length ∧
    (∀ selector ∈ selectors, ReachableSelector A selector) ∧
    (∀ declared ∈ fee, ReachableFee A declared) ∧
    message = A.messageNewPreserialized programAccountId selectors nonces instructionData fee

/-- Fewer than four pairs of any signature and a key that can be drawn. -/
def ReachableWitness (A : PublicTxCrates M) (witnessSet : A.WitnessSet) : Prop :=
  ∃ pairs : List (M.Signature × M.PublicKey), pairs.length < 4 ∧
    (∀ pair ∈ pairs, (∃ value, pair.1 = A.signature value) ∧ ReachablePublicKey A pair.2) ∧
    witnessSet = A.fromRawParts pairs

/-- A public transaction of a message and a witness set, unrelated to one another. -/
def ReachableTx (A : PublicTxCrates M) (tx : M.Tx) : Prop :=
  ∃ message witnessSet, ReachableMessage A message ∧ ReachableWitness A witnessSet ∧
    tx = .Public (A.publicTransactionNew message witnessSet)

/-- The known seed gives a key. -/
theorem exists_reachableKey {K : Keys} (hseed : (K.tryNew knownGoodSeed).isSome) :
    ∃ key, ReachableKey K key := by
  obtain ⟨key, hkey⟩ := Option.isSome_iff_exists.mp hseed
  exact ⟨key, knownGoodSeed, hkey⟩

/-- A message without selectors is one that can be drawn. -/
theorem exists_reachableMessage {M : Machine} (A : PublicTxCrates M) :
    ∃ msg, ReachableMessage A msg :=
  ⟨_, ⟨0⟩, [], [], [], none, Nat.succ_pos 7, rfl, nofun, nofun, rfl⟩

/-- The key of the known seed has a public key. -/
theorem exists_reachablePublicKey {M : Machine} (A : PublicTxCrates M)
    (hseed : (M.tryNew knownGoodSeed).isSome) : ∃ pk, ReachablePublicKey A pk := by
  obtain ⟨key, hkey⟩ := exists_reachableKey hseed
  exact ⟨_, .inr ⟨key, hkey, rfl⟩⟩

/-- A witness set can be empty. -/
theorem exists_reachableWitness {M : Machine} (A : PublicTxCrates M) :
    ∃ witnessSet, ReachableWitness A witnessSet :=
  ⟨_, [], Nat.succ_pos 3, nofun, rfl⟩

/-- There are transactions to draw. -/
theorem exists_reachableTx {M : Machine} (A : PublicTxCrates M) :
    ∃ pt, ReachableTx A (.Public pt) := by
  obtain ⟨message, hmessage⟩ := exists_reachableMessage A
  obtain ⟨witnessSet, hwitness⟩ := exists_reachableWitness A
  exact ⟨_, message, witnessSet, hmessage, hwitness, rfl⟩

section Ranges

variable (hu : WideDrawsReach u)
include hu

/-- Every account id can be drawn. -/
theorem arbAccountId_hasRange : (arbAccountId u).HasRange fun _ => True :=
  (Gen.hasRange_map hu.bytes32).congr fun id =>
    ⟨fun _ => trivial, fun _ => ⟨id.value, trivial, rfl⟩⟩

/-- Drawn bytes give the valid public keys, drawn private keys the derived ones. -/
theorem arbPublicKey_hasRange : (arbPublicKey A u).HasRange (ReachablePublicKey A) := by
  refine .of_reaches ?_ fun pk hpk => ?_
  · refine Gen.ensures_bind_any fun valid => ?_
    split
    · -- a valid key is asked for
      exact Gen.ensures_bind arbPrivateKey_ensures fun key hkey =>
        Gen.ensures_pure (.inr ⟨key, hkey, rfl⟩)
    · refine Gen.ensures_bind_any fun bytes => ?_
      split
      · rename_i pk hpk
        exact Gen.ensures_pure (.inl ⟨bytes, hpk⟩)
      · -- bytes that are no public key, so a private one is drawn after all
        exact Gen.ensures_bind (mapOrElse_ensures arbPrivateKey_ensures knownGoodKey_ensures)
          fun key hkey => Gen.ensures_pure (.inr ⟨key, hkey, rfl⟩)
  · -- the first bit drawn is the branch that gives the key
    rcases hpk with ⟨bytes, hbytes⟩ | ⟨key, hkey, rfl⟩
    · refine Gen.reaches_bind (hu.bool.reaches trivial : Gen.Reaches _ false) ?_
      refine Gen.reaches_bind (hu.bytes32.reaches trivial : Gen.Reaches _ bytes) ?_
      rw [hbytes]
      exact Gen.reaches_pure
    · refine Gen.reaches_bind (hu.bool.reaches trivial : Gen.Reaches _ true) ?_
      exact Gen.reaches_bind ((arbPrivateKey_hasRange hu.toDrawsReach).reaches hkey)
        Gen.reaches_pure

/-- The range of the selector generator. -/
theorem arbProgramShardSelector_hasRange :
    (arbProgramShardSelector A u).HasRange (ReachableSelector A) :=
  (Gen.hasRange_bind (arbAccountId_hasRange hu) fun _ _ =>
    Gen.hasRange_map (arbAccountId_hasRange hu)).congr fun _ =>
      ⟨fun ⟨first, _, second, _, h⟩ => ⟨first, second, h⟩,
        fun ⟨first, second, h⟩ => ⟨first, trivial, second, trivial, h⟩⟩

/-- The range of the fee generator. -/
theorem arbFeeDeclaration_hasRange : (arbFeeDeclaration A u).HasRange (ReachableFee A) :=
  (Gen.hasRange_bind (arbAccountId_hasRange hu) fun _ _ => Gen.hasRange_bind hu.u64 fun _ _ =>
    Gen.hasRange_bind hu.u64 fun _ _ => Gen.hasRange_map hu.u128).congr fun _ =>
      ⟨fun ⟨id, _, first, _, second, _, third, _, h⟩ => ⟨id, first, second, third, h⟩,
        fun ⟨id, first, second, third, h⟩ =>
          ⟨id, trivial, first, trivial, second, trivial, third, trivial, h⟩⟩

/-- A message declares no fee, or any. -/
theorem arbFee_hasRange :
    (arbFee A u).HasRange fun fee => ∀ declared ∈ fee, ReachableFee A declared := by
  refine .of_reaches ?_ fun fee hfee => ?_
  · refine Gen.ensures_bind_any fun declared => ?_
    split
    · refine Gen.ensures_bind (arbFeeDeclaration_hasRange hu).ensures fun fee hfee =>
        Gen.ensures_pure fun declared hdeclared => ?_
      obtain rfl := Option.mem_some.mp hdeclared
      exact hfee
    · exact Gen.ensures_pure nofun
  · -- the bit in front says whether there is a fee
    cases fee with
    | none =>
      exact Gen.reaches_bind (hu.bool.reaches trivial : Gen.Reaches _ false) Gen.reaches_pure
    | some fee =>
      refine Gen.reaches_bind (hu.bool.reaches trivial : Gen.Reaches _ true) ?_
      exact Gen.reaches_bind ((arbFeeDeclaration_hasRange hu).reaches (hfee fee rfl))
        Gen.reaches_pure

/-- The range of the message generator: one byte is the number of selectors and of nonces. -/
theorem arbPubTxMessage_hasRange : (arbPubTxMessage A u).HasRange (ReachableMessage A) := by
  refine (Gen.hasRange_bind (arbAccountId_hasRange hu) fun _ _ => Gen.hasRange_bind hu.u8
    fun byte _ => Gen.hasRange_bind
      (Gen.hasRange_replicate (arbProgramShardSelector_hasRange hu) (byte.toNat % 8)) fun _ _ =>
    Gen.hasRange_bind (Gen.hasRange_replicate hu.u128 (byte.toNat % 8)) fun _ _ =>
    Gen.hasRange_bind hu.vecU8 fun _ _ => Gen.hasRange_map (arbFee_hasRange hu)).congr
      fun message => ?_
  constructor
  · rintro ⟨id, _, byte, _, selectors, ⟨hlen, hselectors⟩, nonces, ⟨hnonces, _⟩, data, _, fee,
      hfee, rfl⟩
    exact ⟨id, selectors, nonces, data, fee, hlen ▸ Nat.mod_lt _ (by decide),
      hnonces.trans hlen.symm, hselectors, hfee, rfl⟩
  · -- the byte to draw is the number of selectors itself
    rintro ⟨id, selectors, nonces, data, fee, hlt, hnonces, hselectors, hfee, rfl⟩
    obtain ⟨byte, hbyte⟩ := (exists_byte_mod_eq_iff (by decide) (by decide)).mpr hlt
    exact ⟨id, trivial, byte, trivial, selectors, ⟨hbyte, hselectors⟩, nonces,
      ⟨hnonces.trans hbyte, fun _ _ => trivial⟩, data, trivial, fee, hfee, rfl⟩

/-- The range of the witness generator. -/
theorem arbWitnessSet_hasRange : (arbWitnessSet A u).HasRange (ReachableWitness A) := by
  have hpair : (do
      let signature ← arbSignature A u
      let publicKey ← arbPublicKey A u
      return (signature, publicKey) : Gen u.Bytes GenError _).HasRange fun pair =>
        (∃ value, pair.1 = A.signature value) ∧ ReachablePublicKey A pair.2 := by
    refine (Gen.hasRange_bind (Gen.hasRange_map hu.bytes64) fun _ _ =>
      Gen.hasRange_map (arbPublicKey_hasRange hu)).congr fun pair => ?_
    constructor
    · rintro ⟨signature, ⟨value, _, rfl⟩, pk, hpk, rfl⟩
      exact ⟨⟨value, rfl⟩, hpk⟩
    · rintro ⟨⟨value, hvalue⟩, hpk⟩
      exact ⟨pair.1, ⟨value, trivial, hvalue⟩, pair.2, hpk, rfl⟩
  refine (Gen.hasRange_bind hu.u8 fun byte _ => Gen.hasRange_map
    (Gen.hasRange_replicate hpair (byte.toNat % 4))).congr fun witnessSet => ?_
  constructor
  · rintro ⟨byte, _, pairs, ⟨hlen, hpairs⟩, rfl⟩
    exact ⟨pairs, hlen ▸ Nat.mod_lt _ (by decide), hpairs, rfl⟩
  · rintro ⟨pairs, hlt, hpairs, rfl⟩
    obtain ⟨byte, hbyte⟩ := (exists_byte_mod_eq_iff (by decide) (by decide)).mpr hlt
    exact ⟨byte, trivial, pairs, ⟨hbyte, hpairs⟩, rfl⟩

/-- Message and witness set are drawn independently of one another. -/
theorem arbPublicTransaction_hasRange : (arbPublicTransaction A u).HasRange fun pt =>
    ReachableTx A (.Public pt) := by
  refine (Gen.hasRange_bind (arbPubTxMessage_hasRange hu) fun _ _ =>
    Gen.hasRange_map (arbWitnessSet_hasRange hu)).congr fun pt => ?_
  constructor
  · rintro ⟨message, hmessage, witnessSet, hwitness, rfl⟩
    exact ⟨message, witnessSet, hmessage, hwitness, rfl⟩
  · rintro ⟨message, witnessSet, hmessage, hwitness, heq⟩
    obtain rfl := LeeTransaction.Public.inj heq
    exact ⟨message, hmessage, witnessSet, hwitness, rfl⟩

/-- The range of the transaction generator. -/
theorem arbLeeTransaction_hasRange : (arbLeeTransaction A u).HasRange (ReachableTx A) := by
  refine (Gen.hasRange_map (arbPublicTransaction_hasRange hu)).congr fun tx => ?_
  constructor
  · rintro ⟨pt, hpt, rfl⟩
    exact hpt
  · rintro ⟨message, witnessSet, hmessage, hwitness, rfl⟩
    exact ⟨_, ⟨message, witnessSet, hmessage, hwitness, rfl⟩, rfl⟩

/-- The range of the block generator. -/
theorem arbHashableBlockData_hasRange : (arbHashableBlockData A u).HasRange fun block =>
    block.transactions.length < 8 ∧ ∀ tx ∈ block.transactions, ReachableTx A tx := by
  refine (Gen.hasRange_bind hu.u8 fun byte _ => Gen.hasRange_bind
    (Gen.hasRange_replicate (arbLeeTransaction_hasRange hu) (byte.toNat % 8)) fun _ _ =>
    Gen.hasRange_bind hu.u64 fun _ _ => Gen.hasRange_bind hu.bytes32 fun _ _ =>
    Gen.hasRange_map hu.u64).congr fun block => ?_
  constructor
  · rintro ⟨byte, _, txs, ⟨hlen, htxs⟩, _, _, _, _, _, _, rfl⟩
    exact ⟨hlen ▸ Nat.mod_lt _ (by decide), htxs⟩
  · -- the header is drawn behind the transactions, field by field
    intro h
    obtain ⟨hlt, htxs⟩ := h
    obtain ⟨byte, hbyte⟩ := (exists_byte_mod_eq_iff (by decide) (by decide)).mpr hlt
    exact ⟨byte, trivial, block.transactions, ⟨hbyte, htxs⟩, block.blockId, trivial,
      block.prevBlockHash, trivial, block.timestamp, trivial, rfl⟩

end Ranges

/-! ### Errors -/

/-- The wide draws fail with errors only. -/
structure WideDrawsDoNotPanic (u : WideUnstructured) : Prop
    extends DrawsDoNotPanic u.toUnstructured where
  u64 : u.u64.FailsWith IsErr
  bytes64 : u.bytes64.FailsWith IsErr

section Errors

variable (hu : WideDrawsDoNotPanic u)
include hu

/-- An account id is drawn without a panic. -/
theorem arbAccountId_failsWith : (arbAccountId u).FailsWith IsErr :=
  Gen.failsWith_bind hu.bytes32 fun _ => Gen.failsWith_pure

theorem arbProgramShardSelector_failsWith : (arbProgramShardSelector A u).FailsWith IsErr :=
  Gen.failsWith_bind (arbAccountId_failsWith hu) fun _ =>
    Gen.failsWith_bind (arbAccountId_failsWith hu) fun _ => Gen.failsWith_pure

/-- So is a fee, declared or not. -/
theorem arbFee_failsWith : (arbFee A u).FailsWith IsErr := by
  refine Gen.failsWith_bind hu.bool fun declared => ?_
  split
  · refine Gen.failsWith_bind ?_ fun _ => Gen.failsWith_pure
    refine Gen.failsWith_bind (arbAccountId_failsWith hu) fun _ => ?_
    refine Gen.failsWith_bind hu.u64 fun _ => Gen.failsWith_bind hu.u64 fun _ => ?_
    exact Gen.failsWith_bind hu.u128 fun _ => Gen.failsWith_pure
  · exact Gen.failsWith_pure

/-- So is a message. -/
theorem arbPubTxMessage_failsWith : (arbPubTxMessage A u).FailsWith IsErr := by
  refine Gen.failsWith_bind (arbAccountId_failsWith hu) fun _ => ?_
  refine Gen.failsWith_bind hu.u8 fun byte => ?_
  refine Gen.failsWith_bind (Gen.failsWith_traverse
    (fun _ => arbProgramShardSelector_failsWith hu) _) fun _ => ?_
  refine Gen.failsWith_bind (Gen.failsWith_traverse (fun _ => hu.u128) _) fun _ => ?_
  refine Gen.failsWith_bind hu.vecU8 fun _ => ?_
  exact Gen.failsWith_bind (arbFee_failsWith hu) fun _ => Gen.failsWith_pure

variable (hseed : (M.tryNew knownGoodSeed).isSome)
include hseed

/-- The fallbacks to the known seed do not panic where that gives a key. -/
theorem arbPublicKey_failsWith : (arbPublicKey A u).FailsWith IsErr := by
  have hkey := arbPrivateKey_failsWith hu.toDrawsDoNotPanic hseed
  refine Gen.failsWith_bind hu.bool fun valid => ?_
  split
  · exact Gen.failsWith_bind hkey fun _ => Gen.failsWith_pure
  · refine Gen.failsWith_bind hu.bytes32 fun bytes => ?_
    split
    · exact Gen.failsWith_pure
    · exact Gen.failsWith_bind (mapOrElse_failsWith hkey (knownGoodKey_failsWith hseed))
        fun _ => Gen.failsWith_pure

/-- A witness set is drawn without a panic, as its keys are. -/
theorem arbWitnessSet_failsWith : (arbWitnessSet A u).FailsWith IsErr := by
  refine Gen.failsWith_bind hu.u8 fun byte => ?_
  refine Gen.failsWith_bind (Gen.failsWith_traverse (fun _ => ?_) _) fun _ => Gen.failsWith_pure
  refine Gen.failsWith_bind ?_ fun _ => ?_
  · exact Gen.failsWith_bind hu.bytes64 fun _ => Gen.failsWith_pure
  · exact Gen.failsWith_bind (arbPublicKey_failsWith hu hseed) fun _ => Gen.failsWith_pure

theorem arbPublicTransaction_failsWith : (arbPublicTransaction A u).FailsWith IsErr :=
  Gen.failsWith_bind (arbPubTxMessage_failsWith hu) fun _ =>
    Gen.failsWith_bind (arbWitnessSet_failsWith hu hseed) fun _ => Gen.failsWith_pure

theorem arbLeeTransaction_failsWith : (arbLeeTransaction A u).FailsWith IsErr :=
  Gen.failsWith_bind (arbPublicTransaction_failsWith hu hseed) fun _ => Gen.failsWith_pure

/-- A block is drawn without a panic. -/
theorem arbHashableBlockData_failsWith : (arbHashableBlockData A u).FailsWith IsErr := by
  refine Gen.failsWith_bind hu.u8 fun byte => ?_
  refine Gen.failsWith_bind (Gen.failsWith_traverse
    (fun _ => arbLeeTransaction_failsWith hu hseed) _) fun _ => ?_
  refine Gen.failsWith_bind hu.u64 fun _ => Gen.failsWith_bind hu.bytes32 fun _ => ?_
  exact Gen.failsWith_bind hu.u64 fun _ => Gen.failsWith_pure

end Errors

end Parts

/-- The block generator never panics, and where every primitive value can be drawn it
    returns exactly the blocks of fewer than eight reachable transactions: under any header,
    each transaction with fewer than eight selectors, as many nonces, any data and fee, and
    fewer than four pairs of any signature with a key that can be constructed. -/
theorem arbHashableBlockData_range {M : Machine} (A : PublicTxCrates M) (u : WideUnstructured)
    (hpanic : WideDrawsDoNotPanic u) (hreach : WideDrawsReach u)
    (hseed : (M.tryNew knownGoodSeed).isSome) :
    (∀ input p rest, arbHashableBlockData A u input ≠ (.error (.panic p), rest)) ∧
    ∀ block rest, (∃ input, arbHashableBlockData A u input = (.ok block, rest)) ↔
      block.transactions.length < 8 ∧ ∀ tx ∈ block.transactions, ReachableTx A tx := by
  refine ⟨fun input p rest hrun => ?_, ?_⟩
  · obtain ⟨a, ha⟩ := arbHashableBlockData_failsWith hpanic hseed input _ rest hrun
    exact nomatch ha
  · exact arbHashableBlockData_hasRange hreach

/-! ## A tape of bytes -/

section Tape

/-- The lowest `k` bytes of a number are `k` bytes. -/
theorem length_leBytes (k n : ℕ) : (leBytes k n).length = k := by
  induction k generalizing n with
  | zero => rfl
  | succ k ih => rw [leBytes, List.length_cons, ih]

/-- A number from the first `k` bytes, where missing bytes are zero. -/
def readNumber (w k : ℕ) : Gen (List (BitVec 8)) GenError (BitVec w) := fun tape =>
  (.ok (.ofNat w (leValue (tape.take k))), tape.drop k)

/-- A list of bytes, each behind a byte with its lowest bit set; another byte ends it. -/
def readBytes : List (BitVec 8) → List (BitVec 8) × List (BitVec 8)
  | [] => ([], [])
  | [flag] => (if flag.toNat % 2 = 1 then [0] else [], [])
  | flag :: byte :: tape =>
    if flag.toNat % 2 = 1 then
      (byte :: (readBytes tape).1, (readBytes tape).2)
    else
      ([], byte :: tape)

/-- Draws from the front of a list of bytes, which never fail. -/
def byteTape : WideUnstructured where
  Bytes := List (BitVec 8)
  u8 := readNumber 8 1
  u64 := readNumber 64 8
  u128 := readNumber 128 16
  bool tape := (.ok ((leValue (tape.take 1)) % 2 = 1), tape.drop 1)
  bytes32 := readNumber 256 32
  vecU8 tape := (.ok (readBytes tape).1, (readBytes tape).2)
  bytes64 := readNumber 512 64

instance : Nonempty byteTape.Bytes := ⟨([] : List (BitVec 8))⟩

/-- Every number is read from its own bytes. -/
theorem readNumber_hasRange (w k : ℕ) (hw : w = 8 * k) :
    (readNumber w k).HasRange fun _ => True := by
  have hpow : 2 ^ w = 256 ^ k := by rw [hw, pow_mul]; rfl
  refine fun value rest => ⟨fun _ => trivial, fun _ => ⟨leBytes k value.toNat ++ rest, ?_⟩⟩
  have hlen := length_leBytes k value.toNat
  refine Prod.ext (congrArg Except.ok (BitVec.eq_of_toNat_eq ?_)) ?_
  · -- `k` bytes hold every value of `w` bits
    have hlt := value.isLt
    rw [List.take_left' hlen, leValue_leBytes, BitVec.toNat_ofNat, ← hpow, Nat.mod_mod,
      Nat.mod_eq_of_lt hlt]
  · exact List.drop_left' hlen

/-- Every list of bytes is read from its own encoding. -/
theorem readBytes_flatMap (bytes rest : List (BitVec 8)) :
    readBytes (bytes.flatMap (fun byte => [1, byte]) ++ 0 :: rest) = (bytes, rest) := by
  induction bytes with
  | nil =>
    cases rest with
    | nil => rfl
    | cons byte tape => exact if_neg (by decide)  -- a zero ends the list
  | cons byte bytes ih =>
    rw [List.flatMap_cons, List.append_assoc, List.cons_append, List.cons_append,
      List.nil_append, readBytes, if_pos (by decide), ih]

/-- Every value can be drawn from the tape. -/
theorem byteTape_reaches : WideDrawsReach byteTape where
  u8 := readNumber_hasRange 8 1 rfl
  u64 := readNumber_hasRange 64 8 rfl
  u128 := readNumber_hasRange 128 16 rfl
  bytes32 := readNumber_hasRange 256 32 rfl
  bytes64 := readNumber_hasRange 512 64 rfl
  bool b rest := ⟨fun _ => trivial, fun _ =>
    ⟨(if b then 1 else 0) :: rest, by cases b <;> rfl⟩⟩
  vecU8 bytes rest := by
    refine ⟨fun _ => trivial, fun _ =>
      ⟨bytes.flatMap (fun byte => [1, byte]) ++ 0 :: (rest : List (BitVec 8)), ?_⟩⟩
    have hread := readBytes_flatMap bytes rest
    exact congrArg (fun read => ((.ok read.1 : Except GenError _), read.2)) hread

/-- The tape never fails. -/
theorem byteTape_doNotPanic : WideDrawsDoNotPanic byteTape where
  u8 _ _ _ h := nomatch (Prod.mk.inj h).1
  u128 _ _ _ h := nomatch (Prod.mk.inj h).1
  bool _ _ _ h := nomatch (Prod.mk.inj h).1
  bytes32 _ _ _ h := nomatch (Prod.mk.inj h).1
  vecU8 _ _ _ h := nomatch (Prod.mk.inj h).1
  u64 _ _ _ h := nomatch (Prod.mk.inj h).1
  bytes64 _ _ _ h := nomatch (Prod.mk.inj h).1

/-- Transactions that are not native transfers, whatever their parts. -/
def plainArb : PublicTxCrates plainMachine where
  ProgramShardSelector := AccountId × AccountId
  programShardSelectorNew := Prod.mk
  FeeDeclaration := AccountId × U64 × U64 × U128
  feeDeclarationNew accountId first second third := (accountId, first, second, third)
  Message := Unit
  messageNewPreserialized _ _ _ _ _ := ()
  signature _ := ()
  publicKeyTryNew bytes := some bytes
  WitnessSet := Unit
  fromRawParts _ := ()
  publicTransactionNew _ _ := .inr ()

/-- A block of seven transactions can be drawn, one of eight cannot. -/
theorem arbHashableBlockData_range_tape :
    (∃ input, arbHashableBlockData plainArb byteTape input =
      (.ok ⟨5, 9, 3, List.replicate 7 (.Public (.inr ()))⟩, [])) ∧
    ¬ ∃ input, arbHashableBlockData plainArb byteTape input =
      (.ok ⟨5, 9, 3, List.replicate 8 (.Public (.inr ()))⟩, []) := by
  have hrange := (arbHashableBlockData_range plainArb byteTape byteTape_doNotPanic
    byteTape_reaches rfl).2
  refine ⟨(hrange _ _).mpr ⟨by decide, fun tx htx => ?_⟩, fun h => ?_⟩
  · obtain rfl := List.eq_of_mem_replicate htx
    exact ⟨(), (), ⟨⟨0⟩, [], [], [], none, by decide, rfl, nofun, nofun, rfl⟩,
      ⟨[], by decide, nofun, rfl⟩, rfl⟩
  · exact absurd ((hrange _ _).mp h).1 (by decide)

/-- Transactions are their instruction data, and states are sets of nullifiers. -/
@[reducible] def storedMachine : Machine where
  toKeys := plainKeys
  Data := U128
  nativeBalance := some
  State := Finset (BitVec 8)
  getAccountById _ _ := ⟨0, 0⟩
  Signature := Unit
  PublicTransaction := List (BitVec 8)
  PrivacyPreservingTransaction := List (BitVec 8)
  publicWitness _ := []
  privacyPreservingWitness _ := []
  Error := Unit
  transactionStatelessCheck := .ok
  executeCheckOnState _ state _ _ := (.error (), state)
  createTransactionNativeTokenTransfer _ _ _ _ _ := .Public []

/-- A message is its instruction data, and so is the transaction. -/
@[reducible] def storedArb : PublicTxCrates storedMachine where
  ProgramShardSelector := Unit
  programShardSelectorNew _ _ := ()
  FeeDeclaration := Unit
  feeDeclarationNew _ _ _ _ := ()
  Message := List (BitVec 8)
  messageNewPreserialized _ _ _ instructionData _ := instructionData
  signature _ := ()
  publicKeyTryNew bytes := some bytes
  WitnessSet := Unit
  fromRawParts _ := ()
  publicTransactionNew message _ := message

/-- Transactions with different data or of different kinds encode differently. -/
def storedToVec : storedMachine.Tx → Option (List (BitVec 8))
  | .Public data => some (0 :: data)
  | .PrivacyPreserving data => some (1 :: data)

end Tape

end LezFuzzing.Spec
