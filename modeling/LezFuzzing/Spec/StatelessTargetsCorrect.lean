import LezFuzzing.Native.StatelessTargets
import LezFuzzing.Spec.ArbitraryTypesCorrect

/-!
# What the encoding targets assert over all their inputs

`fuzz_encoding_roundtrip` asserts that a decoder is canonical, the `borsh` round trips only
that it is idempotent. The difference is what a reader of nullifier sets gets away with: the
documented one rejects a list with a repeated nullifier, and one that drops the repetition
passes the same tests.

## Key results

- `statelessTargets_return_iff`: what each target asserts
- `nullifierSetTargets_return_iff`: what the targets see of the reader of nullifier sets
-/

namespace LezFuzzing.Spec

open LezFuzzing.Native

/-! ## The assertions -/

section Assertions

variable {M : Machine} {E : EncodingCrates M}

/-- The encoding of public transactions as a codec. -/
def publicCodec (E : EncodingCrates M) : Codec Blob M.PublicTransaction :=
  ⟨fun tx => some (E.toBytes tx), E.fromBytes⟩

/-- Test 1 compares encodings, so another transaction with the same encoding passes. -/
theorem assertEncodingRoundTrip_returns_iff {tx : M.PublicTransaction} :
    (assertEncodingRoundTrip E tx).Returns ↔ (publicCodec E).Stable tx := by
  simp only [assertEncodingRoundTrip, Except.returns_bind_iff, Except.expect_eq_ok_iff,
    Except.returns_assert_iff, Codec.Stable, publicCodec, Option.some.injEq]
  constructor
  · intro h
    obtain ⟨decoded, hdecode, heq⟩ := h
    exact ⟨_, decoded, rfl, hdecode, heq.symm⟩
  · intro h
    obtain ⟨_, decoded, hencode, hdecode, heq⟩ := h
    exact ⟨decoded, hencode ▸ hdecode, hencode.trans heq.symm⟩

/-- Test 2 asks for the bytes themselves, where they decode. -/
theorem assertCanonicalEncoding_returns_iff {data : Blob} :
    (assertCanonicalEncoding E data).Returns ↔
      ∀ tx, E.fromBytes data = some tx → (publicCodec E).encode tx = some data := by
  unfold assertCanonicalEncoding
  split
  · rename_i tx hdecode
    simp only [Except.returns_assert_iff, hdecode, Option.some.injEq, publicCodec,
      forall_eq', eq_comm]
  · rename_i hdecode
    exact iff_of_true (Except.returns_ok ()) fun tx htx => nomatch hdecode.symm.trans htx

/-- The two `borsh` round trips, with their own texts. -/
theorem assertRoundTrip_returns_iff {α : Type} {C : Codec Blob α} {p₁ p₂ p₃ p₄ : Panic} {a : α} :
    (assertRoundTrip C p₁ p₂ p₃ p₄ a).Returns ↔ C.Stable a := by
  simp only [assertRoundTrip, Except.returns_bind_iff, Except.expect_eq_ok_iff,
    Except.returns_assert_iff, Codec.Stable]
  constructor
  · rintro ⟨bytes, hencode, b, hdecode, bytes', hagain, rfl⟩
    exact ⟨bytes, b, hencode, hdecode, hagain⟩
  · rintro ⟨bytes, b, hencode, hdecode, hagain⟩
    exact ⟨bytes, hencode, b, hdecode, bytes, hagain, rfl⟩

/-- Bytes that do not decode are skipped. -/
theorem fuzzTransactionDecoding_returns_iff {data : Blob} :
    (fuzzTransactionDecoding E data).Returns ↔
      ∀ tx, E.leeTransaction.decode data = some tx → E.leeTransaction.Stable tx := by
  unfold fuzzTransactionDecoding
  split
  · rename_i tx hdecode
    simp only [assertRoundTrip_returns_iff, hdecode, Option.some.injEq, forall_eq']
  · rename_i hdecode
    exact iff_of_true (Except.returns_ok ()) fun tx htx => nomatch hdecode.symm.trans htx

/-- They are skipped here, too. -/
theorem fuzzStateSerialization_returns_iff {C : Codec Blob M.State} {data : Blob} :
    (fuzzStateSerialization C data).Returns ↔
      ∀ state, C.decode data = some state → C.Stable state := by
  unfold fuzzStateSerialization
  split
  · rename_i hdecode
    exact iff_of_true (Except.returns_ok ()) fun state hstate => nomatch hdecode.symm.trans hstate
  · rename_i decoded hdecode
    simp only [assertRoundTrip_returns_iff, hdecode, Option.some.injEq, forall_eq']

/-- A genesis state is asked to encode to something and to survive that. -/
theorem fuzzNullifierSetRoundtrip_returns_iff {C : Codec Blob M.State} {genesis : M.State} :
    (fuzzNullifierSetRoundtrip C genesis).Returns ↔
      C.Stable genesis ∧ C.encode genesis ≠ some [] := by
  simp only [fuzzNullifierSetRoundtrip, Except.returns_bind_iff, Except.expect_eq_ok_iff,
    Except.assert_eq_ok_iff, Except.returns_assert_iff, Codec.Stable, exists_and_left, exists_const]
  constructor
  · rintro ⟨bytes, hencode, hne, state2, hdecode, bytes2, hagain, rfl⟩
    exact ⟨⟨bytes, hencode, state2, hdecode, hagain⟩,
      fun h => hne (Option.some.inj (hencode.symm.trans h))⟩
  · rintro ⟨⟨bytes, hencode, state2, hdecode, hagain⟩, hne⟩
    exact ⟨bytes, hencode, fun h => hne (h ▸ hencode), state2, hdecode, bytes, hagain, rfl⟩

/-- A transaction that the check rejects is skipped. -/
theorem assertCheckIdempotent_returns_iff {tx : M.Tx} : (assertCheckIdempotent tx).Returns ↔
    ∀ checkedTx, M.transactionStatelessCheck tx = .ok checkedTx →
      (M.transactionStatelessCheck checkedTx).Returns := by
  unfold assertCheckIdempotent
  split
  · rename_i checkedTx hcheck
    simp only [Except.returns_assert_iff, hcheck, Except.ok.injEq, forall_eq']
    cases M.transactionStatelessCheck checkedTx with
    | error e => exact iff_of_false nofun (Except.not_returns_error e)
    | ok a => exact iff_of_true rfl (Except.returns_ok a)
  · rename_i hcheck
    exact iff_of_true (Except.returns_ok ()) fun a ha => nomatch hcheck.symm.trans ha

end Assertions

/-! ## The targets -/

section Targets

variable {M : Machine} {A : PublicTxCrates M} {u : WideUnstructured} [Nonempty u.Bytes]
  (hpanic : WideDrawsDoNotPanic u) (hreach : WideDrawsReach u)
  (hseed : (M.tryNew knownGoodSeed).isSome)
include hpanic hreach hseed

/-- Test 1 of `fuzz_encoding_roundtrip`, on every transaction of the generator. -/
theorem drawnRoundTrip_sweeps (E : EncodingCrates M) : (drawnRoundTrip E A u).Sweeps
    (∀ tx, ReachableTx A (.Public tx) → (publicCodec E).Stable tx) :=
  sweeps_attempt (arbPublicTransaction_hasRange hreach)
    (arbPublicTransaction_failsWith hpanic hseed) (exists_reachableTx A) Gen.succeeds_pure
    fun _ _ => Gen.sweeps_lift.congr assertEncodingRoundTrip_returns_iff

/-- The check is repeated on what every transaction of the generator is handed back as. -/
theorem fuzzStatelessVerification_sweeps : (fuzzStatelessVerification A u).Sweeps
    (∀ tx, ReachableTx A tx → ∀ checkedTx, M.transactionStatelessCheck tx = .ok checkedTx →
      (M.transactionStatelessCheck checkedTx).Returns) := by
  obtain ⟨pt, hpt⟩ := exists_reachableTx A
  exact sweeps_attempt (arbLeeTransaction_hasRange hreach)
    (arbLeeTransaction_failsWith hpanic hseed) ⟨.Public pt, hpt⟩ Gen.succeeds_pure
    fun _ _ => Gen.sweeps_lift.congr assertCheckIdempotent_returns_iff

/-- Test 1 runs on every state of the draws, test 2 on every sequence of bytes. -/
theorem fuzzEncodingRoundtrip_returns_iff (E : EncodingCrates M) {new : Blob → u.Bytes}
    (hnew : new.Surjective) :
    (∀ data, ∃ rest, fuzzEncodingRoundtrip E A u data (new data) = (.ok (), rest)) ↔
      (∀ tx, ReachableTx A (.Public tx) → (publicCodec E).Stable tx) ∧
        (publicCodec E).Canonical := by
  rw [← (drawnRoundTrip_sweeps (A := A) hpanic hreach hseed E).succeeds_iff]
  constructor
  · intro h
    refine ⟨fun s => ?_, fun data => ?_⟩
    · -- test 1 runs first, on what `new` makes of the bytes
      obtain ⟨data, rfl⟩ := hnew s
      obtain ⟨rest, hrun⟩ := h data
      obtain ⟨_, mid, hdrawn, _⟩ := Gen.exists_of_bind_eq_ok hrun
      exact ⟨_, mid, hdrawn⟩
    · obtain ⟨rest, hrun⟩ := h data
      obtain ⟨_, mid, _, hraw⟩ := Gen.exists_of_bind_eq_ok hrun
      exact assertCanonicalEncoding_returns_iff.mp
        ⟨(), Gen.exists_lift_eq_ok_iff.mp ⟨rest, hraw⟩⟩
  · rintro ⟨hdrawn, hcanonical⟩ data
    obtain ⟨_, mid, hrun⟩ := hdrawn (new data)
    obtain ⟨_, hraw⟩ := assertCanonicalEncoding_returns_iff.mpr (hcanonical data)
    obtain ⟨rest, hlift⟩ : ∃ rest, checked (assertCanonicalEncoding E data) mid = (.ok (), rest) :=
      Gen.exists_lift_eq_ok_iff.mpr hraw
    exact ⟨rest, (Gen.bind_of_eq_ok hrun).trans hlift⟩

end Targets

/-- On all inputs together, `fuzz_encoding_roundtrip` asserts that every transaction the
    generator can draw survives its encoding and that no other encoding of a transaction is
    accepted; `fuzz_transaction_decoding` and `fuzz_state_serialization` assert only that
    what is accepted is stable once it has been rewritten; `fuzz_stateless_verification`
    asserts that what a transaction of the generator is handed back as passes the check
    again. -/
theorem statelessTargets_return_iff {M : Machine} (E : EncodingCrates M) (A : PublicTxCrates M)
    (u : WideUnstructured) (new : Blob → u.Bytes) (hnew : new.Surjective)
    (hpanic : WideDrawsDoNotPanic u) (hreach : WideDrawsReach u)
    (hseed : (M.tryNew knownGoodSeed).isSome) :
    ((∀ data, ∃ rest, fuzzEncodingRoundtrip E A u data (new data) = (.ok (), rest)) ↔
      (∀ tx, ReachableTx A (.Public tx) → (publicCodec E).Stable tx) ∧
        (publicCodec E).Canonical) ∧
    ((∀ data, (fuzzTransactionDecoding E data).Returns) ↔ E.leeTransaction.Idempotent) ∧
    ((∀ data, (fuzzStateSerialization E.state data).Returns) ↔ E.state.Idempotent) ∧
    ((∀ input, ∃ rest, fuzzStatelessVerification A u input = (.ok (), rest)) ↔
      ∀ tx, ReachableTx A tx → ∀ checkedTx, M.transactionStatelessCheck tx = .ok checkedTx →
        (M.transactionStatelessCheck checkedTx).Returns) := by
  have : Nonempty u.Bytes := ⟨new []⟩
  refine ⟨fuzzEncodingRoundtrip_returns_iff hpanic hreach hseed E hnew,
    forall_congr' fun _ => fuzzTransactionDecoding_returns_iff,
    forall_congr' fun _ => fuzzStateSerialization_returns_iff, ?_⟩
  rw [← (fuzzStatelessVerification_sweeps hpanic hreach hseed).succeeds_iff]
  exact forall_congr' fun input => ⟨fun ⟨rest, hrun⟩ => ⟨(), rest, hrun⟩,
    fun ⟨_, rest, hrun⟩ => ⟨rest, hrun⟩⟩

/-! ## Nullifier sets -/

section Nullifiers

variable {N : Type} [DecidableEq N] {rejects : Bool → Bool}

/-- One turn of `deserialize_reader`: insert a nullifier, and decide by what `insert` returns,
    whether it was new, if that is an error. The documented condition is `!set.insert(n)`. -/
def insertNullifier (rejects : Bool → Bool) (set : Finset N) (n : N) : Option (Finset N) :=
  if rejects (decide (n ∉ set)) then none else some (insert n set)

/-- A nullifier set is read from a list. -/
def deserializeReader (rejects : Bool → Bool) (nullifiers : List N) : Option (Finset N) :=
  nullifiers.foldlM (insertNullifier rejects) ∅

/-- What is read without an error are the nullifiers of the list. -/
theorem eq_union_of_foldlM_insertNullifier {nullifiers : List N} {start set : Finset N}
    (h : nullifiers.foldlM (insertNullifier rejects) start = some set) :
    set = start ∪ nullifiers.toFinset := by
  induction nullifiers generalizing start with
  | nil =>
    obtain rfl := Option.some.inj h
    simp
  | cons n nullifiers ih =>
    obtain ⟨next, hnext, hrest⟩ := Option.bind_eq_some_iff.mp (List.foldlM_cons.symm.trans h)
    unfold insertNullifier at hnext
    split at hnext
    · cases hnext
    · obtain rfl := Option.some.inj hnext
      rw [ih hrest, List.toFinset_cons, Finset.insert_union, Finset.union_insert]

/-- On a list of new nullifiers only the answer to a new one counts. -/
theorem foldlM_insertNullifier_of_nodup {nullifiers : List N} {start : Finset N}
    (hnodup : nullifiers.Nodup) (hnew : ∀ n ∈ nullifiers, n ∉ start) :
    nullifiers.foldlM (insertNullifier rejects) start =
      if rejects true ∧ nullifiers ≠ [] then none else some (start ∪ nullifiers.toFinset) := by
  induction nullifiers generalizing start with
  | nil => simp
  | cons n nullifiers ih =>
    obtain ⟨hn, hrest⟩ := List.forall_mem_cons.mp hnew
    obtain ⟨hnot, hnodup⟩ := List.nodup_cons.mp hnodup
    -- the rest is as new to the set with `n` in it
    have hnext : ∀ m ∈ nullifiers, m ∉ insert n start := by
      intro m hm hmem
      rcases Finset.mem_insert.mp hmem with rfl | hstart
      · exact hnot hm
      · exact hrest m hm hstart
    rw [List.foldlM_cons, insertNullifier, decide_eq_true hn]
    cases hfresh : rejects true with
    | true => simp  -- the first nullifier is rejected already
    | false =>
      show nullifiers.foldlM (insertNullifier rejects) (insert n start) = _
      rw [ih hnodup hnext, hfresh]
      simp

/-- The documented condition lets no nullifier through that is there already. -/
theorem nodup_of_foldlM_insertNullifier {nullifiers : List N} {start set : Finset N}
    (h : nullifiers.foldlM (insertNullifier fun inserted => !inserted) start = some set) :
    nullifiers.Nodup ∧ ∀ n ∈ nullifiers, n ∉ start := by
  induction nullifiers generalizing start with
  | nil => exact ⟨List.nodup_nil, nofun⟩
  | cons n nullifiers ih =>
    obtain ⟨next, hnext, hrest⟩ := Option.bind_eq_some_iff.mp (List.foldlM_cons.symm.trans h)
    unfold insertNullifier at hnext
    split at hnext
    · cases hnext
    · rename_i hinserted
      obtain rfl := Option.some.inj hnext
      obtain ⟨hnodup, hnew⟩ := ih hrest
      have hn : n ∉ start := by simpa using hinserted
      -- what comes later was not in the set with `n`, so it is neither `n` nor in the old one
      refine ⟨List.nodup_cons.mpr ⟨fun hmem => ?_, hnodup⟩, List.forall_mem_cons.mpr ⟨hn, ?_⟩⟩
      · exact hnew n hmem (Finset.mem_insert_self n start)
      · exact fun m hm hstart => hnew m hm (Finset.mem_insert_of_mem hstart)

/-- What the encoder writes has no repetitions. -/
theorem deserializeReader_of_nodup {nullifiers : List N} (h : nullifiers.Nodup) :
    deserializeReader rejects nullifiers =
      if rejects true ∧ nullifiers ≠ [] then none else some nullifiers.toFinset := by
  rw [deserializeReader, foldlM_insertNullifier_of_nodup h fun n _ => Finset.notMem_empty n,
    Finset.empty_union]

/-- A reader that returns has read the nullifiers of the list. -/
theorem eq_toFinset_of_deserializeReader {nullifiers : List N} {set : Finset N}
    (h : deserializeReader rejects nullifiers = some set) : set = nullifiers.toFinset := by
  rw [eq_union_of_foldlM_insertNullifier h, Finset.empty_union]

/-- The first nullifier is a new one, whatever the list. -/
theorem not_rejects_of_deserializeReader {nullifiers : List N} {set : Finset N}
    (h : deserializeReader rejects nullifiers = some set) :
    ¬ (rejects true ∧ nullifiers ≠ []) := by
  rintro ⟨hfresh, hne⟩
  cases nullifiers with
  | nil => exact hne rfl
  | cons n nullifiers =>
    have hn : n ∉ (∅ : Finset N) := Finset.notMem_empty n
    rw [deserializeReader, List.foldlM_cons, insertNullifier, decide_eq_true hn, hfresh] at h
    cases h

/-- A reader without a check drops repeated nullifiers. -/
theorem deserializeReader_dropping (nullifiers : List N) :
    deserializeReader (fun _ => false) nullifiers = some nullifiers.toFinset := by
  have hfold : ∀ start : Finset N,
      (nullifiers.foldlM (insertNullifier fun _ => false) start).isSome := by
    induction nullifiers with
    | nil => exact fun _ => rfl
    | cons n nullifiers ih => exact fun start => ih (insert n start)
  -- it always returns, and then with the nullifiers of the list
  obtain ⟨set, hset⟩ := Option.isSome_iff_exists.mp (hfold ∅)
  rw [deserializeReader, hset, eq_union_of_foldlM_insertNullifier hset, Finset.empty_union]

/-- The documented reader rejects a list with a repeated nullifier. -/
theorem deserializeReader_rejecting {nullifiers : List N} (h : ¬ nullifiers.Nodup) :
    deserializeReader (fun inserted => !inserted) nullifiers = none :=
  Option.eq_none_iff_forall_ne_some.mpr fun _ hset => h (nodup_of_foldlM_insertNullifier hset).1

end Nullifiers

/-- An encoding of states with the nullifiers as a list, in some order that depends on the set
    alone, next to the rest. What is written is read back, and a shorter list can be written
    where a longer one has been read. -/
structure StateEncoding (M : Machine) (Rest N : Type) [DecidableEq N] where
  parts : Codec Blob (Rest × List N)
  faithful : parts.Faithful
  shorter : ∀ bytes rest nullifiers nullifiers', parts.decode bytes = some (rest, nullifiers) →
    nullifiers'.length ≤ nullifiers.length → (parts.encode (rest, nullifiers')).isSome
  split : M.State ≃ Rest × Finset N
  enumerate : Finset N → List N
  nodup_enumerate : ∀ set, (enumerate set).Nodup
  toFinset_enumerate : ∀ set, (enumerate set).toFinset = set

namespace StateEncoding

variable {M : Machine} {Rest N : Type} [DecidableEq N] (E : StateEncoding M Rest N)

/-- What is written of a state. -/
def written (state : M.State) : Rest × List N :=
  ((E.split state).1, E.enumerate (E.split state).2)

/-- What is made of the parts that were read. -/
def read (rejects : Bool → Bool) (decoded : Rest × List N) : Option M.State :=
  (deserializeReader rejects decoded.2).map fun set => E.split.symm (decoded.1, set)

/-- The codec of states with a reader of nullifier sets. -/
def codec (rejects : Bool → Bool) : Codec Blob M.State := E.parts.via E.written (E.read rejects)

/-- States that are written alike are equal. -/
theorem written_injective : E.written.Injective := by
  intro state state' heq
  obtain ⟨hrest, hlist⟩ := Prod.mk.inj heq
  have hset := congrArg List.toFinset hlist
  rw [E.toFinset_enumerate, E.toFinset_enumerate] at hset
  exact E.split.injective (Prod.ext hrest hset)

/-- A state is read again unless new nullifiers are rejected and it has one. -/
theorem read_written_iff {rejects : Bool → Bool} {state : M.State} :
    E.read rejects (E.written state) = some state ↔
      (rejects true = false ∨ (E.split state).2 = ∅) := by
  have hempty : E.enumerate (E.split state).2 = [] ↔ (E.split state).2 = ∅ := by
    rw [← List.toFinset_eq_empty_iff, E.toFinset_enumerate]
  rw [read, written, deserializeReader_of_nodup (E.nodup_enumerate _), E.toFinset_enumerate]
  split
  · rename_i hrejected
    simp [hrejected.1, hempty.not.mp hrejected.2]
  · -- the list gives back the set it has been made of
    rename_i hread
    rw [not_and_or, Bool.not_eq_true, not_not, hempty] at hread
    exact iff_of_true (congrArg some (E.split.symm_apply_apply state)) hread

/-- What has been read can be written, and is read again. -/
theorem read_again {rejects : Bool → Bool} {bytes : Blob} {decoded : Rest × List N}
    {state : M.State} (hdecode : E.parts.decode bytes = some decoded)
    (hread : E.read rejects decoded = some state) :
    (E.parts.encode (E.written state)).isSome ∧
      E.read rejects (E.written state) = some state := by
  obtain ⟨set, hset, rfl⟩ := Option.map_eq_some_iff.mp hread
  obtain rfl := eq_toFinset_of_deserializeReader hset
  have hsplit := E.split.apply_symm_apply (decoded.1, decoded.2.toFinset)
  constructor
  · -- repetitions are all that the list can lose
    have hshorter : (E.enumerate decoded.2.toFinset).length ≤ decoded.2.length := by
      rw [← List.toFinset_card_of_nodup (E.nodup_enumerate _), E.toFinset_enumerate]
      exact List.toFinset_card_le decoded.2
    rw [written, hsplit]
    exact E.shorter bytes decoded.1 decoded.2 _ hdecode hshorter
  · -- a reader that rejects new nullifiers has read an empty list
    rw [read_written_iff, hsplit]
    have hnot := not_rejects_of_deserializeReader hset
    rw [not_and_or, Bool.not_eq_true, not_not] at hnot
    exact hnot.imp_right (List.toFinset_eq_empty_iff _).mpr

/-- The codec is idempotent, whatever the condition for an error is. -/
theorem codec_idempotent (rejects : Bool → Bool) : (E.codec rejects).Idempotent :=
  E.faithful.via_idempotent E.written_injective fun _ _ _ hdecode hread =>
    E.read_again hdecode hread

end StateEncoding

/-- What the two targets see of the reader of nullifier sets. Whatever its condition for an
    error is, `fuzz_state_serialization` returns on all bytes. `fuzz_nullifier_set_roundtrip`
    returns on a genesis state exactly if it encodes to something, and new nullifiers are not
    rejected or it has none; what becomes of a repeated nullifier makes no difference. So
    neither tells the documented reader, which rejects a list with a repeated nullifier, from
    one that drops the repetition, although they differ on every such list that decodes. -/
theorem nullifierSetTargets_return_iff {M : Machine} {Rest N : Type} [DecidableEq N]
    (E : StateEncoding M Rest N) :
    (∀ rejects, (∀ data, (fuzzStateSerialization (E.codec rejects) data).Returns) ∧
      ∀ genesis, (fuzzNullifierSetRoundtrip (E.codec rejects) genesis).Returns ↔
        (∃ bytes, (E.codec rejects).encode genesis = some bytes ∧ bytes ≠ []) ∧
          (rejects true = false ∨ (E.split genesis).2 = ∅)) ∧
    ∀ bytes rest nullifiers, E.parts.decode bytes = some (rest, nullifiers) →
      ¬ nullifiers.Nodup →
      (E.codec fun inserted => !inserted).decode bytes = none ∧
      (E.codec fun _ => false).decode bytes = some (E.split.symm (rest, nullifiers.toFinset)) := by
  refine ⟨fun rejects => ⟨fun data => ?_, fun genesis => ?_⟩,
    fun bytes rest nullifiers hdecode hrepeated => ⟨?_, ?_⟩⟩
  · exact fuzzStateSerialization_returns_iff.mpr (E.codec_idempotent rejects data)
  · rw [fuzzNullifierSetRoundtrip_returns_iff, StateEncoding.codec,
      E.faithful.via_stable_iff E.written_injective, E.read_written_iff, Codec.encode_via,
      Option.isSome_iff_exists]
    constructor
    · rintro ⟨⟨⟨bytes, hencode⟩, hread⟩, hne⟩
      exact ⟨⟨bytes, hencode, fun hnil => hne (hnil ▸ hencode)⟩, hread⟩
    · rintro ⟨⟨bytes, hencode, hne⟩, hread⟩
      exact ⟨⟨⟨bytes, hencode⟩, hread⟩, fun hnil => hne (Option.some.inj (hencode.symm.trans hnil))⟩
  · rw [StateEncoding.codec, Codec.decode_via, hdecode, Option.bind_some, StateEncoding.read,
      deserializeReader_rejecting hrepeated, Option.map_none]
  · rw [StateEncoding.codec, Codec.decode_via, hdecode, Option.bind_some, StateEncoding.read,
      deserializeReader_dropping, Option.map_some]

/-! ## Instances that run -/

/-- The nullifiers in increasing order are the bytes. -/
def storedNullifiers : StateEncoding storedMachine Unit (BitVec 8) where
  parts := ⟨fun decoded => some decoded.2, fun bytes => some ((), bytes)⟩
  faithful _ _ hencode := congrArg (fun bytes => some ((), bytes)) (Option.some.inj hencode).symm
  shorter _ _ _ _ _ _ := rfl
  split := (Equiv.punitProd _).symm
  enumerate set := ((List.finRange 256).map BitVec.ofFin).filter fun n => n ∈ set
  nodup_enumerate _ := ((List.nodup_finRange 256).map fun _ _ => BitVec.ofFin.inj).filter _
  toFinset_enumerate set := by
    ext n
    -- every byte is enumerated
    have hmem : n ∈ (List.finRange 256).map BitVec.ofFin :=
      List.mem_map.mpr ⟨n.toFin, List.mem_finRange _, rfl⟩
    simp [hmem]

/-- Data behind a byte that says what it is. -/
def storedEncodings : EncodingCrates storedMachine where
  toBytes data := 7 :: data
  fromBytes bytes := if bytes.head? = some 7 then some bytes.tail else none
  leeTransaction := {
    encode := storedToVec
    decode := fun bytes =>
      if bytes.head? = some 0 then some (.Public bytes.tail)
      else if bytes.head? = some 1 then some (.PrivacyPreserving bytes.tail)
      else none }
  state := storedNullifiers.codec fun inserted => !inserted

/-- A tag and what comes after it. -/
theorem cons_tail_of_head? {bytes : Blob} {tag : BitVec 8} (h : bytes.head? = some tag) :
    tag :: bytes.tail = bytes := by
  cases bytes with
  | nil => cases h
  | cons byte data => exact congrArg (· :: data) (Option.some.inj h).symm

/-- Every encoding that is accepted starts with the byte that the encoder writes. -/
theorem storedEncodings_public_canonical : (publicCodec storedEncodings).Canonical := by
  intro bytes tx hdecode
  simp only [publicCodec, storedEncodings] at hdecode ⊢
  split at hdecode
  · rename_i hhead
    obtain rfl := Option.some.inj hdecode
    exact congrArg some (cons_tail_of_head? hhead)
  · cases hdecode

/-- So does every encoding of a transaction of either kind. -/
theorem storedEncodings_leeTransaction_canonical : storedEncodings.leeTransaction.Canonical := by
  intro bytes tx hdecode
  simp only [storedEncodings] at hdecode ⊢
  split at hdecode
  · rename_i hhead
    obtain rfl := Option.some.inj hdecode
    exact congrArg some (cons_tail_of_head? hhead)
  · split at hdecode
    · rename_i hhead
      obtain rfl := Option.some.inj hdecode
      exact congrArg some (cons_tail_of_head? hhead)
    · cases hdecode

/-- The targets return on bytes that decode, whether they are written like this or not. -/
theorem statelessTargets_return_iff_stored :
    (∃ rest, fuzzEncodingRoundtrip storedEncodings storedArb byteTape [7, 9, 4] ([7, 9, 4] : Blob) =
      (.ok (), rest)) ∧
    (fuzzTransactionDecoding storedEncodings [1, 5]).Returns ∧
    (fuzzStateSerialization storedEncodings.state [3, 2]).Returns ∧
    ∃ rest, fuzzStatelessVerification storedArb byteTape ([7, 9, 4] : Blob) = (.ok (), rest) := by
  obtain ⟨hencoding, hdecoding, hstate, hstateless⟩ := statelessTargets_return_iff storedEncodings
    storedArb byteTape id Function.surjective_id byteTape_doNotPanic byteTape_reaches rfl
  exact ⟨hencoding.mpr ⟨fun tx _ => ⟨7 :: tx, tx, rfl, rfl, rfl⟩,
      storedEncodings_public_canonical⟩ [7, 9, 4],
    hdecoding.mpr storedEncodings_leeTransaction_canonical.idempotent [1, 5],
    hstate.mpr (storedNullifiers.codec_idempotent _) [3, 2],
    hstateless.mpr (fun tx _ checkedTx _ => ⟨checkedTx, rfl⟩) [7, 9, 4]⟩

/-- The reader with the negation deleted is caught on a state with a nullifier, the one that
    drops repetitions passes there, and the documented one differs from it on `[2, 2]`. -/
theorem nullifierSetTargets_return_iff_stored :
    ¬ (fuzzNullifierSetRoundtrip (storedNullifiers.codec id) ({1} : Finset (BitVec 8))).Returns ∧
    (fuzzNullifierSetRoundtrip (storedNullifiers.codec fun _ => false)
      ({1} : Finset (BitVec 8))).Returns ∧
    (fuzzStateSerialization (storedNullifiers.codec fun _ => false) [2, 2]).Returns ∧
    (storedNullifiers.codec fun inserted => !inserted).decode [2, 2] = none ∧
    (storedNullifiers.codec fun _ => false).decode [2, 2] = some ({2} : Finset (BitVec 8)) := by
  obtain ⟨htargets, hdiffer⟩ := nullifierSetTargets_return_iff storedNullifiers
  obtain ⟨hrejecting, hdropping⟩ := hdiffer [2, 2] () [2, 2] rfl (by decide)
  have hne : storedNullifiers.enumerate {1} ≠ [] := fun hnil => by
    have hempty := storedNullifiers.toFinset_enumerate {1}
    rw [hnil] at hempty
    exact absurd hempty (by decide)
  refine ⟨fun hret => ?_, ((htargets fun _ => false).2 _).mpr ⟨⟨_, rfl, hne⟩, .inl rfl⟩,
    (htargets fun _ => false).1 [2, 2], hrejecting, hdropping⟩
  rcases (((htargets id).2 _).mp hret).2 with htrue | hempty
  · exact Bool.noConfusion htrue
  · exact Finset.singleton_ne_empty _ hempty

end LezFuzzing.Spec
