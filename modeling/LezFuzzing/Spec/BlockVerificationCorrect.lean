import LezFuzzing.Native.BlockVerification
import LezFuzzing.Spec.ArbitraryTypesCorrect

/-!
# What the block target asserts of a hash

Every collision it is after is found by some input. But it is after few of them: each field is
changed in one way only, and the order of the transactions in one, so that four bits of a block
are enough to tell all the blocks it compares apart.

## Key results

- `fuzzBlockVerification_fails_iff`: the collisions that some input finds
- `fuzzBlockVerification_blind`: a hash with sixteen values that passes on every input
-/

namespace LezFuzzing.Spec

open LezFuzzing.Native

section Verify

variable {Tx : Type} {B : BlockCrates Tx} {base : HashableBlockData Tx}

/-- What the order assertion is about: both ends of the list encode, and they tell the
    reversed block apart if they differ. -/
def OrderCommitted (B : BlockCrates Tx) (base : HashableBlockData Tx) : Prop :=
  ∀ first last, 2 ≤ base.transactions.length → base.transactions.head? = some first →
    base.transactions.getLast? = some last →
    ∃ firstVec lastVec, B.toVec first = some firstVec ∧ B.toVec last = some lastVec ∧
      (firstVec ≠ lastVec → B.hash base ≠ B.hash (reverseTransactions base))

/-- What the target asserts of one block. -/
@[mk_iff]
structure BlockCommitted (B : BlockCrates Tx) (base : HashableBlockData Tx) : Prop where
  roundTrip : B.hash base = B.hash (B.fromBlock (B.intoPendingBlock base))
  blockId : B.hash base ≠ B.hash (incrementBlockId base)
  prevBlockHash : B.hash base ≠ B.hash (flipPrevBlockHash base)
  timestamp : B.hash base ≠ B.hash (incrementTimestamp base)
  order : OrderCommitted B base

/-- Where the order assertion fails: an end does not encode, or the reversal goes unnoticed. -/
theorem not_orderCommitted_iff : ¬ OrderCommitted B base ↔
    ∃ first last, 2 ≤ base.transactions.length ∧ base.transactions.head? = some first ∧
      base.transactions.getLast? = some last ∧
      (B.toVec first = none ∨ B.toVec last = none ∨ B.toVec first ≠ B.toVec last ∧
        B.hash base = B.hash (reverseTransactions base)) := by
  simp only [OrderCommitted, not_forall, exists_prop]
  refine exists₂_congr fun first last => and_congr_right fun _ => and_congr_right fun _ =>
    and_congr_right fun _ => ?_
  cases B.toVec first <;> cases B.toVec last <;> simp

/-- The order assertion, for a list of any length. -/
theorem assertOrderCommitment_returns_iff :
    (assertOrderCommitment B base).Returns ↔ OrderCommitted B base := by
  unfold assertOrderCommitment OrderCommitted
  rw [← List.head?_eq_getElem?, ← List.getLast?_eq_getElem?]
  split
  · rename_i hlen
    -- a list of two has both ends, so neither index is out of range
    have hne : base.transactions ≠ [] := by
      rintro hnil
      rw [hnil] at hlen
      exact absurd hlen (Nat.not_succ_le_zero 1)
    obtain ⟨first, hfirst⟩ : ∃ first, base.transactions.head? = some first :=
      ⟨_, List.head?_eq_some_head hne⟩
    obtain ⟨last, hlast⟩ : ∃ last, base.transactions.getLast? = some last :=
      ⟨_, List.getLast?_eq_some_getLast hne⟩
    rw [hfirst, hlast]
    simp only [Except.returns_bind_iff, Except.expect_eq_ok_iff, Option.some.injEq, hlen,
      true_implies]
    constructor
    · rintro ⟨firstVec, hfirstVec, lastVec, hlastVec, hreturns⟩ _ _ rfl rfl
      refine ⟨firstVec, lastVec, hfirstVec, hlastVec, fun hne => ?_⟩
      rw [if_pos hne] at hreturns
      exact Except.returns_assert_iff.mp hreturns
    · -- equal ends skip the assertion
      intro h
      obtain ⟨firstVec, lastVec, hfirstVec, hlastVec, hcommitted⟩ := h first last rfl rfl
      refine ⟨firstVec, hfirstVec, lastVec, hlastVec, ?_⟩
      split
      · rename_i hne
        exact Except.returns_assert_iff.mpr (hcommitted hne)
      · exact Except.returns_ok ()
  · rename_i hshort
    exact iff_of_true (Except.returns_ok ()) fun _ _ hlen => absurd hlen hshort

/-- The assertions on one block, in the order of the target. -/
theorem verifyBlock_returns_iff : (verifyBlock B base).Returns ↔ BlockCommitted B base := by
  simp only [verifyBlock, assertHashRoundTrip, assertHashChanged, Except.returns_bind_iff,
    Except.assert_eq_ok_iff, assertOrderCommitment_returns_iff, exists_and_left, exists_const]
  exact ⟨fun ⟨h₁, h₂, h₃, h₄, h₅⟩ => ⟨h₁, h₂, h₃, h₄, h₅⟩,
    fun ⟨h₁, h₂, h₃, h₄, h₅⟩ => ⟨h₁, h₂, h₃, h₄, h₅⟩⟩

end Verify

section Target

variable {M : Machine} {A : PublicTxCrates M} {u : WideUnstructured}

/-- The blocks that can be drawn. -/
def ReachableBlock (A : PublicTxCrates M) (base : HashableBlockData M.Tx) : Prop :=
  base.transactions.length < 8 ∧ ∀ tx ∈ base.transactions, ReachableTx A tx

/-- The target asserts this of every block that can be drawn, and of no others. -/
theorem fuzzBlockVerification_sweeps [Nonempty u.Bytes] (hpanic : WideDrawsDoNotPanic u)
    (hreach : WideDrawsReach u) (hseed : (M.tryNew knownGoodSeed).isSome)
    (B : BlockCrates M.Tx) :
    (fuzzBlockVerification A B u).Sweeps (∀ base, ReachableBlock A base → BlockCommitted B base) :=
  sweeps_attempt (arbHashableBlockData_hasRange hreach)
    (arbHashableBlockData_failsWith hpanic hseed) ⟨⟨0, 0, 0, []⟩, Nat.succ_pos 7, nofun⟩
    Gen.succeeds_pure fun _ _ =>
      Gen.sweeps_lift.congr verifyBlock_returns_iff

end Target

/-- `fuzz_block_verification` fails on some input exactly when some block of fewer than eight
    reachable transactions has another hash after the round trip through `Block`, or the same
    hash with its id or timestamp incremented or the first byte of its previous hash flipped,
    or, with two transactions or more, has an end that does not encode, or different ends and
    the same hash in reverse. -/
theorem fuzzBlockVerification_fails_iff {M : Machine} (A : PublicTxCrates M)
    (B : BlockCrates M.Tx) (u : WideUnstructured) [Nonempty u.Bytes]
    (hpanic : WideDrawsDoNotPanic u) (hreach : WideDrawsReach u)
    (hseed : (M.tryNew knownGoodSeed).isSome) :
    (∃ input e rest, fuzzBlockVerification A B u input = (.error e, rest)) ↔
      ∃ base, base.transactions.length < 8 ∧ (∀ tx ∈ base.transactions, ReachableTx A tx) ∧
        (B.hash base ≠ B.hash (B.fromBlock (B.intoPendingBlock base)) ∨
          B.hash base = B.hash (incrementBlockId base) ∨
          B.hash base = B.hash (flipPrevBlockHash base) ∨
          B.hash base = B.hash (incrementTimestamp base) ∨
          ∃ first last, 2 ≤ base.transactions.length ∧ base.transactions.head? = some first ∧
            base.transactions.getLast? = some last ∧
            (B.toVec first = none ∨ B.toVec last = none ∨ B.toVec first ≠ B.toVec last ∧
              B.hash base = B.hash (reverseTransactions base))) := by
  refine (fuzzBlockVerification_sweeps hpanic hreach hseed B).fails_iff.trans ?_
  -- a block that is not committed misses one of the five
  simp only [not_forall, exists_prop, ReachableBlock, and_assoc, blockCommitted_iff, not_and_or,
    not_orderCommitted_iff, ne_eq, not_not]

/-! ## A hash with sixteen values -/

section FourBits

variable {Tx : Type} (toVec : Tx → Option (List (BitVec 8)))

/-- The encoding of a transaction as a number. -/
def encodingNumber (tx : Tx) : ℕ := Encodable.encode ((toVec tx).map (·.map BitVec.toNat))

/-- The number tells two encodings apart. -/
theorem encodingNumber_injective {tx tx' : Tx}
    (h : encodingNumber toVec tx = encodingNumber toVec tx') : toVec tx = toVec tx' :=
  Option.map_injective (List.map_injective_iff.mpr fun _ _ => BitVec.eq_of_toNat_eq)
    (Encodable.encode_injective h)

/-- Whether the first transaction encodes to less than the last. -/
def orderBit (txs : List Tx) : Bool :=
  match txs.head?, txs.getLast? with
  | some first, some last => encodingNumber toVec first < encodingNumber toVec last
  | _, _ => false

/-- One bit of each header field, and one of the transactions. -/
def fourBits (base : HashableBlockData Tx) : BitVec 4 :=
  (BitVec.ofBool (base.blockId.getLsbD 0) ++ BitVec.ofBool (base.prevBlockHash.getLsbD 248)) ++
    (BitVec.ofBool (base.timestamp.getLsbD 0) ++ BitVec.ofBool (orderBit toVec base.transactions))

/-- Blocks that are hashed to four bits, and keep their data. -/
def fourBitBlocks : BlockCrates Tx where
  Block := HashableBlockData Tx
  intoPendingBlock := id
  headerHash base := (fourBits toVec base).setWidth 256
  fromBlock := id
  toVec := toVec

variable {toVec : Tx → Option (List (BitVec 8))}

/-- Four bits in a row are the four bits. -/
theorem ofBool_append_inj {a b c d a' b' c' d' : Bool} :
    (BitVec.ofBool a ++ BitVec.ofBool b) ++ (BitVec.ofBool c ++ BitVec.ofBool d) =
      (BitVec.ofBool a' ++ BitVec.ofBool b') ++ (BitVec.ofBool c' ++ BitVec.ofBool d') ↔
      a = a' ∧ b = b' ∧ c = c' ∧ d = d' := by
  revert a b c d a' b' c' d'
  decide

/-- Blocks with the same four bits have the same hash, and no others. -/
theorem fourBitBlocks_hash_eq_iff {base base' : HashableBlockData Tx} :
    (fourBitBlocks toVec).hash base = (fourBitBlocks toVec).hash base' ↔
      base.blockId.getLsbD 0 = base'.blockId.getLsbD 0 ∧
      base.prevBlockHash.getLsbD 248 = base'.prevBlockHash.getLsbD 248 ∧
      base.timestamp.getLsbD 0 = base'.timestamp.getLsbD 0 ∧
      orderBit toVec base.transactions = orderBit toVec base'.transactions := by
  -- widening four bits to a hash loses none of them
  have hinj : Function.Injective (BitVec.setWidth 256 : BitVec 4 → BitVec 256) := by
    intro x y heq
    have hnat := congrArg BitVec.toNat heq
    rw [BitVec.toNat_setWidth_of_le (by decide), BitVec.toNat_setWidth_of_le (by decide)] at hnat
    exact BitVec.eq_of_toNat_eq hnat
  exact hinj.eq_iff.trans ofBool_append_inj

/-- The increment flips the lowest bit. -/
theorem getLsbD_zero_add_one (x : U64) : (x + 1).getLsbD 0 = !x.getLsbD 0 := by
  rw [BitVec.getLsbD_add (by decide)]
  simp

/-- The lowest bit of the first byte is bit 248 of the number. -/
theorem getLsbD_flipFirstByte (bytes : Bytes32) :
    (flipFirstByte bytes).getLsbD 248 = !bytes.getLsbD 248 := by
  simp [flipFirstByte]

/-- Different ends compare the other way round in the reversed list. -/
theorem orderBit_reverse {txs : List Tx} {first last : Tx} (hfirst : txs.head? = some first)
    (hlast : txs.getLast? = some last) (hne : toVec first ≠ toVec last) :
    orderBit toVec txs.reverse = !orderBit toVec txs := by
  have hnumber : encodingNumber toVec first ≠ encodingNumber toVec last :=
    fun heq => hne (encodingNumber_injective toVec heq)
  simp only [orderBit, List.head?_reverse, List.getLast?_reverse, hfirst, hlast]
  -- of two different numbers one is less than the other
  rw [← decide_not, decide_eq_decide]
  omega

/-- Four bits are enough to pass. -/
theorem fourBitBlocks_committed {base : HashableBlockData Tx}
    (htoVec : ∀ tx ∈ base.transactions, (toVec tx).isSome) :
    BlockCommitted (fourBitBlocks toVec) base where
  roundTrip := rfl
  blockId heq := by
    have hbit := (fourBitBlocks_hash_eq_iff.mp heq).1
    exact Bool.not_ne_self _ ((getLsbD_zero_add_one _).symm.trans hbit.symm)
  prevBlockHash heq := by
    have hbit := (fourBitBlocks_hash_eq_iff.mp heq).2.1
    exact Bool.not_ne_self _ ((getLsbD_flipFirstByte _).symm.trans hbit.symm)
  timestamp heq := by
    have hbit := (fourBitBlocks_hash_eq_iff.mp heq).2.2.1
    exact Bool.not_ne_self _ ((getLsbD_zero_add_one _).symm.trans hbit.symm)
  order first last _ hfirst hlast := by
    obtain ⟨firstVec, hfirstVec⟩ := Option.isSome_iff_exists.mp
      (htoVec first (List.mem_of_head? hfirst))
    obtain ⟨lastVec, hlastVec⟩ := Option.isSome_iff_exists.mp
      (htoVec last (List.mem_of_getLast? hlast))
    refine ⟨firstVec, lastVec, hfirstVec, hlastVec, fun hne heq => ?_⟩
    -- the reversed block would have to agree in the fourth bit
    have hbit := (fourBitBlocks_hash_eq_iff.mp heq).2.2.2
    have hne' : toVec first ≠ toVec last := by
      rw [hfirstVec, hlastVec]
      exact fun h => hne (Option.some.inj h)
    have hreverse := orderBit_reverse hfirst hlast hne'
    exact Bool.not_ne_self _ (hreverse.symm.trans hbit.symm)

end FourBits

/-- A hash that leaves the block id out is found. -/
theorem fuzzBlockVerification_fails_iff_constant :
    ∃ input e rest, fuzzBlockVerification plainArb
      ⟨HashableBlockData plainMachine.Tx, id, fun _ => 0, id, fun _ => some []⟩ byteTape input =
        (.error e, rest) :=
  (fuzzBlockVerification_fails_iff plainArb _ byteTape byteTape_doNotPanic byteTape_reaches
    rfl).mpr ⟨⟨0, 0, 0, []⟩, Nat.succ_pos 7, nofun, .inr (.inl rfl)⟩

/-- Whatever the encoding of transactions, some block hash with only sixteen values passes
    `fuzz_block_verification` on every input. -/
theorem fuzzBlockVerification_blind {M : Machine} (A : PublicTxCrates M) (u : WideUnstructured)
    [Nonempty u.Bytes] (hpanic : WideDrawsDoNotPanic u) (hreach : WideDrawsReach u)
    (hseed : (M.tryNew knownGoodSeed).isSome) (toVec : M.Tx → Option (List (BitVec 8)))
    (htoVec : ∀ tx, ReachableTx A tx → (toVec tx).isSome) :
    ∃ B : BlockCrates M.Tx, B.toVec = toVec ∧ (∀ base, (B.hash base).toNat < 16) ∧
      ∀ input, ∃ rest, fuzzBlockVerification A B u input = (.ok (), rest) := by
  refine ⟨fourBitBlocks toVec, rfl, fun base => ?_, fun input => ?_⟩
  · exact (BitVec.toNat_setWidth_of_le (by decide)).trans_lt (fourBits toVec base).isLt
  · obtain ⟨_, rest, hrun⟩ := (fuzzBlockVerification_sweeps hpanic hreach hseed
      (fourBitBlocks toVec)).succeeds_iff.mpr (fun base hbase => fourBitBlocks_committed
        fun tx htx => htoVec tx (hbase.2 tx htx)) input
    exact ⟨rest, hrun⟩

/-- Nor does an encoding help that tells all transactions apart. -/
theorem fuzzBlockVerification_blind_stored :
    ∃ B : BlockCrates storedMachine.Tx, B.toVec = storedToVec ∧
      (∀ base, (B.hash base).toNat < 16) ∧
      ∀ input, ∃ rest, fuzzBlockVerification storedArb B byteTape input = (.ok (), rest) := by
  refine fuzzBlockVerification_blind storedArb byteTape byteTape_doNotPanic byteTape_reaches rfl
    storedToVec fun tx _ => ?_
  cases tx <;> rfl

end LezFuzzing.Spec
