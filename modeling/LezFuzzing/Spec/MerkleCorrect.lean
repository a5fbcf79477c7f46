import LezFuzzing.ForStd.Merkle
import LezFuzzing.ForStd.Uniq
import LezFuzzing.Native.MerkleTree
import LezFuzzing.Spec.ReferenceMachine

/-!
# What the commitment tree target establishes

The target knows the tree from its digest and its proofs. If the digest is the root of some
leaves, a run that passes has read these leaves: sorted by index, the leaves from 1 on are
those of the inserted commitments, unless the hash collides on one of the paths. And on a
tree that is built from the dummy and the commitments in turn, every run passes.

## Key results

- `fuzzMerkleTree_returns_iff`: what a run has checked
- `fuzzMerkleTree_sound`: it pins down the leaves of the tree
- `fuzzMerkleTree_no_false_alarm`: a tree as it should be passes on every input
-/

namespace LezFuzzing.Spec

open LezFuzzing.Native

section Target

variable {M : Machine} {G : GenesisCrates M} (C : CommitmentCrates G)

/-- The chunks of the input, without repetitions. -/
def distinctChunks (data : List (BitVec 8)) : List Bytes32 :=
  List.uniq [] ((chunksExact 32 data).map chunkBytes)

/-- The commitment and the nullifier of a chunk. -/
def chunkPair (bytes : Bytes32) : G.Commitment × G.Nullifier :=
  (C.commitmentNew ⟨bytes⟩, C.nullifierFromByteArray bytes)

/-- The state that the target builds from its input. -/
def chunkState (data : List (BitVec 8)) : M.State :=
  genesisState G [] ((distinctChunks data).map (chunkPair C))

/-- What is pushed are the distinct chunks, each with its pair. -/
private theorem foldl_pushChunk (chunks : List (List (BitVec 8)))
    (acc : List Bytes32 × List (G.Commitment × G.Nullifier)) :
    (∀ bytes, bytes ∈ (chunks.foldl (pushChunk C) acc).1 ↔
      bytes ∈ chunks.map chunkBytes ∨ bytes ∈ acc.1) ∧
    (chunks.foldl (pushChunk C) acc).2 =
      acc.2 ++ (List.uniq acc.1 (chunks.map chunkBytes)).map (chunkPair C) := by
  induction chunks generalizing acc with
  | nil => exact ⟨fun bytes => by simp, (List.append_nil _).symm⟩
  | cons chunk chunks ih =>
    rw [List.foldl_cons, List.map_cons, pushChunk]
    by_cases hmem : chunkBytes chunk ∈ acc.1
    · rw [if_pos hmem, List.uniq_cons_of_mem hmem]
      refine ⟨fun bytes => ?_, (ih acc).2⟩
      rw [(ih acc).1, List.mem_cons]
      grind
    · rw [if_neg hmem, List.uniq_cons_of_not_mem hmem]
      obtain ⟨hseen, hpairs⟩ := ih (chunkBytes chunk :: acc.1,
        acc.2 ++
          [(C.commitmentNew ⟨chunkBytes chunk⟩, C.nullifierFromByteArray (chunkBytes chunk))])
      refine ⟨fun bytes => ?_, ?_⟩
      · rw [hseen, List.mem_cons, List.mem_cons]
        grind
      · rw [hpairs, List.append_assoc]
        rfl

/-- Sorted indices are `1..=N` exactly if the indices are, in some order. -/
theorem assertIndicesSequential_iff {indices : List ℕ} {u : Unit} :
    assertIndicesSequential indices = .ok u ↔ indices.Perm (List.range' 1 indices.length) := by
  have hsorted : (assertIndicesSequential indices = .ok u) ↔
      indices.mergeSort (· ≤ ·) = List.range' 1 indices.length := by
    rw [assertIndicesSequential, Except.forM_eq_ok_iff]
    simp only [Except.assert_eq_ok_iff]
    constructor
    · intro hall
      refine List.ext_getElem (by simp) fun k hk _ => ?_
      have hmem := List.mk_mem_zipIdx_iff_getElem?.mpr (List.getElem?_eq_getElem hk)
      rw [List.getElem_range', Nat.one_mul, Nat.add_comm]
      exact hall _ hmem
    · rintro heq ⟨idx, k⟩ hmem
      rw [List.mk_mem_zipIdx_iff_getElem?, heq] at hmem
      obtain ⟨_, hget⟩ := List.getElem?_eq_some_iff.mp hmem
      rw [List.getElem_range'] at hget
      omega
  rw [hsorted]
  constructor
  · intro heq
    exact heq ▸ (List.mergeSort_perm indices _).symm
  · intro hperm
    exact ((List.mergeSort_perm indices _).trans hperm).eq_of_sortedLE List.sortedLE_mergeSort
      (List.sortedLE_range' 1 _ 1)

/-- A proof of membership that leads to the digest. -/
def Proves (state : M.State) (bytes : Bytes32) (index : ℕ) : Prop :=
  ∃ path, C.getProofForCommitment state (C.commitmentNew ⟨bytes⟩) = some (index, path) ∧
    C.computeDigestForPath (C.commitmentNew ⟨bytes⟩) (index, path) = C.commitmentSetDigest state

theorem checkMembership_eq_ok_iff {state : M.State} {bytes : Bytes32} {index : ℕ} :
    checkMembership C state (C.commitmentSetDigest state) (C.commitmentNew ⟨bytes⟩) = .ok index ↔
      Proves C state bytes index := by
  simp only [checkMembership, Except.bind_eq_ok_iff, Except.expect_eq_ok_iff,
    Except.assert_eq_ok_iff, Except.pure_eq_ok, Except.ok.injEq, Proves]
  constructor
  · rintro ⟨⟨i, path⟩, hproof, _, hdigest, rfl⟩
    exact ⟨path, hproof, hdigest⟩
  · rintro ⟨path, hproof, hdigest⟩
    exact ⟨(index, path), hproof, (), hdigest, rfl⟩

theorem mapM_checkMembership_iff {state : M.State} {chunks : List Bytes32} {indices : List ℕ} :
    (chunks.map fun bytes => C.commitmentNew ⟨bytes⟩).mapM
        (checkMembership C state (C.commitmentSetDigest state)) = .ok indices ↔
      List.Forall₂ (Proves C state) chunks indices := by
  rw [Except.mapM_eq_ok_iff, List.forall₂_map_left_iff]
  simp only [checkMembership_eq_ok_iff]

/-- What a run has checked of a state: proofs with the indices `1..=N` in some order, and no
    proof of the sentinel where it was not inserted. -/
structure TreeChecked (chunks : List Bytes32) (state : M.State) : Prop where
  proves : ∃ indices, List.Forall₂ (Proves C state) chunks indices ∧
    indices.Perm (List.range' 1 chunks.length)
  absent : BitVec.allOnes 256 ∉ chunks →
    C.getProofForCommitment state (C.commitmentNew ⟨BitVec.allOnes 256⟩) = none

/-- What a run has checked, if there is a chunk at all. -/
theorem fuzzMerkleTree_returns_iff (data : List (BitVec 8)) :
    (fuzzMerkleTree C data).Returns ↔
      (distinctChunks data ≠ [] → TreeChecked C (distinctChunks data) (chunkState C data)) := by
  unfold fuzzMerkleTree
  obtain ⟨hseen, hpairs⟩ := foldl_pushChunk C (chunksExact 32 data) ([], [])
  cases hfold : (chunksExact 32 data).foldl (pushChunk C) ([], []) with
  | mk seen pairs =>
    rw [hfold] at hseen hpairs
    have hmem : ∀ bytes, bytes ∈ seen ↔ bytes ∈ distinctChunks data := fun bytes => by
      rw [hseen, distinctChunks, List.mem_uniq]
      simp
    obtain rfl : pairs = (distinctChunks data).map (chunkPair C) := hpairs
    have hcommitments : ((distinctChunks data).map (chunkPair C)).map Prod.fst =
        (distinctChunks data).map fun bytes => C.commitmentNew ⟨bytes⟩ := List.map_map
    dsimp only
    by_cases hnil : distinctChunks data = []
    · rw [hnil]
      exact ⟨fun _ hne => absurd rfl hne, fun _ => ⟨(), rfl⟩⟩
    · rw [if_neg (by simpa using hnil), hcommitments]
      have hsentinel : (if BitVec.allOnes 256 ∉ seen then
            Except.assert (C.getProofForCommitment (chunkState C data)
              (C.commitmentNew ⟨BitVec.allOnes 256⟩)).isNone (Panic.violation "NonMembershipNone"
              "get_proof_for_commitment returned Some for a commitment never inserted")
          else .ok ()).Returns ↔ (BitVec.allOnes 256 ∉ distinctChunks data →
            C.getProofForCommitment (chunkState C data) (C.commitmentNew ⟨BitVec.allOnes 256⟩) =
              none) := by
        rw [← hmem]
        split
        · rename_i hnot
          rw [Except.returns_assert_iff, Option.isNone_iff_eq_none]
          exact ⟨fun h _ => h, fun h => h hnot⟩
        · rename_i hin
          exact ⟨fun _ hnot => absurd hnot hin, fun _ => ⟨(), rfl⟩⟩
      rw [Except.returns_bind_iff]
      constructor
      · rintro ⟨indices, hproofs, hrest⟩ _
        obtain ⟨_, hsequential, hrest⟩ := Except.returns_bind_iff.mp hrest
        have hall := (mapM_checkMembership_iff C).mp hproofs
        have hperm := assertIndicesSequential_iff.mp hsequential
        rw [← hall.length_eq] at hperm
        exact ⟨⟨indices, hall, hperm⟩, hsentinel.mp hrest⟩
      · intro hchecked
        obtain ⟨⟨indices, hall, hperm⟩, habsent⟩ := hchecked hnil
        rw [hall.length_eq] at hperm
        exact ⟨indices, (mapM_checkMembership_iff C).mpr hall, Except.returns_bind_iff.mpr
          ⟨(), assertIndicesSequential_iff.mpr hperm, hsentinel.mpr habsent⟩⟩

/-! ## What passing says about the tree -/

/-- A tree behind the set: the digest of a state is the root over some leaves, a commitment
    is hashed to a leaf, and a path is climbed from it. -/
structure Rooted (leaf : G.Commitment → CommitmentSetDigest)
    (node : CommitmentSetDigest → CommitmentSetDigest → CommitmentSetDigest) (state : M.State)
    (depth : ℕ) (leaves : ℕ → CommitmentSetDigest) : Prop where
  digest : C.commitmentSetDigest state = Merkle.root node depth leaves
  length : ∀ commitment index path,
    C.getProofForCommitment state commitment = some (index, path) → path.length = depth
  compute : ∀ commitment index path,
    C.computeDigestForPath commitment (index, path) =
      Merkle.recompute node (leaf commitment) index path

/-- A path of the state on which two different pairs of nodes have the same hash. -/
def CollisionOnPath (leaf : G.Commitment → CommitmentSetDigest)
    (node : CommitmentSetDigest → CommitmentSetDigest → CommitmentSetDigest) (state : M.State)
    (leaves : ℕ → CommitmentSetDigest) (bytes : Bytes32) (index : ℕ) : Prop :=
  ∃ path left right,
    C.getProofForCommitment state (C.commitmentNew ⟨bytes⟩) = some (index, path) ∧
    Merkle.findCollision node leaves (leaf (C.commitmentNew ⟨bytes⟩)) index path =
      some (left, right) ∧
    left ≠ right ∧ node.uncurry left = node.uncurry right

end Target

/-- A run that passes has read the tree: whatever leaves the digest is the root of, the
    inserted commitments can be numbered from 1 to `N`, in some order, such that each is the
    leaf at its number modulo the number of leaves, or else two different pairs of nodes with
    the same hash are found on its path. A path says no more of an index than its bits up to
    the depth of the tree; where the tree has room for the dummy and the `N` commitments, each
    is the leaf at its number itself. -/
theorem fuzzMerkleTree_sound {M : Machine} {G : GenesisCrates M} (C : CommitmentCrates G)
    (data : List (BitVec 8)) (leaf : G.Commitment → CommitmentSetDigest)
    (node : CommitmentSetDigest → CommitmentSetDigest → CommitmentSetDigest) (depth : ℕ)
    (leaves : ℕ → CommitmentSetDigest)
    (hrooted : Rooted C leaf node (chunkState C data) depth leaves)
    (hret : (fuzzMerkleTree C data).Returns) :
    ∃ indices, indices.Perm (List.range' 1 (distinctChunks data).length) ∧
      List.Forall₂ (fun bytes index =>
        leaves (index % 2 ^ depth) = leaf (C.commitmentNew ⟨bytes⟩) ∨
          CollisionOnPath C leaf node (chunkState C data) leaves bytes index)
        (distinctChunks data) indices ∧
      ((distinctChunks data).length < 2 ^ depth → List.Forall₂ (fun bytes index =>
        leaves index = leaf (C.commitmentNew ⟨bytes⟩) ∨
          CollisionOnPath C leaf node (chunkState C data) leaves bytes index)
        (distinctChunks data) indices) := by
  by_cases hnil : distinctChunks data = []
  · rw [hnil]
    exact ⟨[], List.Perm.nil, List.Forall₂.nil, fun _ => List.Forall₂.nil⟩
  · obtain ⟨⟨indices, hall, hperm⟩, _⟩ := (fuzzMerkleTree_returns_iff C data).mp hret hnil
    have hread : List.Forall₂ (fun bytes index =>
        leaves (index % 2 ^ depth) = leaf (C.commitmentNew ⟨bytes⟩) ∨
          CollisionOnPath C leaf node (chunkState C data) leaves bytes index)
        (distinctChunks data) indices := by
      refine hall.imp fun bytes index hproves => ?_
      obtain ⟨path, hproof, hdigest⟩ := hproves
      rw [hrooted.compute, hrooted.digest] at hdigest
      cases hfound : Merkle.findCollision node leaves (leaf (C.commitmentNew ⟨bytes⟩)) index
          path with
      | none =>
        exact .inl (Merkle.leaf_eq_of_findCollision_eq_none node (hrooted.length _ _ _ hproof)
          hdigest hfound)
      | some found =>
        obtain ⟨left, right⟩ := found
        obtain ⟨hne, hsame⟩ := Merkle.findCollision_sound node hfound
        exact .inr ⟨path, left, right, hproof, hfound, hne, hsame⟩
    refine ⟨indices, hperm, hread, fun hroom => ?_⟩
    -- the numbers go up to `N`, so reducing them changes nothing
    have hsmall : ∀ index ∈ indices, index % 2 ^ depth = index := by
      intro index hindex
      have hle := List.mem_range'_1.mp (hperm.mem_iff.mp hindex)
      exact Nat.mod_eq_of_lt (by omega)
    refine List.forall₂_iff_get.mpr ⟨hread.length_eq, fun k hk hk' => ?_⟩
    have hat := hread.get hk hk'
    rwa [hsmall _ (List.get_mem _ _)] at hat

/-! ## A set that commits in order -/

section Reference

variable {Commitment : Type} (leaf : Commitment → CommitmentSetDigest)
  (node : CommitmentSetDigest → CommitmentSetDigest → CommitmentSetDigest)
  (pad : CommitmentSetDigest)

/-- The leaves of the commitments in turn, and padding behind them. -/
def referenceLeaves (commitments : List Commitment) : ℕ → CommitmentSetDigest := fun i =>
  (commitments[i]?.map leaf).getD pad

/-- The root of the smallest tree that holds the commitments. -/
def referenceDigest (commitments : List Commitment) : CommitmentSetDigest :=
  Merkle.root node (Nat.clog 2 commitments.length) (referenceLeaves leaf pad commitments)

/-- The index of a commitment, and its path in that tree. -/
def referenceProof [DecidableEq Commitment] (commitments : List Commitment)
    (commitment : Commitment) : Option MembershipProof :=
  (commitments.idxOf? commitment).map fun index =>
    (index, Merkle.path node (Nat.clog 2 commitments.length)
      (referenceLeaves leaf pad commitments) index)

/-- The path of the `k`th commitment leads from its leaf to the digest. -/
theorem recompute_referenceLeaves {commitments : List Commitment} {k : ℕ}
    (hk : k < commitments.length) :
    Merkle.recompute node (leaf commitments[k]) k (Merkle.path node
      (Nat.clog 2 commitments.length) (referenceLeaves leaf pad commitments) k) =
        referenceDigest leaf node pad commitments := by
  have hleaf : referenceLeaves leaf pad commitments k = leaf commitments[k] := by
    rw [referenceLeaves, List.getElem?_eq_getElem hk]
    rfl
  rw [← hleaf]
  exact Merkle.recompute_path node _ (hk.trans_le (Nat.le_pow_clog (by decide) _))

/-- Without repetitions, the index of the `k`th commitment is `k`. -/
theorem referenceProof_getElem [DecidableEq Commitment] {commitments : List Commitment}
    (hnodup : commitments.Nodup) {k : ℕ} (hk : k < commitments.length) :
    referenceProof leaf node pad commitments commitments[k] =
      some (k, Merkle.path node (Nat.clog 2 commitments.length)
        (referenceLeaves leaf pad commitments) k) := by
  rw [referenceProof, List.idxOf?_eq_some_iff.mpr]
  · rfl
  · refine ⟨hk, rfl, fun j hj heq => ?_⟩
    have hsame := hnodup.getElem_inj_iff.mp heq
    omega

/-- What is not a commitment has no proof. -/
theorem referenceProof_of_notMem [DecidableEq Commitment] {commitments : List Commitment}
    {commitment : Commitment} (h : commitment ∉ commitments) :
    referenceProof leaf node pad commitments commitment = none := by
  rw [referenceProof, List.idxOf?_eq_none_iff.mpr h]
  rfl

end Reference

/-- A genesis state holds the dummy commitment and then the given ones, in order, as the leaves
    of the smallest tree with room for them. Nothing is said of repeated commitments. -/
structure CommitsInOrder {M : Machine} {G : GenesisCrates M} [DecidableEq G.Commitment]
    (C : CommitmentCrates G) (leaf : G.Commitment → CommitmentSetDigest)
    (node : CommitmentSetDigest → CommitmentSetDigest → CommitmentSetDigest)
    (pad : CommitmentSetDigest) (dummy : G.Commitment) : Prop where
  digest : ∀ pairs, (dummy :: pairs.map Prod.fst).Nodup →
    C.commitmentSetDigest (genesisState G [] pairs) =
      referenceDigest leaf node pad (dummy :: pairs.map Prod.fst)
  proof : ∀ pairs, (dummy :: pairs.map Prod.fst).Nodup →
    C.getProofForCommitment (genesisState G [] pairs) =
      referenceProof leaf node pad (dummy :: pairs.map Prod.fst)
  compute : ∀ commitment index path, C.computeDigestForPath commitment (index, path) =
    Merkle.recompute node (leaf commitment) index path

/-- The ids whose commitments the target asks for: the chunks and the sentinel. -/
def testedIds (data : List (BitVec 8)) : List Bytes32 := BitVec.allOnes 256 :: distinctChunks data

/-- Two of these ids have the same commitment, or one of them has the dummy's. -/
def CommitmentsCollide {M : Machine} {G : GenesisCrates M} (C : CommitmentCrates G)
    (dummy : G.Commitment) (data : List (BitVec 8)) : Prop :=
  ∃ bytes ∈ testedIds data, C.commitmentNew ⟨bytes⟩ = dummy ∨
    ∃ other ∈ testedIds data, other ≠ bytes ∧ C.commitmentNew ⟨other⟩ = C.commitmentNew ⟨bytes⟩

section Collide

variable {M : Machine} {G : GenesisCrates M} {C : CommitmentCrates G} {dummy : G.Commitment}
  {data : List (BitVec 8)}

/-- Tested ids are told apart by their commitments. -/
private theorem commitmentNew_inj (h : ¬ CommitmentsCollide C dummy data) {bytes other : Bytes32}
    (hmem : bytes ∈ testedIds data) (hother : other ∈ testedIds data)
    (heq : C.commitmentNew ⟨bytes⟩ = C.commitmentNew ⟨other⟩) : bytes = other :=
  by_contra fun hne => h ⟨other, hother, .inr ⟨bytes, hmem, hne, heq⟩⟩

/-- No tested id has the dummy's commitment. -/
private theorem commitmentNew_ne_dummy (h : ¬ CommitmentsCollide C dummy data) {bytes : Bytes32}
    (hmem : bytes ∈ testedIds data) : C.commitmentNew ⟨bytes⟩ ≠ dummy :=
  fun heq => h ⟨bytes, hmem, .inl heq⟩

/-- The dummy and the commitments of the distinct chunks are distinct. -/
private theorem commitments_nodup (h : ¬ CommitmentsCollide C dummy data) :
    (dummy :: (distinctChunks data).map fun bytes => C.commitmentNew ⟨bytes⟩).Nodup := by
  refine List.nodup_cons.mpr ⟨fun hmem => ?_, (List.nodup_uniq _ _).map_on
    fun bytes hbytes other hother => commitmentNew_inj h (List.mem_cons_of_mem _ hbytes)
      (List.mem_cons_of_mem _ hother)⟩
  obtain ⟨bytes, hbytes, heq⟩ := List.mem_map.mp hmem
  exact commitmentNew_ne_dummy h (List.mem_cons_of_mem _ hbytes) heq

/-- A sentinel that is none of the chunks has none of their commitments. -/
private theorem sentinel_notMem (h : ¬ CommitmentsCollide C dummy data)
    (hnot : BitVec.allOnes 256 ∉ distinctChunks data) :
    C.commitmentNew ⟨BitVec.allOnes 256⟩ ∉
      dummy :: (distinctChunks data).map fun bytes => C.commitmentNew ⟨bytes⟩ := by
  rw [List.mem_cons, not_or, List.mem_map]
  refine ⟨commitmentNew_ne_dummy h List.mem_cons_self, ?_⟩
  rintro ⟨bytes, hmem, heq⟩
  exact hnot (commitmentNew_inj h (List.mem_cons_of_mem _ hmem) List.mem_cons_self heq ▸ hmem)

end Collide

/-- On a set that commits in order the target returns, whatever the input: few commitments
    or many, and whether or not the sentinel is one of them. Otherwise the input itself shows
    that commitments collide. -/
theorem fuzzMerkleTree_no_false_alarm {M : Machine} {G : GenesisCrates M}
    [DecidableEq G.Commitment] (C : CommitmentCrates G)
    (leaf : G.Commitment → CommitmentSetDigest)
    (node : CommitmentSetDigest → CommitmentSetDigest → CommitmentSetDigest)
    (pad : CommitmentSetDigest) (dummy : G.Commitment)
    (h : CommitsInOrder C leaf node pad dummy) (data : List (BitVec 8)) :
    (fuzzMerkleTree C data).Returns ∨ CommitmentsCollide C dummy data := by
  refine or_iff_not_imp_right.mpr fun hcollide => ?_
  refine (fuzzMerkleTree_returns_iff C data).mpr fun _ => ?_
  have hcommitments : (((distinctChunks data).map (chunkPair C)).map Prod.fst) =
      (distinctChunks data).map fun bytes => C.commitmentNew ⟨bytes⟩ := List.map_map
  have hnodup := commitments_nodup hcollide
  have hproof := h.proof ((distinctChunks data).map (chunkPair C)) (hcommitments ▸ hnodup)
  have hdigest := h.digest ((distinctChunks data).map (chunkPair C)) (hcommitments ▸ hnodup)
  rw [hcommitments] at hproof hdigest
  constructor
  · refine ⟨List.range' 1 (distinctChunks data).length, ?_, List.Perm.refl _⟩
    refine List.forall₂_iff_get.mpr ⟨by simp, fun k hk hrange => ?_⟩
    have hindex : (List.range' 1 (distinctChunks data).length).get ⟨k, hrange⟩ = k + 1 := by
      rw [List.get_eq_getElem, List.getElem_range', Nat.one_mul, Nat.add_comm]
    rw [hindex]
    -- the dummy is in front, so the `k`th chunk is at `k + 1`
    have hlt : k + 1 < (dummy :: (distinctChunks data).map
        fun bytes => C.commitmentNew ⟨bytes⟩).length := by simpa using hk
    have hget : (dummy :: (distinctChunks data).map fun bytes => C.commitmentNew ⟨bytes⟩)[k + 1] =
        C.commitmentNew ⟨(distinctChunks data).get ⟨k, hk⟩⟩ := by simp
    have hpath := recompute_referenceLeaves leaf node pad hlt
    have hfound := referenceProof_getElem leaf node pad hnodup hlt
    rw [hget] at hpath hfound
    exact ⟨_, (congrFun hproof _).trans hfound, (h.compute _ _ _).trans (hpath.trans hdigest.symm)⟩
  · intro hnot
    rw [chunkState, hproof]
    exact referenceProof_of_notMem leaf node pad (sentinel_notMem hcollide hnot)

/-! ## A tree that runs -/

section Plain

/-- Accounts next to the commitments that genesis was given. -/
@[reducible] def committingMachine : Machine := { plainMachine with
  State := ReferenceState × List (AccountId × U128)
  getAccountById := fun state id => state.1 id
  executeCheckOnState := fun _ state _ _ => (.error (), state) }

/-- The genesis of `plainGenesis`, which keeps the commitments. -/
@[reducible] def committingGenesis : GenesisCrates committingMachine := { plainGenesis with
  Commitment := AccountId × U128
  Nullifier := Unit
  new := (plainGenesis.new, [])
  withPublicAccounts := fun state accounts =>
    (plainGenesis.withPublicAccounts state.1 accounts, state.2)
  withPrivateAccounts := fun state accounts => (state.1, accounts.map Prod.fst)
  withNamedPrograms := fun state _ => state }

/-- A toy hash, and the id of a commitment as its leaf; the dummy has another nonce. -/
def committingNode (left right : CommitmentSetDigest) : CommitmentSetDigest := left + 3 * right

def committingLeaf (commitment : AccountId × U128) : CommitmentSetDigest := commitment.1.value

def committingDummy : AccountId × U128 := (⟨0⟩, 1)

def committingCrates : CommitmentCrates committingGenesis where
  commitmentNew id := (id, 0)
  nullifierFromByteArray _ := ()
  commitmentSetDigest state :=
    referenceDigest committingLeaf committingNode 0 (committingDummy :: state.2)
  getProofForCommitment state :=
    referenceProof committingLeaf committingNode 0 (committingDummy :: state.2)
  computeDigestForPath commitment proof :=
    Merkle.recompute committingNode (committingLeaf commitment) proof.1 proof.2

theorem committingCrates_commitsInOrder :
    CommitsInOrder committingCrates committingLeaf committingNode 0 committingDummy where
  digest _ _ := rfl
  proof _ _ := rfl
  compute _ _ _ := rfl

/-- Two different chunks, the first of them twice, and some bytes that are too few for one. -/
def twoChunks : List (BitVec 8) :=
  List.replicate 32 7 ++ List.replicate 32 9 ++ List.replicate 32 7 ++ List.replicate 5 1

theorem fuzzMerkleTree_no_false_alarm_chunks :
    (fuzzMerkleTree committingCrates twoChunks).Returns := by
  refine (fuzzMerkleTree_no_false_alarm committingCrates committingLeaf committingNode 0
    committingDummy committingCrates_commitsInOrder twoChunks).resolve_right ?_
  rintro ⟨bytes, _, hdummy | ⟨other, _, hne, heq⟩⟩
  · exact nomatch (Prod.mk.inj hdummy).2
  · exact hne (AccountId.mk.inj (Prod.mk.inj heq).1)

/-- The run over two chunks has read the leaves 1 and 2. -/
theorem fuzzMerkleTree_sound_chunks :
    ∃ indices : List ℕ, indices.Perm [1, 2] ∧ List.Forall₂ (fun bytes index =>
      referenceLeaves committingLeaf 0 (committingDummy :: (chunkState committingCrates
          twoChunks).2) index = bytes ∨
        CollisionOnPath committingCrates committingLeaf committingNode
          (chunkState committingCrates twoChunks) (referenceLeaves committingLeaf 0
            (committingDummy :: (chunkState committingCrates twoChunks).2)) bytes index)
      (distinctChunks twoChunks) indices := by
  have hrooted : Rooted committingCrates committingLeaf committingNode
      (chunkState committingCrates twoChunks) 2 (referenceLeaves committingLeaf 0
        (committingDummy :: (chunkState committingCrates twoChunks).2)) := by
    refine ⟨rfl, fun commitment index path hproof => ?_, fun _ _ _ => rfl⟩
    obtain ⟨_, _, heq⟩ := Option.map_eq_some_iff.mp hproof
    obtain ⟨_, rfl⟩ := Prod.mk.inj heq
    exact Merkle.length_path _ _ _ _
  have hproves : List.Forall₂ (Proves committingCrates (chunkState committingCrates twoChunks))
      (distinctChunks twoChunks) [1, 2] :=
    .cons ⟨_, rfl, rfl⟩ (.cons ⟨_, rfl, rfl⟩ .nil)
  have hreturns : (fuzzMerkleTree committingCrates twoChunks).Returns :=
    (fuzzMerkleTree_returns_iff committingCrates twoChunks).mpr fun _ =>
      ⟨⟨[1, 2], hproves, .refl _⟩, fun _ => rfl⟩
  obtain ⟨indices, hperm, _, hread⟩ := fuzzMerkleTree_sound committingCrates twoChunks
    committingLeaf committingNode 2 _ hrooted hreturns
  exact ⟨indices, hperm, hread (by decide)⟩

end Plain

end LezFuzzing.Spec
