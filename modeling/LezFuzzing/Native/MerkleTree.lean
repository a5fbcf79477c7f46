import LezFuzzing.Native.Genesis
import LezFuzzing.Native.Privacy

/-!
# The commitment tree (`fuzz_merkle_tree.rs`)

Each 32-byte chunk of the input becomes a commitment of a genesis state, and the target asks
the commitment set for their membership proofs. It sees the tree behind the set through its
digest and these proofs only.
-/

namespace LezFuzzing.Native

/-- `data.chunks_exact(n)` -/
def chunksExact {α : Type} (n : ℕ) (data : List α) : List (List α) :=
  (List.range (data.length / n)).map fun k => (data.drop (k * n)).take n

/-- A chunk as one number, with its first byte in front. -/
def chunkBytes (chunk : List (BitVec 8)) : Bytes32 :=
  .ofNat 256 (chunk.foldl (fun value byte => value * 256 + byte.toNat) 0)

/-- A membership proof: an index and an authentication path. -/
abbrev MembershipProof := ℕ × List CommitmentSetDigest

/-- What the target uses of `nssa` and `nssa_core`. -/
structure CommitmentCrates {M : Machine} (G : GenesisCrates M) where
  /-- `Commitment::new(&id, &Account::default())` -/
  commitmentNew : AccountId → G.Commitment
  nullifierFromByteArray : Bytes32 → G.Nullifier
  commitmentSetDigest : M.State → CommitmentSetDigest
  getProofForCommitment : M.State → G.Commitment → Option MembershipProof
  computeDigestForPath : G.Commitment → MembershipProof → CommitmentSetDigest

section MerkleTree

variable {M : Machine} {G : GenesisCrates M} (C : CommitmentCrates G)

/-- A chunk that was seen before is skipped; another one gives a commitment. -/
def pushChunk (acc : List Bytes32 × List (G.Commitment × G.Nullifier)) (chunk : List (BitVec 8)) :
    List Bytes32 × List (G.Commitment × G.Nullifier) :=
  let bytes := chunkBytes chunk
  if bytes ∈ acc.1 then
    acc
  else
    (bytes :: acc.1, acc.2 ++ [(C.commitmentNew ⟨bytes⟩, C.nullifierFromByteArray bytes)])

/-- The index of an inserted commitment, whose proof leads to the digest. -/
def checkMembership (state : M.State) (digest : CommitmentSetDigest) (commitment : G.Commitment) :
    Except Panic ℕ := do
  let proof ← Except.expect (C.getProofForCommitment state commitment)
    (.violation "ProofSome" "get_proof_for_commitment returned None for an inserted commitment")
  Except.assert (C.computeDigestForPath commitment proof = digest) (.violation "ProofValid"
    (s!"membership proof for a commitment at index {proof.1} does not recompute to " ++
      "commitment_set_digest()"))
  return proof.1

/-- The dummy commitment is at index 0, and the inserted ones follow. -/
def assertIndicesSequential (indices : List ℕ) : Except Panic Unit :=
  (indices.mergeSort (· ≤ ·)).zipIdx.forM fun (idx, k) =>
    Except.assert (idx = k + 1) (.violation "IndicesSequential"
      ("inserted commitments must occupy sequential indices 1..=N (dummy at 0); " ++
        s!"got index {idx} at sorted position {k}"))

/-- `fuzz_merkle_tree` -/
def fuzzMerkleTree (data : List (BitVec 8)) : Except Panic Unit :=
  let (seen, pairs) := (chunksExact 32 data).foldl (pushChunk C) ([], [])
  if pairs.isEmpty then
    return ()
  else do
    let commitments := pairs.map Prod.fst
    let state := genesisState G [] pairs
    let digest := C.commitmentSetDigest state
    let indices ← commitments.mapM (checkMembership C state digest)
    assertIndicesSequential indices
    -- an id of all ones, unless it was inserted
    let sentinelBytes : Bytes32 := BitVec.allOnes 256
    if sentinelBytes ∉ seen then
      Except.assert (C.getProofForCommitment state (C.commitmentNew ⟨sentinelBytes⟩)).isNone
        (.violation "NonMembershipNone"
          "get_proof_for_commitment returned Some for a commitment never inserted")
    else
      return ()

end MerkleTree

end LezFuzzing.Native
