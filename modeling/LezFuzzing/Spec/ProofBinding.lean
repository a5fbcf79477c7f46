import LezFuzzing.Spec.OrderingCorrect

/-!
# What a synthesised proof binds

`synthesizePassingProof` encodes a circuit output, claims it in a receipt and encodes the
receipt. As long as none of the three steps maps two inputs to one output, two proofs are
equal exactly when the two circuit outputs are. This file says so in terms of the message,
the state and the signers: what the output keeps of them, and so what a proof is bound to
and what it is indifferent to.

## Key results

- `synthesizePassingProof_eq_iff`: equal proofs have equal circuit outputs
- `synthesizePassingProof_binds`: the exact binding, and what leaves a proof unchanged
-/

namespace LezFuzzing.Spec

open LezFuzzing.Native

section Binding

variable {M : Machine} {P : PrivacyCrates M}

/-- What a proof sees of a message's public actions: the owner of each, its effects, and
    whether the owner signed. -/
def authorizedActions (message : PPMessage P.toPrivacyTypes) (signerIds : List AccountId) :
    List (AccountId × List DeferredPublicEffect × Bool) :=
  message.publicActions.map fun action =>
    (action.accountId, action.effects, decide (action.accountId ∈ signerIds))

/-- A claim as the state has it: a disclosed claim names the stored image, where one is. -/
def storedClaim (state : M.State) :
    ProgramImageClaim P.toPrivacyTypes → ProgramImageClaim P.toPrivacyTypes
  | .Disclosed accountId imageId =>
    match P.getProgramImageId state accountId with
    | some stored => .Disclosed accountId stored
    | none => .Disclosed accountId imageId
  | .Undisclosed claim => .Undisclosed claim

/-- Re-anchoring a claim is reading it from the state. -/
theorem reanchor_eq_storedClaim (state : M.State) :
    reanchor P state = storedClaim (P := P) state := by
  funext claim
  cases claim with
  | Undisclosed claim => rfl
  | Disclosed accountId imageId =>
    simp only [reanchor, storedClaim]
    cases P.getProgramImageId state accountId with
    | none => rfl
    | some stored => rfl

/-- The circuit sees of each public action what `authorizedActions` lists. -/
theorem map_publicActionOf_eq_iff {message message' : PPMessage P.toPrivacyTypes}
    {ids ids' : List AccountId} :
    message.publicActions.map (publicActionOf ids) =
        message'.publicActions.map (publicActionOf ids') ↔
      authorizedActions message ids = authorizedActions message' ids' := by
  -- the circuit's action is a record of the listed triple
  let record : AccountId × List DeferredPublicEffect × Bool → PublicAction := fun x =>
    ⟨x.1, x.2.2, x.2.1⟩
  have hinj : Function.Injective record := by
    intro x y h
    have hid := congrArg PublicAction.accountId h
    have hauth := congrArg PublicAction.isAuthorized h
    have heffects := congrArg PublicAction.effects h
    exact Prod.ext hid (Prod.ext heffects hauth)
  have hrecord : ∀ (m : PPMessage P.toPrivacyTypes) (ids : List AccountId),
      m.publicActions.map (publicActionOf ids) = (authorizedActions m ids).map record := by
    intro m ids
    rw [authorizedActions, List.map_map]
    refine List.map_congr_left fun action _ => ?_
    simp [record, publicActionOf]
  rw [hrecord, hrecord]
  exact (List.map_injective_iff.mpr hinj).eq_iff

/-- The circuit output of a message, a state and a list of signers. -/
def circuitOutput (message : PPMessage P.toPrivacyTypes) (state : M.State)
    (signerIds : List AccountId) : PrivacyPreservingCircuitOutput P.toPrivacyTypes where
  publicActions := message.publicActions.map (publicActionOf signerIds)
  privateActions := message.privateActions
  blockValidityWindow := message.blockValidityWindow
  timestampValidityWindow := message.timestampValidityWindow
  programImageClaims := message.programImageClaims.map (reanchor P state)

/-- No encoding step identifies two inputs. -/
structure Encodings (P : PrivacyCrates M) : Prop where
  toBytes : Function.Injective P.toBytes
  receiptClaimOk : Function.Injective (P.receiptClaimOk P.circuitId)
  borshToVec : Function.Injective P.borshToVec

variable {message message' : PPMessage P.toPrivacyTypes} {state state' : M.State}
  {ids ids' : List AccountId}

/-- Equal outputs have equal proofs. -/
theorem synthesizePassingProof_congr
    (h : circuitOutput message state ids = circuitOutput message' state' ids') :
    synthesizePassingProof P message state ids =
      synthesizePassingProof P message' state' ids' := by
  show Proof.fromInner (P.borshToVec (.Fake ⟨P.receiptClaimOk P.circuitId
    (P.toBytes (circuitOutput message state ids))⟩)) = _
  rw [h]
  rfl

/-- Where the encodings are injective, equal proofs have equal outputs. -/
theorem synthesizePassingProof_eq_iff (henc : Encodings P) :
    synthesizePassingProof P message state ids =
        synthesizePassingProof P message' state' ids' ↔
      circuitOutput message state ids = circuitOutput message' state' ids' := by
  constructor
  · intro h
    -- undo the three encodings, the last one first
    have hreceipt := henc.borshToVec (Proof.fromInner.inj h)
    have hclaim := FakeReceipt.mk.inj (InnerReceipt.Fake.inj hreceipt)
    exact henc.toBytes (henc.receiptClaimOk hclaim)
  · exact synthesizePassingProof_congr

/-- Two outputs are equal field by field. -/
theorem circuitOutput_eq_iff :
    circuitOutput message state ids = circuitOutput message' state' ids' ↔
      authorizedActions message ids = authorizedActions message' ids' ∧
      message.privateActions = message'.privateActions ∧
      message.blockValidityWindow = message'.blockValidityWindow ∧
      message.timestampValidityWindow = message'.timestampValidityWindow ∧
      message.programImageClaims.map (storedClaim state) =
        message'.programImageClaims.map (storedClaim state') := by
  rw [circuitOutput, circuitOutput, PrivacyPreservingCircuitOutput.mk.injEq,
    map_publicActionOf_eq_iff, reanchor_eq_storedClaim, reanchor_eq_storedClaim]

/-- Signers matter as far as they own public actions. -/
theorem authorizedActions_congr
    (h : ∀ action ∈ message.publicActions, action.accountId ∈ ids ↔ action.accountId ∈ ids') :
    authorizedActions message ids = authorizedActions message ids' := by
  refine List.map_congr_left fun action haction => ?_
  rw [decide_eq_decide.mpr (h action haction)]

/-- The state matters as far as disclosed claims name its programs. -/
theorem map_storedClaim_congr
    (h : ∀ accountId imageId, .Disclosed accountId imageId ∈ message.programImageClaims →
      P.getProgramImageId state accountId = P.getProgramImageId state' accountId) :
    message.programImageClaims.map (storedClaim state) =
      message.programImageClaims.map (storedClaim state') := by
  refine List.map_congr_left fun claim hclaim => ?_
  cases claim with
  | Undisclosed claim => rfl
  | Disclosed accountId imageId => simp only [storedClaim, h accountId imageId hclaim]

end Binding

/-- What a synthesised proof binds, exactly: the public actions with the authorisation of
    their owners, the private actions, the two windows, and the program claims as the state
    has them. It is indifferent to the order and number of the signers and to signers that
    own no public action, to the nonces, and to everything in the state but the images that
    disclosed claims name. Without public actions and disclosed claims it is the same for
    all states and signers. -/
theorem synthesizePassingProof_binds {M : Machine} (P : PrivacyCrates M) (henc : Encodings P)
    (message : PPMessage P.toPrivacyTypes) (state : M.State) (ids : List AccountId) :
    (∀ message' state' ids',
      synthesizePassingProof P message state ids =
          synthesizePassingProof P message' state' ids' ↔
        authorizedActions message ids = authorizedActions message' ids' ∧
        message.privateActions = message'.privateActions ∧
        message.blockValidityWindow = message'.blockValidityWindow ∧
        message.timestampValidityWindow = message'.timestampValidityWindow ∧
        message.programImageClaims.map (storedClaim state) =
          message'.programImageClaims.map (storedClaim state')) ∧
    (∀ ids', (∀ id, id ∈ ids ↔ id ∈ ids') →
      synthesizePassingProof P message state ids = synthesizePassingProof P message state ids') ∧
    (∀ others, (∀ action ∈ message.publicActions, action.accountId ∉ others) →
      synthesizePassingProof P message state ids =
        synthesizePassingProof P message state (ids ++ others)) ∧
    (∀ nonces, synthesizePassingProof P message state ids =
      synthesizePassingProof P { message with nonces } state ids) ∧
    (∀ state', (∀ accountId imageId,
        .Disclosed accountId imageId ∈ message.programImageClaims →
        P.getProgramImageId state accountId = P.getProgramImageId state' accountId) →
      synthesizePassingProof P message state ids = synthesizePassingProof P message state' ids) ∧
    (message.publicActions = [] →
      (∀ accountId imageId, .Disclosed accountId imageId ∉ message.programImageClaims) →
      ∀ state' ids', synthesizePassingProof P message state ids =
        synthesizePassingProof P message state' ids') := by
  refine ⟨fun message' state' ids' => ?_, fun ids' hids => ?_, fun others hothers => ?_,
    fun nonces => rfl, fun state' hstate => ?_, fun hactions hclaims state' ids' => ?_⟩
  · rw [synthesizePassingProof_eq_iff henc, circuitOutput_eq_iff]
  · have hsigners : authorizedActions message ids = authorizedActions message ids' :=
      authorizedActions_congr fun action _ => hids action.accountId
    exact synthesizePassingProof_congr
      (circuitOutput_eq_iff.mpr ⟨hsigners, rfl, rfl, rfl, rfl⟩)
  · have hsigners : authorizedActions message ids = authorizedActions message (ids ++ others) := by
      refine authorizedActions_congr fun action haction => ?_
      rw [List.mem_append, or_iff_left (hothers action haction)]
    exact synthesizePassingProof_congr
      (circuitOutput_eq_iff.mpr ⟨hsigners, rfl, rfl, rfl, rfl⟩)
  · exact synthesizePassingProof_congr
      (circuitOutput_eq_iff.mpr ⟨rfl, rfl, rfl, rfl, map_storedClaim_congr hstate⟩)
  · exact synthesizePassingProof_pure message hactions hclaims state state' ids ids'

/-! ## Encodings that do not collide -/

/-- Plain types in which programs have images. -/
@[reducible] def imageTypes : PrivacyTypes U128 := { plainTypes with ImageId := Bytes32 }

section Codes

def accountIdCode (id : AccountId) : ℕ := id.value.toNat

def bytesCode (bytes : List (BitVec 8)) : List ℕ := bytes.map BitVec.toNat

def accountCode (account : Account U128) : ℕ × ℕ := (account.nonce.toNat, account.data.toNat)

def effectCode (effect : DeferredPublicEffect) : ℕ × ℕ × List ℕ :=
  (accountIdCode effect.programAccountId, accountIdCode effect.shardProgramAccountId,
    bytesCode effect.data)

def publicActionCode (action : PublicAction) : ℕ × Bool × List (ℕ × ℕ × List ℕ) :=
  (accountIdCode action.accountId, action.isAuthorized, action.effects.map effectCode)

def privateActionCode (action : PrivateAction imageTypes) :
    ℕ × ℕ × (ℕ × ℕ × ℕ) × (ℕ × ℕ) × List ℕ × ℕ :=
  (accountIdCode action.nullifier, action.root.toNat,
    (accountIdCode action.commitment.1, accountCode action.commitment.2),
    accountCode action.encryptedPostState.ciphertext, bytesCode action.encryptedPostState.epk,
    action.encryptedPostState.viewTag.toNat)

def claimCode : ProgramImageClaim imageTypes → ℕ × ℕ ⊕ Unit
  | .Disclosed accountId imageId => .inl (accountIdCode accountId, BitVec.toNat imageId)
  | .Undisclosed () => .inr ()

/-- The parts of a circuit output, as numbers. -/
def outputCode (output : PrivacyPreservingCircuitOutput imageTypes) :=
  (output.publicActions.map publicActionCode, output.privateActions.map privateActionCode,
    output.programImageClaims.map claimCode)

theorem accountIdCode_injective : Function.Injective accountIdCode := by
  intro x y h
  obtain ⟨x⟩ := x
  obtain ⟨y⟩ := y
  exact congrArg AccountId.mk (BitVec.toNat_inj.mp h)

theorem bytesCode_injective : Function.Injective bytesCode :=
  List.map_injective_iff.mpr fun _ _ => BitVec.toNat_inj.mp

theorem accountCode_injective : Function.Injective accountCode := by
  intro x y h
  obtain ⟨nonce, data⟩ := x
  obtain ⟨nonce', data'⟩ := y
  simp only [accountCode, Prod.mk.injEq] at h
  rw [BitVec.toNat_inj.mp h.1, BitVec.toNat_inj.mp h.2]

theorem effectCode_injective : Function.Injective effectCode := by
  intro x y h
  obtain ⟨program, shard, data⟩ := x
  obtain ⟨program', shard', data'⟩ := y
  simp only [effectCode, Prod.mk.injEq] at h
  rw [accountIdCode_injective h.1, accountIdCode_injective h.2.1, bytesCode_injective h.2.2]

theorem publicActionCode_injective : Function.Injective publicActionCode := by
  intro x y h
  obtain ⟨id, authorized, effects⟩ := x
  obtain ⟨id', authorized', effects'⟩ := y
  simp only [publicActionCode, Prod.mk.injEq] at h
  rw [accountIdCode_injective h.1, h.2.1,
    List.map_injective_iff.mpr effectCode_injective h.2.2]

theorem privateActionCode_injective : Function.Injective privateActionCode := by
  intro x y h
  obtain ⟨nullifier, root, ⟨id, account⟩, ⟨ciphertext, epk, viewTag⟩⟩ := x
  obtain ⟨nullifier', root', ⟨id', account'⟩, ⟨ciphertext', epk', viewTag'⟩⟩ := y
  simp only [privateActionCode, Prod.mk.injEq] at h
  obtain ⟨hnull, hroot, ⟨hid, haccount⟩, hcipher, hepk, htag⟩ := h
  rw [accountIdCode_injective hnull, BitVec.toNat_inj.mp hroot, accountIdCode_injective hid,
    accountCode_injective haccount, accountCode_injective hcipher, bytesCode_injective hepk,
    BitVec.toNat_inj.mp htag]

theorem claimCode_injective : Function.Injective claimCode := by
  intro x y h
  cases x with
  | Undisclosed x => cases y with
    | Undisclosed y => rfl
    | Disclosed accountId imageId => cases h
  | Disclosed accountId imageId => cases y with
    | Undisclosed y => cases h
    | Disclosed accountId' imageId' =>
      obtain ⟨hid, himage⟩ := Prod.mk.inj (Sum.inl.inj h)
      rw [accountIdCode_injective hid, BitVec.toNat_inj.mp himage]

theorem outputCode_injective : Function.Injective outputCode := by
  intro x y h
  obtain ⟨actions, privates, block, time, claims⟩ := x
  obtain ⟨actions', privates', block', time', claims'⟩ := y
  simp only [outputCode, Prod.mk.injEq] at h
  rw [List.map_injective_iff.mpr publicActionCode_injective h.1,
    List.map_injective_iff.mpr privateActionCode_injective h.2.1,
    List.map_injective_iff.mpr claimCode_injective h.2.2]

end Codes

/-- As many zero bytes as the code number of the parts says. -/
def unaryJournal (output : PrivacyPreservingCircuitOutput imageTypes) : List (BitVec 8) :=
  List.replicate (Encodable.encode (outputCode output)) 0

theorem unaryJournal_injective : Function.Injective unaryJournal := by
  intro x y h
  have hlen := congrArg List.length h
  simp only [unaryJournal, List.length_replicate] at hlen
  exact outputCode_injective (Encodable.encode_injective hlen)

/-- The crates over the reference machine, with one stored image: program 7 has image 9. -/
def imageCrates : PrivacyCrates plainMachine where
  toPrivacyTypes := imageTypes
  toBytes := unaryJournal
  ImageDigest := Unit
  circuitId := ()
  ReceiptClaim := List (BitVec 8)
  receiptClaimOk _ journal := journal
  borshToVec | .Fake receipt => receipt.claim
  getProgramImageId _ id := if id = ⟨7⟩ then some (9 : Bytes32) else none
  commitmentSetDigest _ := 0
  WitnessSet := Unit
  witnessSetForMessage _ _ _ := ()
  newTransaction _ _ := ()

theorem imageCrates_encodings : Encodings imageCrates where
  toBytes := unaryJournal_injective
  receiptClaimOk _ _ h := h
  borshToVec x y h := by
    obtain ⟨⟨claim⟩⟩ := x
    obtain ⟨⟨claim'⟩⟩ := y
    exact congrArg (fun c => InnerReceipt.Fake ⟨c⟩) h

/-- A message that names program 7 with some image and account 1 with no effects. -/
def imageMessage (imageId : Bytes32) : PPMessage imageCrates.toPrivacyTypes where
  publicActions := [⟨⟨1⟩, []⟩]
  nonces := []
  privateActions := []
  blockValidityWindow := ()
  timestampValidityWindow := ()
  programImageClaims := [.Disclosed ⟨7⟩ imageId]

/-- The image the message names does not matter, since the stored one replaces it; whether
    account 1 signed does. -/
theorem synthesizePassingProof_binds_image :
    let state := ReferenceState.genesis [(⟨1⟩, 10)]
    synthesizePassingProof imageCrates (imageMessage 3) state [⟨1⟩] =
        synthesizePassingProof imageCrates (imageMessage 4) state [⟨2⟩, ⟨1⟩] ∧
      synthesizePassingProof imageCrates (imageMessage 3) state [⟨1⟩] ≠
        synthesizePassingProof imageCrates (imageMessage 3) state [⟨2⟩] :=
  have hbinds := (synthesizePassingProof_binds imageCrates imageCrates_encodings (imageMessage 3)
    (ReferenceState.genesis [(⟨1⟩, 10)]) [⟨1⟩]).1
  ⟨(hbinds (imageMessage 4) (ReferenceState.genesis [(⟨1⟩, 10)]) [⟨2⟩, ⟨1⟩]).mpr
      ⟨rfl, rfl, rfl, rfl, rfl⟩,
    fun h => absurd ((hbinds (imageMessage 3) (ReferenceState.genesis [(⟨1⟩, 10)]) [⟨2⟩]).mp h).1
      fun heq => absurd (congrArg (List.map fun x => x.2.2) heq) (by decide)⟩

end LezFuzzing.Spec
