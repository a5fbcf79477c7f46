import LezFuzzing.Native.Generators

/-!
# The lockstep target (`fuzz/fuzz_targets/fuzz_stateful_model_lockstep.rs`)

A schedule of commands drives the state machine and a reference model of balances and
nonces side by side; after every command both must agree. Machine arithmetic panics on
overflow here, as it does in a fuzzing build.
-/

namespace LezFuzzing.Native

/-- How the declared nonce of a transfer is chosen. -/
inductive NonceKind where
  | Correct
  | Off (delta : BitVec 8)
  | Raw (nonce : U128)
  deriving DecidableEq

/-- How the amount is chosen, relative to the sender's modelled balance. -/
inductive AmountKind where
  | Zero
  | WithinBalance (raw : U128)
  | All
  | Excessive (raw : U128)
  | Raw (amount : U128)
  deriving DecidableEq

/-- One step of the schedule. -/
inductive Command where
  | Transfer (src dst : BitVec 8) (nonce : NonceKind) (amount : AmountKind)
  | AdvanceBlock (jump : BitVec 8)
  | ReplayLast
  deriving DecidableEq

/-- A transfer as the model and the state machine see it. -/
structure TransferFields where
  fromId : AccountId
  toId : AccountId
  declaredNonce : U128
  amount : U128
  deriving DecidableEq

/-! ## The reference model -/

/-- `account_id -> (balance, nonce)`, for the fuzz accounts only. -/
structure Model where
  accounts : HashMap AccountId (U128 × U128)

/-- The model's prediction for a transfer. -/
inductive Predict where
  | Reject
  | Accept (amount : U128)
  deriving DecidableEq

def Predict.isAccept : Predict → Bool
  | .Accept _ => true
  | .Reject => false

def Model.new (accounts : List (AccountId × U128)) : Model :=
  ⟨AList.ofPairs (accounts.map fun (id, bal) => (id, (bal, 0)))⟩

def Model.balance (self : Model) (id : AccountId) : U128 :=
  ((self.accounts.lookup id).map fun (b, _) => b).getD 0

def Model.nonce (self : Model) (id : AccountId) : U128 :=
  ((self.accounts.lookup id).map fun (_, n) => n).getD 0

/-- Predict a transfer between two distinct accounts. -/
def Model.predict (self : Model) (fromId toId : AccountId) (declaredNonce amount : U128) :
    Predict :=
  if declaredNonce ≠ self.nonce fromId then
    .Reject -- nonce mismatch
  else if amount > self.balance fromId then
    .Reject -- insufficient balance
  else if (self.balance toId).checkedAdd amount = none then
    .Reject -- recipient overflow
  else
    .Accept amount

/-- Commit an accepted transfer. Both entries are read before either is written. -/
def Model.applyTransfer (self : Model) (fromId toId : AccountId) (amount : U128) :
    Except Panic Model := do
  let (fromBal, fromNonce) ← Except.expect (self.accounts.lookup fromId)
    ⟨"no entry found for key"⟩
  let (toBal, toNonce) ← Except.expect (self.accounts.lookup toId) ⟨"no entry found for key"⟩
  let debited ← Except.expect (fromBal.checkedSub amount) ⟨"attempt to subtract with overflow"⟩
  let nextNonce ← Except.expect (fromNonce.checkedAdd 1) ⟨"attempt to add with overflow"⟩
  let accounts := self.accounts.insert fromId (debited, nextNonce)
  let credited ← Except.expect (toBal.checkedAdd amount) ⟨"attempt to add with overflow"⟩
  return ⟨accounts.insert toId (credited, toNonce)⟩

/-- The model's half of a transfer: predict, and apply exactly on `Accept`. -/
def Model.submit (self : Model) (t : TransferFields) : Except Panic Model :=
  match self.predict t.fromId t.toId t.declaredNonce t.amount with
  | .Accept amount => self.applyTransfer t.fromId t.toId amount
  | .Reject => return self

/-! ## Resolving a command -/

/-- Map a raw index to one of the `len - 1` accounts other than the sender. -/
def resolveRecipient (raw : BitVec 8) (fromIdx len : ℕ) : ℕ :=
  let offset := 1 + raw.toNat % (len - 1)
  (fromIdx + offset) % len

/-- The same on a `usize` of `w` bits, with the panics that its arithmetic can end in. -/
def resolveRecipientUsize {w : ℕ} (raw : BitVec 8) (fromIdx len : BitVec w) :
    Except Panic (BitVec w) := do
  let others ← Except.expect (len.checkedSub 1) ⟨"attempt to subtract with overflow"⟩
  let residue ← Except.expect ((raw.zeroExtend w).checkedRem others)
    ⟨"attempt to calculate the remainder with a divisor of zero"⟩
  let offset ← Except.expect ((1 : BitVec w).checkedAdd residue)
    ⟨"attempt to add with overflow"⟩
  let sum ← Except.expect (fromIdx.checkedAdd offset) ⟨"attempt to add with overflow"⟩
  Except.expect (sum.checkedRem len)
    ⟨"attempt to calculate the remainder with a divisor of zero"⟩

def resolveNonce (kind : NonceKind) (current : U128) : U128 :=
  match kind with
  | .Correct => current
  | .Off d => current + .ofNat 128 (max d.toNat 1)
  | .Raw n => n

def resolveAmount (kind : AmountKind) (balance : U128) : U128 :=
  match kind with
  | .Zero => 0
  | .WithinBalance raw => raw % balance.saturatingAdd 1
  | .All => balance
  | .Excessive raw => (balance.saturatingAdd 1).saturatingAdd (raw % 1024)
  | .Raw n => n

/-- The accounts of a run: the target returns early unless there are two. -/
structure LockstepAccounts (K : Keys) where
  accounts : List (FuzzAccount K)
  two_le : 2 ≤ accounts.length

namespace LockstepAccounts

variable {K : Keys} (accs : LockstepAccounts K)

/-- `accs[i % accs.len()]` -/
def get (i : ℕ) : FuzzAccount K :=
  accs.accounts.get ⟨i % accs.accounts.length, Nat.mod_lt _ (by have := accs.two_le; omega)⟩

/-- The `(id, balance)` pairs that genesis and the model start from. -/
def initAccs : List (AccountId × U128) :=
  accs.accounts.map fun a => (a.accountId, a.balance)

/-- The account that sends a `Transfer` command. -/
def sender (src : BitVec 8) : FuzzAccount K := accs.get src.toNat

/-- The account that receives it. -/
def recipient (src dst : BitVec 8) : FuzzAccount K :=
  let len := accs.accounts.length
  accs.get (resolveRecipient dst (src.toNat % len) len)

/-- The transfer a `Transfer` command stands for in the current model state. -/
def resolve (model : Model) (src dst : BitVec 8) (nonce : NonceKind) (amount : AmountKind) :
    TransferFields :=
  let fromId := (accs.sender src).accountId
  { fromId
    toId := (accs.recipient src dst).accountId
    declaredNonce := resolveNonce nonce (model.nonce fromId)
    amount := resolveAmount amount (model.balance fromId) }

end LockstepAccounts

/-! ## The lockstep loop -/

/-- Assert that the real state agrees with the model on every fuzz account. -/
def assertStateAgreement (M : Machine) (state : M.State) (model : Model) (step : ℕ)
    (what : String) : Except Panic Unit :=
  model.accounts.entries.forM fun ⟨id, (modelBal, modelNonce)⟩ => do
    Except.assert (M.balance state id = some modelBal) (.violation "ModelStateAgreement"
      (s!"balance diverged from reference model at step {step} after {what} for account " ++
        s!"{repr id} — real={repr (M.balance state id)}, model={modelBal}"))
    Except.assert (M.nonce state id = modelNonce) (.violation "ModelStateAgreement"
      (s!"nonce diverged from reference model at step {step} after {what} for account " ++
        s!"{repr id} — real={M.nonce state id}, model={modelNonce}"))

/-- The variables of the command loop. -/
structure Lockstep (M : Machine) where
  state : M.State
  model : Model
  blockId : U64
  timestamp : U64
  lastApplied : Option M.Tx
  step : ℕ

/-- The end of every arm: `block_id += blocks`, `timestamp += 1000 * blocks`, and the
    agreement of the two states. -/
def Lockstep.finish {M : Machine} (self : Lockstep M) (blocks : U64) (what : String) :
    Except Panic (Lockstep M) := do
  let blockId ← Except.expect (self.blockId.checkedAdd blocks) ⟨"attempt to add with overflow"⟩
  let timestamp ← Except.expect (self.timestamp.checkedAdd (1000 * blocks))
    ⟨"attempt to add with overflow"⟩
  assertStateAgreement M self.state self.model self.step what
  return { self with blockId, timestamp, step := self.step + 1 }

/-- The last accepted transaction, after a result. -/
def rememberApplied {M : Machine} (result : Except M.Error M.Tx) (lastApplied : Option M.Tx) :
    Option M.Tx :=
  match result with
  | .ok applied => some applied
  | .error _ => lastApplied

/-- One iteration of the command loop. -/
def Lockstep.run {M : Machine} (accs : LockstepAccounts M.toKeys) (self : Lockstep M)
    (cmd : Command) : Except Panic (Lockstep M) :=
  match cmd with
  | .AdvanceBlock jump => self.finish (1 + jump.zeroExtend 64) "AdvanceBlock"
  | .ReplayLast =>
    match self.lastApplied with
    | none => return { self with step := self.step + 1 } -- nothing to replay yet
    | some tx => do
      let (result, state) := M.executeCheckOnState tx self.state self.blockId self.timestamp
      Except.assert (result.isOk = false) (.violation "ModelAcceptanceAgreement"
        ("the state machine accepted a replay of an already-applied transaction at step " ++
          s!"{self.step} (block_id={self.blockId}) — its nonce was consumed, so the " ++
          "reference model rejects it. This is a replay / double-spend."))
      { self with state }.finish 1 "ReplayLast"
  | .Transfer src dst nonce amount => do
    let t := accs.resolve self.model src dst nonce amount
    let tx := M.createTransactionNativeTokenTransfer t.fromId t.declaredNonce t.toId t.amount
      (accs.sender src).privateKey
    let prediction := self.model.predict t.fromId t.toId t.declaredNonce t.amount
    let (result, state) := M.executeCheckOnState tx self.state self.blockId self.timestamp
    let model ← match prediction with
      | .Accept amount => do
        Except.assert (result.isOk = true) (.violation "ModelAcceptanceAgreement"
          ("the reference model accepts this transfer but the state machine REJECTED it at " ++
            s!"step {self.step} (from={repr t.fromId} to={repr t.toId} " ++
            s!"nonce={t.declaredNonce} amount={amount}) — spurious rejection / liveness bug."))
        self.model.applyTransfer t.fromId t.toId amount
      | .Reject => do
        Except.assert (result.isOk = false) (.violation "ModelAcceptanceAgreement"
          ("the state machine ACCEPTED a transfer the reference model rejects at " ++
            s!"step {self.step} (from={repr t.fromId} to={repr t.toId} " ++
            s!"nonce={t.declaredNonce} amount={t.amount}) — double-spend, bad-nonce " ++
            "acceptance, or token-inflation bug."))
        pure self.model
    let lastApplied := rememberApplied result self.lastApplied
    { self with state, model, lastApplied }.finish 1 "Transfer"

/-- The loop variables before the first command. -/
def Lockstep.init {M : Machine} (accs : LockstepAccounts M.toKeys) (state : M.State) :
    Lockstep M where
  state := state
  model := Model.new accs.initAccs
  blockId := 1
  timestamp := 0
  lastApplied := none
  step := 0

/-- `fuzz_stateful_model_lockstep`, from its genesis state and a schedule. -/
def fuzzStatefulModelLockstep {M : Machine} (accs : LockstepAccounts M.toKeys) (state : M.State)
    (cmds : List Command) : Except Panic (Lockstep M) :=
  cmds.foldlM (Lockstep.run accs) (Lockstep.init accs state)

/-! ## The model side by itself -/

/-- What one command does to the model, with a record of the transfers accepted so far. -/
def modelStep {K : Keys} (accs : LockstepAccounts K) :
    Model × List TransferFields → Command → Except Panic (Model × List TransferFields)
  | (model, accepted), .Transfer src dst nonce amount => do
    let t := accs.resolve model src dst nonce amount
    let model' ← model.submit t
    if (model.predict t.fromId t.toId t.declaredNonce t.amount).isAccept then
      return (model', accepted ++ [t])
    else
      return (model', accepted)
  | (model, accepted), .AdvanceBlock _ => return (model, accepted)
  | (model, accepted), .ReplayLast => return (model, accepted)

/-- The model side of the lockstep loop over a whole schedule; nothing is run with fewer
    than two accounts. -/
def modelRun {K : Keys} (accounts : List (FuzzAccount K)) (cmds : List Command) :
    Except Panic (Model × List TransferFields) :=
  let model := Model.new (accounts.map fun a => (a.accountId, a.balance))
  if h : 2 ≤ accounts.length then
    cmds.foldlM (modelStep ⟨accounts, h⟩) (model, [])
  else
    return (model, [])

end LezFuzzing.Native
