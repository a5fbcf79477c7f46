import LezFuzzing.Spec.ModelLedger
import LezFuzzing.Spec.InvariantsCorrect

/-!
# The lockstep oracle is exact

`Shadow` runs a schedule on the state machine and on the reference model without
asserting anything. The target returns exactly when, at every command of that run, the
machine accepts what the model predicts and both end in the same balances and nonces.
The target itself never asks the model about a replay; it asserts a rejection, which is
the model's prediction because the replayed transfer is one the model accepted earlier.

## Key results

- `run_iff`: one command returns exactly when both agreements hold, and the run goes on
  like its shadow
- `fuzzStatefulModelLockstep_exact`: the whole schedule, and the replay prediction
-/

namespace LezFuzzing.Spec

open LezFuzzing.Native

/-! ## The run without assertions -/

/-- State machine and model side by side, with the last accepted transaction, the
    transfer it stands for, and the number of blocks gone by. -/
structure Shadow (M : Machine) where
  state : M.State
  model : Model
  last : Option (M.Tx × TransferFields)
  ticks : ℕ

namespace Shadow

variable {M : Machine} (accs : LockstepAccounts M.toKeys) (self : Shadow M)

def init (state : M.State) : Shadow M where
  state := state
  model := Model.new accs.initAccs
  last := none
  ticks := 0

/-- The call of the state machine at the current block. -/
def execute (tx : M.Tx) : Except M.Error M.Tx × M.State :=
  M.executeCheckOnState tx self.state (.ofNat 64 (1 + self.ticks)) (.ofNat 64 (1000 * self.ticks))

/-- The transaction a command submits, with the transfer it stands for. -/
def submission : Command → Option (M.Tx × TransferFields)
  | .AdvanceBlock _ => none
  | .ReplayLast => self.last
  | .Transfer src dst nonce amount =>
    let t := accs.resolve self.model src dst nonce amount
    some (M.createTransactionNativeTokenTransfer t.fromId t.declaredNonce t.toId t.amount
      (accs.sender src).privateKey, t)

/-- One command. Only a transfer is submitted to the model. -/
def step (cmd : Command) : Shadow M :=
  match cmd, self.submission accs cmd with
  | .AdvanceBlock jump, _ => { self with ticks := self.ticks + (1 + jump.toNat) }
  | .ReplayLast, none => self
  | .ReplayLast, some (tx, _) =>
    { self with state := (self.execute tx).2, ticks := self.ticks + 1 }
  | .Transfer .., none => self
  | .Transfer .., some (tx, t) =>
    { state := (self.execute tx).2
      model := match self.model.submit t with
        | .ok model => model
        | .error _ => self.model
      last := match (self.execute tx).1 with
        | .ok applied => some (applied, t)
        | .error _ => self.last
      ticks := self.ticks + 1 }

/-- The run over a schedule. -/
def run (cmds : List Command) : Shadow M := cmds.foldl (step accs) self

/-- What the model predicts for a transfer, as one bit. -/
def predicts (t : TransferFields) : Bool :=
  (self.model.predict t.fromId t.toId t.declaredNonce t.amount).isAccept

/-- The machine accepts what the command submits exactly if the model predicts it. -/
def AcceptanceAgrees (cmd : Command) : Prop :=
  ∀ tx t, self.submission accs cmd = some (tx, t) → (self.execute tx).1.isOk = self.predicts t

/-- Machine and model have the same balance and nonce for every fuzz account. -/
def StateAgrees : Prop :=
  ∀ id ∈ ids accs.accounts, M.balance self.state id = some (self.model.balance id) ∧
    M.nonce self.state id = self.model.nonce id

/-- The clock of the run fits: `timestamp` is the larger of its two values. -/
def ClockFits : Prop := 1000 * self.ticks < 2 ^ 64

instance : Decidable (self.StateAgrees accs) :=
  inferInstanceAs (Decidable (∀ id ∈ ids accs.accounts,
    M.balance self.state id = some (self.model.balance id) ∧
      M.nonce self.state id = self.model.nonce id))

instance : Decidable self.ClockFits := inferInstanceAs (Decidable (1000 * self.ticks < 2 ^ 64))

end Shadow

/-! ## One command -/

section Step

variable {M : Machine} {accs : LockstepAccounts M.toKeys}

/-- The agreement assertion reads every entry of the model, hence every fuzz account. -/
private theorem assertStateAgreement_iff {state : M.State} {model : Model} {step : ℕ}
    {what : String} (hinv : ModelInv (ids accs.accounts).toFinset model) :
    assertStateAgreement M state model step what = .ok () ↔
      ∀ id ∈ ids accs.accounts, M.balance state id = some (model.balance id) ∧
        M.nonce state id = model.nonce id := by
  have hentry : assertStateAgreement M state model step what = .ok () ↔
      ∀ e ∈ model.accounts.entries, M.balance state e.1 = some e.2.1 ∧
        M.nonce state e.1 = e.2.2 := by
    rw [assertStateAgreement, Except.forM_eq_ok_iff]
    refine forall₂_congr fun e _ => ?_
    rw [Except.bind_eq_ok_iff]
    simp
  have hkeys := AList.forall_entries_iff (m := model.accounts)
    (P := fun id entry => M.balance state id = some entry.1 ∧ M.nonce state id = entry.2)
  rw [hentry, hkeys]
  constructor
  · intro h id hid
    exact h id _ (lookup_eq hinv (List.mem_toFinset.mpr hid))
  · intro h id entry hlook
    have hmem : id ∈ (ids accs.accounts).toFinset :=
      (hinv.keys id).mp (AList.lookup_isSome.mp (hlook ▸ rfl))
    rw [lookup_eq hinv hmem, Option.some.injEq] at hlook
    rw [← hlook]
    exact h id (List.mem_toFinset.mp hmem)

/-- The clock of a run that started at block 1 and time 0. -/
private structure ClockAt (s : Lockstep M) (ticks : ℕ) : Prop where
  blockId : s.blockId.toNat = 1 + ticks
  timestamp : s.timestamp.toNat = 1000 * ticks

private theorem toNat_mul_blocks {blocks : U64} (hblocks : blocks.toNat ≤ 256) :
    (1000 * blocks : U64).toNat = 1000 * blocks.toNat := by
  rw [BitVec.toNat_mul]
  exact Nat.mod_eq_of_lt (by show 1000 * _ < 2 ^ 64; omega)

/-- The end of an arm returns exactly when the new time fits and the states agree. -/
private theorem finish_iff {s s' : Lockstep M} {ticks : ℕ} {blocks : U64} {what : String}
    (hclock : ClockAt s ticks) (hblocks : blocks.toNat ≤ 256)
    (hinv : ModelInv (ids accs.accounts).toFinset s.model) :
    s.finish blocks what = .ok s' ↔ 1000 * (ticks + blocks.toNat) < 2 ^ 64 ∧
      (∀ id ∈ ids accs.accounts, M.balance s.state id = some (s.model.balance id) ∧
        M.nonce s.state id = s.model.nonce id) ∧
      s' = { s with
        blockId := s.blockId + blocks, timestamp := s.timestamp + 1000 * blocks
        step := s.step + 1 } := by
  have hmul := toNat_mul_blocks hblocks
  have hblock := hclock.blockId
  have htime := hclock.timestamp
  -- two checked additions, then the agreement: the block id is the smaller of the two
  simp only [Lockstep.finish, Except.bind_eq_ok_iff, Except.expect_eq_ok_iff, Except.pure_eq_ok,
    Except.ok.injEq]
  constructor
  · intro h
    obtain ⟨blockId, hb, timestamp, ht, _, hagree, heq⟩ := h
    have hfitb := (BitVec.checkedAdd_eq_some_iff.mp hb).trans_lt blockId.isLt
    have hfit := (BitVec.checkedAdd_eq_some_iff.mp ht).trans_lt timestamp.isLt
    rw [BitVec.checkedAdd_of_lt hfitb, Option.some.injEq] at hb
    rw [BitVec.checkedAdd_of_lt hfit, Option.some.injEq] at ht
    exact ⟨by omega, (assertStateAgreement_iff hinv).mp hagree, by rw [← heq, ← hb, ← ht]⟩
  · intro h
    obtain ⟨hfit, hagree, heq⟩ := h
    exact ⟨_, BitVec.checkedAdd_of_lt (by omega), _, BitVec.checkedAdd_of_lt (by omega), (),
      (assertStateAgreement_iff hinv).mpr hagree, heq.symm⟩

/-- The loop and its shadow, after commands at which both agreements held. -/
structure Tracks (accs : LockstepAccounts M.toKeys) (s : Lockstep M) (t : Shadow M) : Prop where
  state : s.state = t.state
  model : s.model = t.model
  last : s.lastApplied = t.last.map Prod.fst
  blockId : s.blockId.toNat = 1 + t.ticks
  timestamp : s.timestamp.toNat = 1000 * t.ticks
  fits : t.ClockFits
  agrees : t.StateAgrees accs
  /-- The transfer behind `last` is one the model accepted. -/
  history : ∃ accepted, RunInv accs t.ticks t.model accepted ∧
    ∀ tx fields, t.last = some (tx, fields) → fields ∈ accepted

section Tracking

variable {s : Lockstep M} {t : Shadow M}

private theorem Tracks.clockAt (h : Tracks accs s t) : ClockAt s t.ticks :=
  ⟨h.blockId, h.timestamp⟩

/-- Both runs call the state machine with the same arguments. -/
private theorem Tracks.execute_eq (h : Tracks accs s t) (tx : M.Tx) :
    M.executeCheckOnState tx s.state s.blockId s.timestamp = t.execute tx := by
  have hblock : s.blockId = .ofNat 64 (1 + t.ticks) := by
    rw [← h.blockId, BitVec.ofNat_toNat, BitVec.setWidth_eq]
  have htime : s.timestamp = .ofNat 64 (1000 * t.ticks) := by
    rw [← h.timestamp, BitVec.ofNat_toNat, BitVec.setWidth_eq]
  rw [Shadow.execute, h.state, hblock, htime]

/-- The model rejects the transfer that was accepted last. -/
theorem Tracks.predicts_last (h : Tracks accs s t) {tx : M.Tx} {fields : TransferFields}
    (hlast : t.last = some (tx, fields)) : t.predicts fields = false := by
  obtain ⟨accepted, hinv, hmem⟩ := h.history
  rw [Shadow.predicts, hinv.predict_reject (hmem tx fields hlast)]
  rfl

/-- Once an arm has caught up with its shadow `t'` in all but the clock, its end returns
    exactly when the clock fits and the states agree, and then tracks `t'`. -/
private theorem finish_tracks (accs : LockstepAccounts M.toKeys) (t' : Shadow M) (what : String)
    (blocks : U64) {ticks : ℕ} (hclock : ClockAt s ticks) (hblocks : blocks.toNat ≤ 256)
    (hticks : t'.ticks = ticks + blocks.toNat)
    (hstate : s.state = t'.state) (hmodel : s.model = t'.model)
    (hlast : s.lastApplied = t'.last.map Prod.fst)
    (hhistory : ∃ accepted, RunInv accs t'.ticks t'.model accepted ∧
      ∀ tx fields, t'.last = some (tx, fields) → fields ∈ accepted) :
    ((s.finish blocks what).Returns ↔ t'.ClockFits ∧ t'.StateAgrees accs) ∧
      ∀ s', s.finish blocks what = .ok s' → Tracks accs s' t' := by
  have hinv : ModelInv (ids accs.accounts).toFinset s.model := by
    obtain ⟨accepted, hrun, _⟩ := hhistory
    exact hmodel ▸ hrun.inv
  have hfits : t'.ClockFits ↔ 1000 * (ticks + blocks.toNat) < 2 ^ 64 := by
    rw [Shadow.ClockFits, hticks]
  have hagrees : t'.StateAgrees accs ↔ ∀ id ∈ ids accs.accounts,
      M.balance s.state id = some (s.model.balance id) ∧
        M.nonce s.state id = s.model.nonce id := by
    rw [Shadow.StateAgrees, hstate, hmodel]
  have hblock := hclock.blockId
  have htime := hclock.timestamp
  have hmul := toNat_mul_blocks hblocks
  refine ⟨⟨?_, ?_⟩, ?_⟩
  · intro h
    obtain ⟨s', h⟩ := h
    obtain ⟨hfit, hagree, _⟩ := (finish_iff hclock hblocks hinv).mp h
    exact ⟨hfits.mpr hfit, hagrees.mpr hagree⟩
  · intro h
    obtain ⟨hfit, hagree⟩ := h
    exact ⟨_, (finish_iff hclock hblocks hinv).mpr ⟨hfits.mp hfit, hagrees.mp hagree, rfl⟩⟩
  · intro s' h
    obtain ⟨hfit, hagree, rfl⟩ := (finish_iff hclock hblocks hinv).mp h
    exact {
      state := hstate
      model := hmodel
      last := hlast
      blockId := by
        show (s.blockId + blocks).toNat = _
        rw [BitVec.toNat_add_of_lt (by omega)]
        omega
      timestamp := by
        show (s.timestamp + 1000 * blocks).toNat = _
        rw [BitVec.toNat_add_of_lt (by omega)]
        omega
      fits := hfits.mpr hfit
      agrees := hagrees.mpr hagree
      history := hhistory }

/-- What the target asserts at a command: the clock goes on, the machine accepts what the
    model predicts, and the states agree afterwards. -/
def StepOk (accs : LockstepAccounts M.toKeys) (t : Shadow M) (cmd : Command) : Prop :=
  (t.step accs cmd).ClockFits ∧ t.AcceptanceAgrees accs cmd ∧ (t.step accs cmd).StateAgrees accs

/-- The body of the loop returns exactly when `StepOk` holds, and tracks the shadow. -/
private def Simulates (accs : LockstepAccounts M.toKeys) (s : Lockstep M) (t : Shadow M)
    (cmd : Command) : Prop :=
  ((Lockstep.run accs s cmd).Returns ↔ StepOk accs t cmd) ∧
    ∀ s', Lockstep.run accs s cmd = .ok s' → Tracks accs s' (t.step accs cmd)

/-- An asserted acceptance in front of the end of an arm. -/
private theorem assert_finish {p fits agrees : Prop} [Decidable p] {e : Panic}
    {body : Except Panic (Lockstep M)} {t' : Shadow M}
    (h : p → (body.Returns ↔ fits ∧ agrees) ∧ ∀ s', body = .ok s' → Tracks accs s' t') :
    ((Except.assert p e >>= fun _ => body).Returns ↔ fits ∧ p ∧ agrees) ∧
      ∀ s', (Except.assert p e >>= fun _ => body) = .ok s' → Tracks accs s' t' := by
  constructor
  · rw [Except.returns_assert_bind_iff, and_left_comm]
    exact and_congr_right fun hp => (h hp).1
  · intro s' hrun
    obtain ⟨_, hassert, hbody⟩ := Except.bind_eq_ok_iff.mp hrun
    exact (h (Except.assert_eq_ok_iff.mp hassert)).2 s' hbody

private theorem run_advanceBlock (h : Tracks accs s t) (jump : BitVec 8) :
    Simulates accs s t (.AdvanceBlock jump) := by
  have hblocks : (1 + jump.zeroExtend 64 : U64).toNat = 1 + jump.toNat := by
    rw [BitVec.toNat_add_of_lt] <;> simp <;> omega
  obtain ⟨accepted, hinv, hmem⟩ := h.history
  -- the state and the model stay, and only the clock moves
  obtain ⟨hreturns, htracks⟩ := finish_tracks accs (t.step accs (.AdvanceBlock jump)) "AdvanceBlock"
    (1 + jump.zeroExtend 64) h.clockAt (by omega) (by rw [hblocks]; rfl) h.state h.model h.last
    ⟨accepted, hinv.mono (Nat.le_add_right _ _), hmem⟩
  have hnone : t.AcceptanceAgrees accs (.AdvanceBlock jump) := nofun
  refine ⟨hreturns.trans ?_, htracks⟩
  exact ⟨fun ⟨hfit, hagree⟩ => ⟨hfit, hnone, hagree⟩, fun ⟨hfit, _, hagree⟩ => ⟨hfit, hagree⟩⟩

private theorem run_replayLast (h : Tracks accs s t) : Simulates accs s t .ReplayLast := by
  cases hlast : t.last with
  | none =>
    -- nothing is submitted: the iteration returns, and both agreements hold as before
    have hs : s.lastApplied = none := by rw [h.last, hlast]; rfl
    have hstep : t.step accs .ReplayLast = t := by simp [Shadow.step, Shadow.submission, hlast]
    have hrun : Lockstep.run accs s .ReplayLast = .ok { s with step := s.step + 1 } := by
      simp [Lockstep.run, hs]
    have hnone : t.AcceptanceAgrees accs .ReplayLast := by
      intro tx fields hsub
      cases hlast.symm.trans hsub
    rw [Simulates, StepOk, hstep, hrun]
    refine ⟨⟨fun _ => ⟨h.fits, hnone, h.agrees⟩, fun _ => ⟨_, rfl⟩⟩, fun s' hs' => ?_⟩
    obtain rfl := Except.ok.inj hs'
    exact { h with }
  | some entry =>
    obtain ⟨tx, fields⟩ := entry
    have hs : s.lastApplied = some tx := by rw [h.last, hlast]; rfl
    have hstep : t.step accs .ReplayLast =
        { t with state := (t.execute tx).2, ticks := t.ticks + 1 } := by
      simp [Shadow.step, Shadow.submission, hlast]
    have hrejects := h.predicts_last hlast
    -- the hard-coded rejection is what the model predicts
    have haccept : t.AcceptanceAgrees accs .ReplayLast ↔ (t.execute tx).1.isOk = false := by
      constructor
      · intro hagree
        rw [hagree tx fields hlast, hrejects]
      · intro hrej tx' fields' hsub
        obtain ⟨rfl, rfl⟩ := Prod.mk.inj (Option.some.inj (hlast.symm.trans hsub))
        rw [hrej, hrejects]
    obtain ⟨accepted, hinv, hmem⟩ := h.history
    have hclock : ClockAt { s with state := (t.execute tx).2 } t.ticks := ⟨h.blockId, h.timestamp⟩
    have hrun : ∃ e, Lockstep.run accs s .ReplayLast =
        (Except.assert ((t.execute tx).1.isOk = false) e >>= fun _ =>
          { s with state := (t.execute tx).2 }.finish 1 "ReplayLast") := by
      simp only [Lockstep.run, hs, h.execute_eq]
      exact ⟨_, rfl⟩
    obtain ⟨e, hrun⟩ := hrun
    rw [Simulates, StepOk, hstep, haccept, hrun]
    exact assert_finish fun _ => finish_tracks accs
      { t with state := (t.execute tx).2, ticks := t.ticks + 1 } "ReplayLast" 1 hclock (by decide)
      rfl rfl h.model h.last ⟨accepted, hinv.mono (Nat.le_add_right _ _), hmem⟩

/-- The arm of a transfer asserts the predicted bit and goes on with the model's next state. -/
private theorem run_transfer_eq (h : Tracks accs s t) {src dst : BitVec 8} {nonce : NonceKind}
    {amount : AmountKind} {fields : TransferFields}
    (hfields : fields = accs.resolve t.model src dst nonce amount) {tx : M.Tx}
    (htx : tx = M.createTransactionNativeTokenTransfer fields.fromId fields.declaredNonce
      fields.toId fields.amount (accs.sender src).privateKey) {model' : Model}
    (hsubmit : t.model.submit fields = .ok model') :
    ∃ e, Lockstep.run accs s (.Transfer src dst nonce amount) =
      (Except.assert ((t.execute tx).1.isOk = t.predicts fields) e >>= fun _ =>
        Lockstep.finish { s with
          state := (t.execute tx).2, model := model'
          lastApplied := rememberApplied (t.execute tx).1 s.lastApplied } 1 "Transfer") := by
  unfold Model.submit at hsubmit
  cases hpredict : t.model.predict fields.fromId fields.toId fields.declaredNonce fields.amount with
  | Accept booked =>
    rw [hpredict] at hsubmit
    simp only [Lockstep.run, h.model, ← hfields, ← htx, h.execute_eq, hpredict, Shadow.predicts,
      Predict.isAccept, hsubmit, Except.ok_bind]
    exact ⟨_, rfl⟩
  | Reject =>
    rw [hpredict] at hsubmit
    obtain rfl := Except.ok.inj hsubmit
    simp only [Lockstep.run, h.model, ← hfields, ← htx, h.execute_eq, hpredict, Shadow.predicts,
      Predict.isAccept]
    exact ⟨_, rfl⟩

private theorem run_transfer (hnd : (ids accs.accounts).Nodup) (h : Tracks accs s t)
    (src dst : BitVec 8) (nonce : NonceKind) (amount : AmountKind) :
    Simulates accs s t (.Transfer src dst nonce amount) := by
  obtain ⟨accepted, hinv, hmem⟩ := h.history
  have hbetween := resolve_between hnd t.model src dst nonce amount
  -- the clock bounds the number of transfers, so no nonce can wrap
  have hticks : t.ticks + 1 < 2 ^ 128 := by
    have hfit := h.fits
    simp only [Shadow.ClockFits] at hfit
    omega
  -- names for what both runs submit
  obtain ⟨fields, hfields⟩ : ∃ fields, fields = accs.resolve t.model src dst nonce amount :=
    ⟨_, rfl⟩
  obtain ⟨tx, htx⟩ : ∃ tx, tx = M.createTransactionNativeTokenTransfer fields.fromId
      fields.declaredNonce fields.toId fields.amount (accs.sender src).privateKey := ⟨_, rfl⟩
  have haccept : t.AcceptanceAgrees accs (.Transfer src dst nonce amount) ↔
      (t.execute tx).1.isOk = t.predicts fields := by
    constructor
    · intro hagree
      exact hagree tx fields (by rw [htx, hfields]; rfl)
    · intro hbit tx' fields' hsub
      obtain ⟨rfl, rfl⟩ := Prod.mk.inj (Option.some.inj hsub)
      rwa [htx, hfields] at hbit
  rw [← hfields] at hbetween
  obtain ⟨model', hsubmit, hinv'⟩ := hinv.exists_submit hticks hbetween
  obtain ⟨e, hrun⟩ := run_transfer_eq h hfields htx hsubmit
  have hstep : t.step accs (.Transfer src dst nonce amount) =
      { state := (t.execute tx).2
        model := model'
        last := match (t.execute tx).1 with
          | .ok applied => some (applied, fields)
          | .error _ => t.last
        ticks := t.ticks + 1 } := by
    simp only [Shadow.step, Shadow.submission, ← hfields, ← htx, hsubmit]
  have hclock : ∀ (state : M.State) (model : Model) (lastApplied : Option M.Tx),
      ClockAt { s with state, model, lastApplied } t.ticks := fun _ _ _ => ⟨h.blockId, h.timestamp⟩
  rw [Simulates, StepOk, hstep, haccept, hrun]
  refine assert_finish fun hbit => finish_tracks accs _ "Transfer" 1 (hclock _ _ _) (by decide)
    rfl rfl rfl ?_ ⟨_, hinv', ?_⟩
  · cases (t.execute tx).1 with
    | ok applied => rfl
    | error e => exact h.last
  · -- whatever the machine accepted last, the model accepted too
    intro tx' fields' hlast
    cases hexec : (t.execute tx).1 with
    | ok applied =>
      simp only [hexec, Option.some.injEq, Prod.mk.injEq] at hlast
      have hpredicted : (t.model.predict fields.fromId fields.toId fields.declaredNonce
          fields.amount).isAccept = true := by
        show t.predicts fields = true
        rw [← hbit, hexec]
        rfl
      rw [← hlast.2, if_pos hpredicted]
      exact List.mem_append_right _ List.mem_cons_self
    | error e =>
      simp only [hexec] at hlast
      split
      · exact List.mem_append_left _ (hmem tx' fields' hlast)
      · exact hmem tx' fields' hlast

/-- One command returns exactly when both agreements hold, and the run goes on like its
    shadow. -/
theorem run_iff (hnd : (ids accs.accounts).Nodup) (h : Tracks accs s t) (cmd : Command) :
    ((Lockstep.run accs s cmd).Returns ↔ StepOk accs t cmd) ∧
      ∀ s', Lockstep.run accs s cmd = .ok s' → Tracks accs s' (t.step accs cmd) := by
  cases cmd with
  | Transfer src dst nonce amount => exact run_transfer hnd h src dst nonce amount
  | AdvanceBlock jump => exact run_advanceBlock h jump
  | ReplayLast => exact run_replayLast h

end Tracking

/-! ## Whole schedules -/

/-- Before the first command the loop tracks its shadow, if the genesis state holds the
    generated balances. -/
private theorem tracks_init (hfunded : Funded accs.accounts) {state : M.State}
    (hinit : (Shadow.init accs state).StateAgrees accs) :
    Tracks accs (Lockstep.init accs state) (Shadow.init accs state) where
  state := rfl
  model := rfl
  last := rfl
  blockId := rfl
  timestamp := rfl
  fits := by
    show 1000 * 0 < 2 ^ 64
    decide
  agrees := hinit
  history := ⟨[], runInv_new hfunded, nofun⟩

/-- The clock of a run never goes back. -/
private theorem ticks_le_run (accs : LockstepAccounts M.toKeys) (t : Shadow M)
    (cmds : List Command) : t.ticks ≤ (t.run accs cmds).ticks := by
  induction cmds generalizing t with
  | nil => exact Nat.le_refl _
  | cons cmd cmds ih =>
    -- a command adds blocks or, as a replay of nothing, leaves the clock alone
    have hstep : t.ticks ≤ (t.step accs cmd).ticks := by
      unfold Shadow.step
      split
      · exact Nat.le_add_right _ _
      · exact Nat.le_refl _
      · exact Nat.le_add_right _ _
      · exact Nat.le_refl _
      · exact Nat.le_add_right _ _
    exact Nat.le_trans hstep (ih (t.step accs cmd))

end Step

/-- The lockstep oracle is exact. For every machine whose initial balances and nonces are
    the model's, and every schedule whose clock fits, the target finishes without panic
    if and only if, command by command, the machine accepts exactly what the model
    predicts and agrees with the model on every fuzz account afterwards. In a run that has
    not panicked, the model predicts the rejection that a replay is asserted to get. -/
theorem fuzzStatefulModelLockstep_exact (M : Machine) (accs : LockstepAccounts M.toKeys)
    (hfunded : Funded accs.accounts) (state : M.State)
    (hinit : (Shadow.init accs state).StateAgrees accs) (cmds : List Command)
    (hclock : ((Shadow.init accs state).run accs cmds).ClockFits) :
    ((fuzzStatefulModelLockstep accs state cmds).Returns ↔
      ∀ before cmd after, cmds = before ++ cmd :: after →
        let t := (Shadow.init accs state).run accs before
        t.AcceptanceAgrees accs cmd ∧ (t.step accs cmd).StateAgrees accs) ∧
    ∀ before after, cmds = before ++ .ReplayLast :: after →
      (fuzzStatefulModelLockstep accs state before).Returns →
      let t := (Shadow.init accs state).run accs before
      ∀ tx fields, t.last = some (tx, fields) → t.predicts fields = false := by
  have htracks := tracks_init hfunded hinit
  constructor
  · have hiff := Except.foldlM_returns_iff (P := StepOk accs) (R := Tracks accs)
      (fun s t cmd (_ : cmd ∈ cmds) h => (run_iff hfunded.nodup h cmd).1)
      (fun s t cmd _ s' h hrun => (run_iff hfunded.nodup h cmd).2 s' hrun) htracks
    refine hiff.trans (forall₄_congr fun before cmd after hsplit => ?_)
    -- the clock of the whole run bounds the clock after every command
    have hfits : (((Shadow.init accs state).run accs before).step accs cmd).ClockFits := by
      have hle := ticks_le_run accs
        (((Shadow.init accs state).run accs before).step accs cmd) after
      have hrun : (((Shadow.init accs state).run accs before).step accs cmd).run accs after =
          (Shadow.init accs state).run accs cmds := by
        simp [Shadow.run, hsplit]
      rw [hrun] at hle
      simp only [Shadow.ClockFits] at hclock ⊢
      omega
    exact ⟨fun ⟨_, haccept, hagree⟩ => ⟨haccept, hagree⟩,
      fun ⟨haccept, hagree⟩ => ⟨hfits, haccept, hagree⟩⟩
  · -- a prefix that returned still tracks its shadow, whose last transfer is spent
    rintro before after _ ⟨s', hrun⟩ t tx fields hlast
    have h := Except.foldlM_simulates (R := Tracks accs)
      (fun s t cmd _ s' h hrun => (run_iff hfunded.nodup h cmd).2 s' hrun) htracks hrun
    exact h.predicts_last hlast

/-- Drain the first account, replay the transfer, wait, and pay everything back. -/
def drainCmds : List Command :=
  [.Transfer 0 0 .Correct .All, .ReplayLast, .AdvanceBlock 7, .Transfer 1 0 .Correct .All]

/-- The reference machine passes the schedule, and agrees with the model throughout. -/
theorem fuzzStatefulModelLockstep_exact_reference :
    (fuzzStatefulModelLockstep (M := plainMachine) twoAccounts
      (ReferenceState.genesis twoAccounts.initAccs) drainCmds).Returns ∧
    ∀ before cmd after, drainCmds = before ++ cmd :: after →
      let t := (Shadow.init (M := plainMachine) twoAccounts
        (ReferenceState.genesis twoAccounts.initAccs)).run twoAccounts before
      t.AcceptanceAgrees twoAccounts cmd ∧ (t.step twoAccounts cmd).StateAgrees twoAccounts := by
  have hreturns : (fuzzStatefulModelLockstep (M := plainMachine) twoAccounts
      (ReferenceState.genesis twoAccounts.initAccs) drainCmds).Returns := ⟨_, rfl⟩
  have hexact := (fuzzStatefulModelLockstep_exact plainMachine twoAccounts twoAccounts_funded
    (ReferenceState.genesis twoAccounts.initAccs) (by decide) drainCmds (by decide)).1
  exact ⟨hreturns, hexact.mp hreturns⟩

end LezFuzzing.Spec
