import LezFuzzing.Native.BlockSequence
import LezFuzzing.Spec.InvariantsCorrect

/-!
# What a run over a sequence of transactions has checked

A run makes two kinds of calls on one live state: the first attempt of every
transaction that passes the stateless gate, and the replay of every transaction that
was accepted. `rounds` lists the calls of a run, one `Round` for each transaction. A run
returns exactly when every round is correct, and then it ends where the last round does.

The per-transaction checks look at the state between the attempt and its replay. What a
rejected replay does to the state is not looked at, except that the changes of the
genesis total cancel in the end.

## Key results

- `applyTransactions_eq_ok_iff`: a run returns exactly when each of its rounds is correct
- `total_endState`: the genesis total moves only by what rejected replays do to it
- `fuzzMultiBlockStateSequence_isolation`: what a finished run says about rejected calls
- `fuzzMultiBlockStateSequence_longRange`: what the final check adds to the ones before it
-/

namespace LezFuzzing.Spec

open LezFuzzing.Native

/-! ## Calls and rounds -/

/-- One call of `execute_check_on_state`. -/
structure Call (M : Machine) where
  tx : M.Tx
  before : M.State
  blockId : U64
  timestamp : U64

namespace Call

variable {M : Machine} (call : Call M)

def result : Except M.Error M.Tx :=
  (M.executeCheckOnState call.tx call.before call.blockId call.timestamp).1

def after : M.State :=
  (M.executeCheckOnState call.tx call.before call.blockId call.timestamp).2

/-- The call returned `Err`. -/
def Rejected : Prop := call.result.isOk = false

/-- The call left balance and nonce of every listed account as they were. -/
def Isolated (ids : List AccountId) : Prop :=
  ∀ id ∈ ids, M.balance call.after id = M.balance call.before id ∧
    M.nonce call.after id = M.nonce call.before id

instance : Decidable call.Rejected := inferInstanceAs (Decidable (_ = false))

instance (ids : List AccountId) : Decidable (call.Isolated ids) :=
  inferInstanceAs (Decidable (∀ id ∈ ids, M.balance call.after id = M.balance call.before id ∧
    M.nonce call.after id = M.nonce call.before id))

end Call

/-- The calls one transaction leads to, and the state they leave behind. -/
structure Round (M : Machine) where
  attempt : Option (Call M)
  replay : Option (Call M)
  after : M.State

section Rounds

variable (M : Machine)

/-- The round of one transaction: nothing if it fails the stateless gate, and a replay
    in the next block if its first attempt is accepted. -/
def round (blockId timestamp : U64) (state : M.State) (txRaw : M.Tx) : Round M :=
  match M.transactionStatelessCheck txRaw with
  | .error _ => ⟨none, none, state⟩
  | .ok tx =>
    let attempt : Call M := ⟨tx, state, blockId, timestamp⟩
    match attempt.result with
    | .error _ => ⟨some attempt, none, attempt.after⟩
    | .ok appliedTx =>
      let replay : Call M := ⟨appliedTx, attempt.after, blockId + 1, timestamp + 1⟩
      ⟨some attempt, some replay, replay.after⟩

/-- The rounds of a run, from the `i`th transaction on. -/
def rounds (timestampOf : ℕ → U64) : ℕ → M.State → List M.Tx → List (Round M)
  | _, _, [] => []
  | i, state, txRaw :: txs =>
    let r := round M (1 + .ofNat 64 i) (timestampOf i) state txRaw
    r :: rounds timestampOf (i + 1) r.after txs

/-- The state a run ends in. -/
def endState (timestampOf : ℕ → U64) : ℕ → M.State → List M.Tx → M.State
  | _, state, [] => state
  | i, state, txRaw :: txs =>
    endState timestampOf (i + 1) (round M (1 + .ofNat 64 i) (timestampOf i) state txRaw).after txs

end Rounds

/-- What the per-transaction checks establish about a round. -/
structure RoundCorrect {M : Machine} (ids : List AccountId) (r : Round M) : Prop where
  decodes : ∀ attempt ∈ r.attempt, ∀ id ∈ ids, (M.balance attempt.before id).isSome
  rejected : ∀ attempt ∈ r.attempt, ∀ e, attempt.result = .error e →
    RejectionCorrect M attempt.after (recordedBalances M attempt.before ids)
      (nonceSnapshot M attempt.before ids)
  accepted : ∀ attempt ∈ r.attempt, ∀ appliedTx, attempt.result = .ok appliedTx →
    AcceptanceCorrect M attempt.after (recordedBalances M attempt.before ids)
      (nonceSnapshot M attempt.before ids) appliedTx
      (attempt.blockId + 1, attempt.timestamp + 1)

section Shapes

variable {M : Machine} {ids : List AccountId} {attempt : Call M} {replay : Option (Call M)}
  {after : M.State}

/-- A round whose first attempt was rejected. -/
theorem roundCorrect_error_iff {e : M.Error} (herr : attempt.result = .error e) :
    RoundCorrect ids ⟨some attempt, replay, after⟩ ↔
      (∀ id ∈ ids, (M.balance attempt.before id).isSome) ∧
        RejectionCorrect M attempt.after (recordedBalances M attempt.before ids)
          (nonceSnapshot M attempt.before ids) := by
  constructor
  · intro h
    exact ⟨h.decodes attempt rfl, h.rejected attempt rfl e herr⟩
  · intro h
    obtain ⟨hdec, hrej⟩ := h
    refine ⟨?_, ?_, ?_⟩
    · intro a ha
      obtain rfl := Option.mem_some.mp ha
      exact hdec
    · intro a ha _ _
      obtain rfl := Option.mem_some.mp ha
      exact hrej
    · intro a ha appliedTx happlied
      obtain rfl := Option.mem_some.mp ha
      exact nomatch herr.symm.trans happlied

/-- A round whose first attempt was accepted. -/
theorem roundCorrect_ok_iff {appliedTx : M.Tx} (hok : attempt.result = .ok appliedTx) :
    RoundCorrect ids ⟨some attempt, replay, after⟩ ↔
      (∀ id ∈ ids, (M.balance attempt.before id).isSome) ∧
        AcceptanceCorrect M attempt.after (recordedBalances M attempt.before ids)
          (nonceSnapshot M attempt.before ids) appliedTx
          (attempt.blockId + 1, attempt.timestamp + 1) := by
  constructor
  · intro h
    exact ⟨h.decodes attempt rfl, h.accepted attempt rfl appliedTx hok⟩
  · intro h
    obtain ⟨hdec, hacc⟩ := h
    refine ⟨?_, ?_, ?_⟩
    · intro a ha
      obtain rfl := Option.mem_some.mp ha
      exact hdec
    · intro a ha e he
      obtain rfl := Option.mem_some.mp ha
      exact nomatch hok.symm.trans he
    · intro a ha applied happlied
      obtain rfl := Option.mem_some.mp ha
      obtain rfl := Except.ok.inj (hok.symm.trans happlied)
      exact hacc

end Shapes

section Run

variable {M : Machine} {initAccs : List (AccountId × U128)} {timestampOf : ℕ → U64}

/-- One iteration returns exactly when its round is correct. -/
theorem applyTransaction_eq_ok_iff {blockId timestamp : U64} {state state' : M.State}
    {txRaw : M.Tx} :
    applyTransaction M initAccs blockId timestamp state txRaw = .ok state' ↔
      RoundCorrect (initAccs.map Prod.fst) (round M blockId timestamp state txRaw) ∧
        state' = (round M blockId timestamp state txRaw).after := by
  unfold applyTransaction round
  cases M.transactionStatelessCheck txRaw with
  | error e =>
    have hcorrect : RoundCorrect (initAccs.map Prod.fst) (⟨none, none, state⟩ : Round M) :=
      ⟨nofun, nofun, nofun⟩
    simp [hcorrect, eq_comm]
  | ok tx =>
    -- the call itself, under a name the two cases of its result can rewrite
    obtain ⟨attempt, hattempt⟩ : ∃ attempt : Call M, attempt = ⟨tx, state, blockId, timestamp⟩ :=
      ⟨_, rfl⟩
    have hexec : M.executeCheckOnState tx state blockId timestamp =
        (attempt.result, attempt.after) := by rw [hattempt]; rfl
    have hbefore : attempt.before = state := by rw [hattempt]
    have hblock : attempt.blockId = blockId := by rw [hattempt]
    have htime : attempt.timestamp = timestamp := by rw [hattempt]
    simp only [hexec, ← hattempt, Except.bind_eq_ok_iff, balanceSnapshot_eq_ok_iff]
    cases hresult : attempt.result with
    | error e =>
      simp only [assertTxExecutionInvariants_error_iff, roundCorrect_error_iff hresult, hbefore]
      constructor
      · intro h
        obtain ⟨_, ⟨hdec, rfl⟩, hrej, hstate⟩ := h
        exact ⟨⟨hdec, hrej⟩, hstate⟩
      · intro h
        obtain ⟨⟨hdec, hrej⟩, hstate⟩ := h
        exact ⟨_, ⟨hdec, rfl⟩, hrej, hstate⟩
    | ok appliedTx =>
      simp only [assertTxExecutionInvariants_ok_iff, roundCorrect_ok_iff hresult, hbefore, hblock,
        htime]
      constructor
      · intro h
        obtain ⟨_, ⟨hdec, rfl⟩, hacc, hstate⟩ := h
        exact ⟨⟨hdec, hacc⟩, hstate⟩
      · intro h
        obtain ⟨⟨hdec, hacc⟩, hstate⟩ := h
        exact ⟨_, ⟨hdec, rfl⟩, hacc, hstate⟩

/-- A run returns exactly when every round is correct, in the state the last one leaves. -/
theorem applyTransactions_eq_ok_iff {i : ℕ} {state state' : M.State} {txs : List M.Tx} :
    applyTransactions M initAccs timestampOf i state txs = .ok state' ↔
      (∀ r ∈ rounds M timestampOf i state txs, RoundCorrect (initAccs.map Prod.fst) r) ∧
        state' = endState M timestampOf i state txs := by
  induction txs generalizing i state with
  | nil => simp [applyTransactions, rounds, endState, eq_comm]
  | cons txRaw txs ih =>
    rw [applyTransactions, rounds, endState, Except.bind_eq_ok_iff, List.forall_mem_cons]
    constructor
    · intro h
      obtain ⟨state₁, hfirst, hrest⟩ := h
      obtain ⟨hround, rfl⟩ := applyTransaction_eq_ok_iff.mp hfirst
      obtain ⟨hrounds, hstate⟩ := ih.mp hrest
      exact ⟨⟨hround, hrounds⟩, hstate⟩
    · intro h
      obtain ⟨⟨hround, hrounds⟩, hstate⟩ := h
      exact ⟨_, applyTransaction_eq_ok_iff.mpr ⟨hround, rfl⟩, ih.mpr ⟨hrounds, hstate⟩⟩

end Run

/-! ## One round -/

section OneRound

variable {M : Machine} {ids : List AccountId} {blockId timestamp : U64} {state : M.State}
  {txRaw : M.Tx}

/-- The three shapes of a round. -/
theorem round_cases (blockId timestamp : U64) (state : M.State) (txRaw : M.Tx) :
    round M blockId timestamp state txRaw = ⟨none, none, state⟩ ∨
    ∃ tx, M.transactionStatelessCheck txRaw = .ok tx ∧
      let attempt : Call M := ⟨tx, state, blockId, timestamp⟩
      (∃ e, attempt.result = .error e ∧
        round M blockId timestamp state txRaw = ⟨some attempt, none, attempt.after⟩) ∨
      (∃ appliedTx, attempt.result = .ok appliedTx ∧
        let replay : Call M := ⟨appliedTx, attempt.after, blockId + 1, timestamp + 1⟩
        round M blockId timestamp state txRaw = ⟨some attempt, some replay, replay.after⟩) := by
  unfold round
  cases M.transactionStatelessCheck txRaw with
  | error e => exact Or.inl rfl
  | ok tx =>
    refine Or.inr ⟨tx, rfl, ?_⟩
    cases hresult : (⟨tx, state, blockId, timestamp⟩ : Call M).result with
    | error e => exact Or.inl ⟨e, hresult, by simp only [hresult]⟩
    | ok appliedTx => exact Or.inr ⟨appliedTx, hresult, by simp only [hresult]⟩

/-- A rejected call that matches the snapshots taken before it was isolated. -/
theorem RejectionCorrect.isolated {call : Call M}
    (hdec : ∀ id ∈ ids, (M.balance call.before id).isSome)
    (h : RejectionCorrect M call.after (recordedBalances M call.before ids)
      (nonceSnapshot M call.before ids)) : call.Isolated ids := by
  intro id hid
  obtain ⟨b, hb⟩ := Option.isSome_iff_exists.mp (hdec id hid)
  have hbal := h.balance id b (by rw [lookup_recordedBalances, if_pos hid, hb, Option.getD_some])
  have hnonce := h.nonce id _ (by rw [lookup_nonceSnapshot, if_pos hid])
  exact ⟨hbal.trans hb.symm, hnonce⟩

/-- In a correct round a rejected first attempt was isolated. -/
theorem RoundCorrect.attempt_isolated {r : Round M} (h : RoundCorrect ids r) {attempt : Call M}
    (hattempt : attempt ∈ r.attempt) (hrej : attempt.Rejected) : attempt.Isolated ids := by
  unfold Call.Rejected at hrej
  cases hresult : attempt.result with
  | error e =>
    exact RejectionCorrect.isolated (h.decodes attempt hattempt)
      (h.rejected attempt hattempt e hresult)
  | ok appliedTx =>
    rw [hresult] at hrej
    exact nomatch hrej

/-- In a correct round the replay was rejected. -/
theorem RoundCorrect.replay_rejected
    (h : RoundCorrect ids (round M blockId timestamp state txRaw)) {replay : Call M}
    (hreplay : replay ∈ (round M blockId timestamp state txRaw).replay) : replay.Rejected := by
  rcases round_cases blockId timestamp state txRaw with
    hr | ⟨tx, _, ⟨e, _, hr⟩ | ⟨appliedTx, hok, hr⟩⟩
  · rw [hr] at hreplay
    exact nomatch hreplay
  · rw [hr] at hreplay
    exact nomatch hreplay
  · rw [hr] at hreplay h
    obtain rfl := Option.mem_some.mp hreplay
    exact (h.accepted _ rfl appliedTx hok).replay_rejected

/-- What a round's replay did to the total of the listed accounts. -/
def replayChange (ids : List AccountId) (r : Round M) : ℤ :=
  match r.replay with
  | none => 0
  | some replay => totalNat M replay.after ids - totalNat M replay.before ids

/-- A correct round moves the total only by what its replay does. -/
theorem RoundCorrect.total_after (hnd : ids.Nodup)
    (h : RoundCorrect ids (round M blockId timestamp state txRaw)) :
    (totalNat M (round M blockId timestamp state txRaw).after ids : ℤ) =
      totalNat M state ids + replayChange ids (round M blockId timestamp state txRaw) := by
  rcases round_cases blockId timestamp state txRaw with
    hr | ⟨tx, _, ⟨e, herr, hr⟩ | ⟨appliedTx, hok, hr⟩⟩
  · simp [hr, replayChange]
  · rw [hr] at h ⊢
    have hisolated := h.attempt_isolated rfl (by rw [Call.Rejected, herr]; rfl)
    have htotal := totalNat_congr fun id hid => (hisolated id hid).1
    simp [replayChange, htotal]
  · -- the first attempt conserved the total, so only the replay is left
    rw [hr] at h ⊢
    have hconserved := (h.accepted _ rfl appliedTx hok).conserved
    rw [snapshotTotal_recordedBalances hnd, totalNat_keys hnd] at hconserved
    simp only [replayChange] at hconserved ⊢
    omega

/-- The genesis total moves only by what the rejected replays do to it. -/
theorem total_endState (hnd : ids.Nodup) {timestampOf : ℕ → U64} {i : ℕ} {state : M.State}
    {txs : List M.Tx} (h : ∀ r ∈ rounds M timestampOf i state txs, RoundCorrect ids r) :
    (totalNat M (endState M timestampOf i state txs) ids : ℤ) =
      totalNat M state ids +
        ((rounds M timestampOf i state txs).map (replayChange ids)).sum := by
  induction txs generalizing i state with
  | nil => simp [endState, rounds]
  | cons txRaw txs ih =>
    rw [rounds, List.forall_mem_cons] at h
    have hhead := h.1.total_after hnd
    have htail := ih h.2
    rw [endState, rounds, List.map_cons, List.sum_cons]
    omega

end OneRound

/-! ## Finished runs -/

/-- Every round is one of a transaction of the list, in some state. -/
private theorem mem_rounds {M : Machine} {timestampOf : ℕ → U64} {i : ℕ} {state : M.State}
    {txs : List M.Tx} {r : Round M} (h : r ∈ rounds M timestampOf i state txs) :
    ∃ blockId timestamp state txRaw, r = round M blockId timestamp state txRaw := by
  induction txs generalizing i state with
  | nil => exact nomatch h
  | cons txRaw txs ih =>
    rw [rounds, List.mem_cons] at h
    cases h with
    | inl h => exact ⟨_, _, _, _, h⟩
    | inr h => exact ih h

/-- The rounds of `fuzz_multi_block_state_sequence`. -/
def multiBlockRounds (M : Machine) (state : M.State) (txs : List M.Tx) : List (Round M) :=
  rounds M (fun i => .ofNat 64 i * 1000) 0 state txs

/-- If the target finishes, every first attempt that was rejected left balance and nonce
    of every genesis account as they were before it, every replay was rejected, and the
    replays together left the genesis total as it was. -/
theorem fuzzMultiBlockStateSequence_isolation (M : Machine) (initAccs : List (AccountId × U128))
    (state state' : M.State) (txs : List M.Tx)
    (h : fuzzMultiBlockStateSequence M initAccs state txs = .ok state') :
    (∀ r ∈ multiBlockRounds M state txs,
      (∀ attempt ∈ r.attempt, attempt.Rejected → attempt.Isolated (initAccs.map Prod.fst)) ∧
      ∀ replay ∈ r.replay, replay.Rejected) ∧
    ((initAccs.map Prod.fst).Nodup →
      ((multiBlockRounds M state txs).map (replayChange (initAccs.map Prod.fst))).sum = 0) := by
  rw [fuzzMultiBlockStateSequence] at h
  obtain ⟨startingTotal, hstart, h⟩ := Except.bind_eq_ok_iff.mp h
  obtain ⟨state₁, hloop, h⟩ := Except.bind_eq_ok_iff.mp h
  obtain ⟨endingTotal, hend, h⟩ := Except.bind_eq_ok_iff.mp h
  obtain ⟨_, htotals, _⟩ := Except.bind_eq_ok_iff.mp h
  obtain ⟨hcorrect, rfl⟩ := applyTransactions_eq_ok_iff.mp hloop
  have heq := Except.assert_eq_ok_iff.mp htotals
  have hstartNat := (sumNativeBalances_eq_ok_iff.mp hstart).2
  have hendNat := (sumNativeBalances_eq_ok_iff.mp hend).2
  refine ⟨fun r hr => ⟨fun attempt ha hrej => ?_, fun replay hreplay => ?_⟩, fun hnd => ?_⟩
  · exact (hcorrect r hr).attempt_isolated ha hrej
  · obtain ⟨blockId, timestamp, s, txRaw, rfl⟩ := mem_rounds hr
    exact (hcorrect _ hr).replay_rejected hreplay
  · have htotal := total_endState hnd hcorrect
    rw [hstartNat, hendNat, heq] at htotal
    simp only [multiBlockRounds]
    omega

/-- Every listed balance decodes, and together they fit a `u128`. -/
structure TotalFits (M : Machine) (state : M.State) (ids : List AccountId) : Prop where
  decodes : ∀ id ∈ ids, (M.balance state id).isSome
  lt : totalNat M state ids < 2 ^ 128

/-- A checked sum over a state returns exactly when the total fits. -/
theorem sumNativeBalances_of_fits {M : Machine} {state : M.State} {ids : List AccountId}
    (h : TotalFits M state ids) (overflow : Panic) : ∃ total : U128,
      sumNativeBalances M state ids overflow = .ok total ∧
        totalNat M state ids = total.toNat := by
  obtain ⟨total, htotal⟩ := BitVec.exists_toNat_eq h.lt
  exact ⟨total, sumNativeBalances_eq_ok_iff.mpr ⟨h.decodes, htotal⟩, htotal⟩

/-- The final check compares the two totals, once both fit. -/
theorem fuzzMultiBlockStateSequence_of_fits {M : Machine} {initAccs : List (AccountId × U128)}
    {state state' : M.State} {txs : List M.Tx}
    (hloop : applyTransactions M initAccs (fun i => .ofNat 64 i * 1000) 0 state txs = .ok state')
    (hstart : TotalFits M state (initAccs.map Prod.fst))
    (hend : TotalFits M state' (initAccs.map Prod.fst)) :
    (fuzzMultiBlockStateSequence M initAccs state txs).Returns ↔
      totalNat M state (initAccs.map Prod.fst) = totalNat M state' (initAccs.map Prod.fst) := by
  unfold fuzzMultiBlockStateSequence
  obtain ⟨startingTotal, hstartSum, hstartNat⟩ := sumNativeBalances_of_fits hstart _
  obtain ⟨endingTotal, hendSum, hendNat⟩ := sumNativeBalances_of_fits hend _
  rw [hstartSum, Except.ok_bind, hloop, Except.ok_bind, hendSum, Except.ok_bind,
    Except.returns_assert_bind_iff, hstartNat, hendNat, BitVec.toNat_inj]
  exact and_iff_left (Except.returns_ok _)

/-- A round's replay left every listed balance alone. -/
def ReplayHarmless {M : Machine} (ids : List AccountId) (r : Round M) : Prop :=
  ∀ replay ∈ r.replay, ∀ id ∈ ids, M.balance replay.after id = M.balance replay.before id

/-- A harmless replay does not change the total. -/
theorem ReplayHarmless.replayChange_eq {M : Machine} {ids : List AccountId} {r : Round M}
    (h : ReplayHarmless ids r) : replayChange ids r = 0 := by
  unfold replayChange
  cases hreplay : r.replay with
  | none => rfl
  | some replay =>
    have htotal := totalNat_congr (h replay hreplay)
    simp only [htotal]
    omega

section Harmless

variable {M : Machine} {ids : List AccountId}

/-- Balances that decode still decode after a correct round with a harmless replay. -/
theorem RoundCorrect.decodes_after {blockId timestamp : U64} {state : M.State} {txRaw : M.Tx}
    (h : RoundCorrect ids (round M blockId timestamp state txRaw))
    (hharmless : ReplayHarmless ids (round M blockId timestamp state txRaw))
    (hdec : ∀ id ∈ ids, (M.balance state id).isSome) :
    ∀ id ∈ ids, (M.balance (round M blockId timestamp state txRaw).after id).isSome := by
  intro id hid
  rcases round_cases blockId timestamp state txRaw with
    hr | ⟨tx, _, ⟨e, herr, hr⟩ | ⟨appliedTx, hok, hr⟩⟩
  · rw [hr]
    exact hdec id hid
  · rw [hr] at h ⊢
    have hisolated := h.attempt_isolated rfl (by rw [Call.Rejected, herr]; rfl)
    have hbal := (hisolated id hid).1
    rw [hbal]
    exact hdec id hid
  · -- the accepted attempt left balances that decode, and the replay left those alone
    rw [hr] at h hharmless ⊢
    have hafter := (h.accepted _ rfl appliedTx hok).decodes id (by
      rw [← AList.lookup_isSome, lookup_recordedBalances, if_pos hid]
      rfl)
    have hbal := hharmless _ rfl id hid
    rw [hbal]
    exact hafter

/-- Without harm done by replays, all balances decode to the end of the run. -/
theorem decodes_endState {timestampOf : ℕ → U64} {i : ℕ} {state : M.State} {txs : List M.Tx}
    (h : ∀ r ∈ rounds M timestampOf i state txs, RoundCorrect ids r)
    (hharmless : ∀ r ∈ rounds M timestampOf i state txs, ReplayHarmless ids r)
    (hdec : ∀ id ∈ ids, (M.balance state id).isSome) :
    ∀ id ∈ ids, (M.balance (endState M timestampOf i state txs) id).isSome := by
  induction txs generalizing i state with
  | nil => exact hdec
  | cons txRaw txs ih =>
    rw [rounds, List.forall_mem_cons] at h hharmless
    exact ih h.2 hharmless.2 (h.1.decodes_after hharmless.1 hdec)

end Harmless

/-- What the long-range check adds to a loop that has passed every check of its own: the
    genesis total has moved by what the rejected replays did to it. So the check passes
    exactly when these changes cancel, and where replays leave balances alone the target
    can only stop at the sum it starts with. -/
theorem fuzzMultiBlockStateSequence_longRange (M : Machine) (initAccs : List (AccountId × U128))
    (hnd : (initAccs.map Prod.fst).Nodup) (state state' : M.State) (txs : List M.Tx)
    (hloop : applyTransactions M initAccs (fun i => .ofNat 64 i * 1000) 0 state txs =
      .ok state') :
    let ids := initAccs.map Prod.fst
    let rs := multiBlockRounds M state txs
    (∀ r ∈ rs, ∀ replay ∈ r.replay, replay.Rejected) ∧
    (totalNat M state' ids : ℤ) - totalNat M state ids = (rs.map (replayChange ids)).sum ∧
    (TotalFits M state ids → TotalFits M state' ids →
      ((fuzzMultiBlockStateSequence M initAccs state txs).Returns ↔
        (rs.map (replayChange ids)).sum = 0)) ∧
    ((∀ r ∈ rs, ReplayHarmless ids r) →
      ((fuzzMultiBlockStateSequence M initAccs state txs).Returns ↔ TotalFits M state ids)) := by
  intro ids rs
  obtain ⟨hcorrect, hstate⟩ := applyTransactions_eq_ok_iff.mp hloop
  have htotal := total_endState hnd hcorrect
  rw [← hstate] at htotal
  have hchange : (totalNat M state' ids : ℤ) - totalNat M state ids =
      (rs.map (replayChange ids)).sum := by
    simp only [ids, rs, multiBlockRounds]
    omega
  refine ⟨fun r hr replay hreplay => ?_, hchange, fun hstart hend => ?_, fun hharmless => ?_⟩
  · obtain ⟨blockId, timestamp, s, txRaw, rfl⟩ := mem_rounds hr
    exact (hcorrect _ hr).replay_rejected hreplay
  · rw [fuzzMultiBlockStateSequence_of_fits hloop hstart hend]
    simp only [ids] at hchange ⊢
    omega
  · constructor
    · intro hret
      rw [fuzzMultiBlockStateSequence] at hret
      obtain ⟨total, hsum, _⟩ := Except.returns_bind_iff.mp hret
      obtain ⟨hdec, hnat⟩ := sumNativeBalances_eq_ok_iff.mp hsum
      exact ⟨hdec, hnat ▸ total.isLt⟩
    · intro hstart
      -- nothing moved, so the second sum is the first one
      have hzero : (rs.map (replayChange ids)).sum = 0 := by
        refine List.sum_eq_zero fun c hc => ?_
        obtain ⟨r, hr, rfl⟩ := List.mem_map.mp hc
        exact (hharmless r hr).replayChange_eq
      have heq : totalNat M state' ids = totalNat M state ids := by omega
      have hend : TotalFits M state' ids := by
        refine ⟨?_, heq ▸ hstart.lt⟩
        rw [hstate]
        exact decodes_endState hcorrect hharmless hstart.decodes
      exact (fuzzMultiBlockStateSequence_of_fits hloop hstart hend).mpr heq.symm

/-- Burn everybody's nonce, and move one coin from account 1 to account 2. -/
def leak (state : ReferenceState) : ReferenceState := fun id =>
  let moved := if id = ⟨1⟩ then (state id).data - 1 else
    if id = ⟨2⟩ then (state id).data + 1 else (state id).data
  ⟨(state id).nonce + 1, moved⟩

/-- A machine that leaks whenever it rejects a transaction. -/
def leakyMachine : Machine := { plainMachine with
  executeCheckOnState := fun tx state blockId timestamp =>
    match plainMachine.executeCheckOnState tx state blockId timestamp with
    | (.error e, state) => (.error e, leak state)
    | (.ok appliedTx, state) => (.ok appliedTx, state) }

/-- A transfer of 4 from account 1 to account 2, as a transaction of `leakyMachine`. -/
def leakyTransfer : leakyMachine.Tx := .Public (.inl (plainTransfer 1 0 2 4))

/-- The one round of the transfer and its rejected replay passes on `leakyMachine`. -/
theorem fuzzMultiBlockStateSequence_isolation_leaky :
    let rs := multiBlockRounds leakyMachine (ReferenceState.genesis [(⟨1⟩, 10), (⟨2⟩, 3)])
      [leakyTransfer]
    rs.length = 1 ∧ ∀ r ∈ rs, ∀ replay ∈ r.replay, replay.Rejected :=
  ⟨rfl, fun r hr => ((fuzzMultiBlockStateSequence_isolation leakyMachine [(⟨1⟩, 10), (⟨2⟩, 3)]
    (ReferenceState.genesis [(⟨1⟩, 10), (⟨2⟩, 3)]) _ [leakyTransfer] rfl).1 r hr).2⟩

/-- On `leakyMachine` the replay burns nonces and moves a coin within the total, so the
    long-range check passes. -/
theorem fuzzMultiBlockStateSequence_longRange_leaky :
    (fuzzMultiBlockStateSequence leakyMachine [(⟨1⟩, 10), (⟨2⟩, 3)]
      (ReferenceState.genesis [(⟨1⟩, 10), (⟨2⟩, 3)]) [leakyTransfer]).Returns :=
  ((fuzzMultiBlockStateSequence_longRange leakyMachine [(⟨1⟩, 10), (⟨2⟩, 3)] (by decide)
    (ReferenceState.genesis [(⟨1⟩, 10), (⟨2⟩, 3)]) _ [leakyTransfer] rfl).2.2.1
    ⟨by decide, by decide⟩ ⟨by decide, by decide⟩).mpr (by decide)

/-- Replay attempts are not covered: `leakyMachine` finishes a run in which the rejected
    replay changed the nonces and the balances of both genesis accounts. -/
theorem fuzzMultiBlockStateSequence_replay_not_isolated :
    ¬ ∀ (M : Machine) (initAccs : List (AccountId × U128)) (state state' : M.State)
      (txs : List M.Tx), (initAccs.map Prod.fst).Nodup →
      fuzzMultiBlockStateSequence M initAccs state txs = .ok state' →
      ∀ r ∈ multiBlockRounds M state txs, ∀ call, call ∈ r.attempt ∨ call ∈ r.replay →
        call.Rejected → call.Isolated (initAccs.map Prod.fst) := by
  intro h
  have hreplay := h leakyMachine [(⟨1⟩, 10), (⟨2⟩, 3)]
    (ReferenceState.genesis [(⟨1⟩, 10), (⟨2⟩, 3)]) _ [leakyTransfer] (by decide) rfl
    _ List.mem_cons_self _ (Or.inr rfl) rfl ⟨1⟩ List.mem_cons_self
  exact absurd hreplay.1 (by decide)

end LezFuzzing.Spec
