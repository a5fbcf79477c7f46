import LezFuzzing.Native.Harness
import LezFuzzing.Native.PrivacyGenerators

/-!
# Two conflicting transactions in both orders (`fuzz_transaction_ordering_independence.rs`)

The target draws a pair that declares one nullifier and applies it in both orders to
copies of the same state. Transactions that are drawn first seed that state.
-/

namespace LezFuzzing.Native

variable (M : Machine)

/-- Apply the stateless gate and wrap for execution. -/
def gate (tx : M.PrivacyPreservingTransaction) : Option M.Tx :=
  (M.transactionStatelessCheck (.PrivacyPreserving tx)).toOption

/-- Two transactions in turn at block 1 and timestamp 0: which of them are accepted. -/
def acceptedInOrder (base : M.State) (first second : M.Tx) : Bool × Bool :=
  let (r₁, state) := M.executeCheckOnState first base 1 0
  let (r₂, _) := M.executeCheckOnState second state 1 0
  (r₁.isOk, r₂.isOk)

variable {M} (P : PrivacyCrates M) (u : Unstructured)

/-- The two orders and the assertions, for a drawn pair. -/
def assertOrderIndependence (base : M.State) (txB txC : M.PrivacyPreservingTransaction) :
    Except Panic Unit :=
  match gate M txB, gate M txC, gate M txB, gate M txC with
  | some b1, some c1, some b2, some c2 => do
    -- the block and the time are the same in both orders
    let (rb1, rc1) := acceptedInOrder M base b1 c1
    let (rc2, rb2) := acceptedInOrder M base c2 b2
    Except.assert (!(rb1 && rc1)) (.violation "NoDoubleSpend"
      ("both conflicting transactions accepted in order B→C — " ++
        "the shared nullifier was double-spent"))
    Except.assert (!(rc2 && rb2)) (.violation "NoDoubleSpend"
      ("both conflicting transactions accepted in order C→B — " ++
        "the shared nullifier was double-spent"))
    let acceptedBc := rb1.toNat + rc1.toNat
    let acceptedCb := rb2.toNat + rc2.toNat
    Except.assert (acceptedBc = acceptedCb) (.violation "OrderIndependentAcceptance"
      (s!"{acceptedBc} of the pair accepted as B→C but {acceptedCb} as C→B — " ++
        "transaction acceptance is order-dependent"))
  | _, _, _, _ => return ()

/-- `fuzz_transaction_ordering_independence`, from its seeded base on. -/
def fuzzTransactionOrderingIndependence (base : M.State) (fuzzAccs : List (FuzzAccount M.toKeys))
    (input : u.Bytes) : Except Panic Unit :=
  match (arbConflictingNullifierPair P u base fuzzAccs input).1 with
  | .ok (txB, txC) => assertOrderIndependence base txB txC
  | .error (.err _) => return ()
  | .error (.panic p) => throw p

/-- Execute a seeding transaction that passes the gate; what comes of it does not matter. -/
def applySeed (i : ℕ) (base : M.State) (tx : M.PrivacyPreservingTransaction) : M.State :=
  match gate M tx with
  | none => base
  | some lee => (M.executeCheckOnState lee base (1 + .ofNat 64 i) (.ofNat 64 i)).2

/-- `fuzz_transaction_ordering_independence` -/
def fuzzTransactionOrderingIndependenceEntry (G : GenesisCrates M)
    (C : EffectCrates P.toPrivacyTypes) : Gen u.Bytes GenError Unit :=
  withFuzzState G u fun fuzzAccs base =>
    if fuzzAccs.length < 2 then
      return ()
    else do
      let byte ← unwrapOr u.u8 0
      let nSeed := byte.toNat % 4
      let base ← forDrawn nSeed base (fun base => arbPrivacyPreservingTx P C u base fuzzAccs)
        fun i base tx => .ok (applySeed i base tx)
      match ← attempt (arbConflictingNullifierPair P u base fuzzAccs) with
      | none => return ()
      | some (txB, txC) => checked (assertOrderIndependence base txB txC)

end LezFuzzing.Native
