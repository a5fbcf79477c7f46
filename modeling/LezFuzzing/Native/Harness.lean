import LezFuzzing.ForStd.Drive
import LezFuzzing.Native.Generators
import LezFuzzing.Native.Genesis

/-!
# The frame of a fuzz target

A target receives the fuzzer's bytes, draws what it needs, and either returns or panics.
An `Err` of a generator is always dealt with: it ends the target or its loop, or it is
replaced by a default. So a target is a generator that can only fail with a panic.
-/

namespace LezFuzzing.Native

/-- An `Err`, as opposed to a panic. -/
def GenError.isErr : GenError → Bool
  | .err _ => true
  | .panic _ => false

variable {σ α S : Type}

/-- `T::arbitrary(u).ok()` -/
def attempt (g : Gen σ GenError α) : Gen σ GenError (Option α) := Gen.attempt GenError.isErr g

/-- Assertions inside a target. -/
def checked (x : Except Panic α) : Gen σ GenError α := Gen.lift GenError.panic x

/-- `for i in 0..n` over a body that draws, breaks on `Err`, and then asserts. -/
def forDrawn (n : ℕ) (state : S) (draw : S → Gen σ GenError α)
    (body : ℕ → S → α → Except Panic S) : Gen σ GenError S :=
  Gen.drive GenError.isErr GenError.panic draw body n 0 state

/-- The generated accounts as genesis receives them. -/
def initAccounts {K : Keys} (fuzzAccs : List (FuzzAccount K)) : List (AccountId × U128) :=
  fuzzAccs.map fun a => (a.accountId, a.balance)

/-- What most targets begin with: draw accounts, return on `Err`, and build their genesis. -/
def withFuzzState {M : Machine} (G : GenesisCrates M) (u : Unstructured)
    (target : List (FuzzAccount M.toKeys) → M.State → Gen u.Bytes GenError Unit) :
    Gen u.Bytes GenError Unit := do
  match ← attempt (arbitraryFuzzState M.toKeys u (reservedAccountIds G)) with
  | none => return ()
  | some fuzzAccs => target fuzzAccs (genesisState G (initAccounts fuzzAccs) [])

end LezFuzzing.Native
