import Mathlib

/-!
# Ledgers with numbered transfers

A ledger of accounts, each with a balance and the number of its next transfer.
A transfer is accepted when it carries its sender's next number and its sender can
pay it; it is then booked by debit, credit and renumbering. Amounts and numbers are
natural numbers, so nothing here depends on a machine width; a program whose
integers can overflow refines this ledger as long as its supply fits.

`Chain b h` says that the transfers `h` are accepted one after the other from `b`.
The results below hold for every chain, of any length, over any type of accounts.

## Key results

- `balance_applyAll`: a balance is what it was, plus receipts, minus payments
- `total_applyAll`: the total over any set that the transfers stay in is conserved
- `nonces_eq_range`: a sender's accepted numbers are consecutive, in order
- `not_accepts_of_mem`: an accepted transfer is never accepted again
-/

namespace Ledger

/-- A transfer from `src` to `dst`, numbered by its sender. -/
structure Transfer (ι : Type) where
  src : ι
  dst : ι
  nonce : ℕ
  amount : ℕ
  deriving DecidableEq

/-- Every account's balance and the number its next transfer must carry. -/
@[ext] structure Book (ι : Type) where
  balance : ι → ℕ
  nonce : ι → ℕ

variable {ι : Type} [DecidableEq ι]

namespace Book

/-- The sender's next number, and an amount the sender can pay. -/
def Accepts (b : Book ι) (t : Transfer ι) : Prop :=
  t.nonce = b.nonce t.src ∧ t.amount ≤ b.balance t.src

/-- Debit the sender, credit the recipient, renumber the sender. -/
def apply (b : Book ι) (t : Transfer ι) : Book ι where
  balance a := (b.balance a + if a = t.dst then t.amount else 0) -
    if a = t.src then t.amount else 0
  nonce a := b.nonce a + if a = t.src then 1 else 0

/-- Book a list of transfers, first to last. -/
def applyAll (b : Book ι) (h : List (Transfer ι)) : Book ι := h.foldl apply b

/-- Each transfer of the list is accepted when its turn comes. -/
def Chain : Book ι → List (Transfer ι) → Prop
  | _, [] => True
  | b, t :: h => b.Accepts t ∧ (b.apply t).Chain h

/-- The balances of a set of accounts, added up. -/
def total (b : Book ι) (S : Finset ι) : ℕ := ∑ a ∈ S, b.balance a

end Book

/-- How many of the transfers `a` sent. -/
def numSent (h : List (Transfer ι)) (a : ι) : ℕ := h.countP (·.src = a)

/-- What `a` paid in the transfers. -/
def sent (h : List (Transfer ι)) (a : ι) : ℕ := ((h.filter (·.src = a)).map (·.amount)).sum

/-- What `a` received in the transfers. -/
def received (h : List (Transfer ι)) (a : ι) : ℕ := ((h.filter (·.dst = a)).map (·.amount)).sum

variable {b : Book ι} {t : Transfer ι} {h : List (Transfer ι)}

/-! ## Lists of transfers -/

@[simp] theorem Book.applyAll_nil (b : Book ι) : b.applyAll [] = b := rfl

@[simp] theorem Book.applyAll_cons (b : Book ι) (t : Transfer ι) (h : List (Transfer ι)) :
    b.applyAll (t :: h) = (b.apply t).applyAll h := rfl

/-- Booking one more transfer at the end. -/
theorem Book.applyAll_concat (b : Book ι) (h : List (Transfer ι)) (t : Transfer ι) :
    b.applyAll (h ++ [t]) = (b.applyAll h).apply t := by
  simp [Book.applyAll]

/-- A chain extended at the end. -/
theorem Book.chain_concat {b : Book ι} {h : List (Transfer ι)} {t : Transfer ι} :
    b.Chain (h ++ [t]) ↔ b.Chain h ∧ (b.applyAll h).Accepts t := by
  induction h generalizing b with
  | nil => simp [Book.Chain]
  | cons u h ih => simp [Book.Chain, ih, and_assoc]

theorem numSent_cons (a : ι) :
    numSent (t :: h) a = (if a = t.src then 1 else 0) + numSent h a := by
  by_cases hsrc : a = t.src
  · simp [numSent, hsrc, Nat.add_comm]
  · simp [numSent, hsrc, Ne.symm hsrc]

theorem sent_cons (a : ι) :
    sent (t :: h) a = (if a = t.src then t.amount else 0) + sent h a := by
  by_cases hsrc : a = t.src
  · simp [sent, hsrc]
  · simp [sent, hsrc, Ne.symm hsrc]

theorem received_cons (a : ι) :
    received (t :: h) a = (if a = t.dst then t.amount else 0) + received h a := by
  by_cases hdst : a = t.dst
  · simp [received, hdst]
  · simp [received, hdst, Ne.symm hdst]

/-! ## Balances -/

/-- One accepted transfer, as an equation without subtraction. -/
theorem balance_apply (hacc : b.Accepts t) (a : ι) :
    (b.apply t).balance a + (if a = t.src then t.amount else 0) =
      b.balance a + if a = t.dst then t.amount else 0 := by
  have hpay := hacc.2
  simp only [Book.apply]
  by_cases hsrc : a = t.src
  · subst hsrc
    simp only [↓reduceIte]
    omega
  · simp [hsrc]

/-- A balance is what it was, plus everything received, minus everything sent. -/
theorem balance_applyAll (hc : b.Chain h) (a : ι) :
    (b.applyAll h).balance a + sent h a = b.balance a + received h a := by
  induction h generalizing b with
  | nil => simp [sent, received]
  | cons t h ih =>
    have hstep := balance_apply hc.1 a
    have hrest := ih hc.2
    rw [Book.applyAll_cons, sent_cons, received_cons]
    omega

/-- One accepted transfer inside `S` conserves the total of `S`. -/
theorem total_apply (hacc : b.Accepts t) {S : Finset ι} (hsrc : t.src ∈ S) (hdst : t.dst ∈ S) :
    (b.apply t).total S = b.total S := by
  have hsum := Finset.sum_congr (rfl : S = S) fun a _ => balance_apply hacc a
  rw [Finset.sum_add_distrib, Finset.sum_add_distrib, Finset.sum_ite_eq', Finset.sum_ite_eq',
    if_pos hsrc, if_pos hdst] at hsum
  exact Nat.add_right_cancel hsum

/-- A chain inside `S` conserves the total of `S`. -/
theorem total_applyAll (hc : b.Chain h) {S : Finset ι}
    (hS : ∀ t ∈ h, t.src ∈ S ∧ t.dst ∈ S) : (b.applyAll h).total S = b.total S := by
  induction h generalizing b with
  | nil => rfl
  | cons t h ih =>
    obtain ⟨hsrc, hdst⟩ := hS t List.mem_cons_self
    rw [Book.applyAll_cons, ih hc.2 fun u hu => hS u (List.mem_cons_of_mem _ hu),
      total_apply hc.1 hsrc hdst]

/-- Two accounts of `S` hold at most the total of `S`. -/
theorem add_balance_le_total (b : Book ι) {S : Finset ι} {a c : ι} (hac : a ≠ c)
    (ha : a ∈ S) (hcS : c ∈ S) : b.balance a + b.balance c ≤ b.total S := by
  rw [← Finset.sum_pair hac]
  exact Finset.sum_le_sum_of_subset (Finset.insert_subset ha (Finset.singleton_subset_iff.mpr hcS))

/-! ## Numbers -/

/-- A sender's number counts its transfers. -/
theorem nonce_applyAll (b : Book ι) (h : List (Transfer ι)) (a : ι) :
    (b.applyAll h).nonce a = b.nonce a + numSent h a := by
  induction h generalizing b with
  | nil => simp [numSent]
  | cons t h ih =>
    rw [Book.applyAll_cons, ih, numSent_cons]
    simp only [Book.apply]
    omega

/-- A sender's accepted numbers are consecutive, in the order of acceptance. -/
theorem nonces_eq_range (hc : b.Chain h) (a : ι) :
    (h.filter (·.src = a)).map (·.nonce) = List.range' (b.nonce a) (numSent h a) := by
  induction h generalizing b with
  | nil => simp [numSent]
  | cons t h ih =>
    have hrest := ih hc.2
    have hnonce : (b.apply t).nonce a = b.nonce a + if a = t.src then 1 else 0 := rfl
    by_cases hsrc : a = t.src
    · subst hsrc
      rw [hnonce, if_pos rfl] at hrest
      rw [numSent_cons, if_pos rfl, Nat.add_comm, List.range'_succ, ← hrest,
        List.filter_cons_of_pos (by simp), List.map_cons, hc.1.1]
    · rw [hnonce, if_neg hsrc, Nat.add_zero] at hrest
      rw [numSent_cons, if_neg hsrc, Nat.zero_add, ← hrest,
        List.filter_cons_of_neg (by simpa using Ne.symm hsrc)]

/-- The numbers of accepted transfers are behind their sender's number. -/
theorem nonce_lt_of_mem (hc : b.Chain h) (ht : t ∈ h) :
    t.nonce < (b.applyAll h).nonce t.src := by
  have hmem : t.nonce ∈ (h.filter (·.src = t.src)).map (·.nonce) :=
    List.mem_map_of_mem (List.mem_filter.mpr ⟨ht, by simp⟩)
  rw [nonces_eq_range hc t.src, List.mem_range'_1] at hmem
  rw [nonce_applyAll]
  exact hmem.2

/-- No transfer of a chain is accepted again after the chain. -/
theorem not_accepts_of_mem (hc : b.Chain h) (ht : t ∈ h) : ¬ (b.applyAll h).Accepts t :=
  fun hacc => Nat.ne_of_lt (nonce_lt_of_mem hc ht) hacc.1

/-- No sender uses a number twice. -/
theorem nodup_src_nonce (hc : b.Chain h) : (h.map fun t => (t.src, t.nonce)).Nodup := by
  induction h generalizing b with
  | nil => simp
  | cons t h ih =>
    rw [List.map_cons, List.nodup_cons]
    refine ⟨fun hmem => ?_, ih hc.2⟩
    obtain ⟨u, hu, heq⟩ := List.mem_map.mp hmem
    obtain ⟨hsrc, hnonce⟩ := Prod.mk.inj heq
    -- `u` comes later, so it carries at least the number that follows `t`'s
    have hmem' : u.nonce ∈ (h.filter (·.src = u.src)).map (·.nonce) :=
      List.mem_map_of_mem (List.mem_filter.mpr ⟨hu, by simp⟩)
    rw [nonces_eq_range hc.2, List.mem_range'_1] at hmem'
    have hnext : (b.apply t).nonce u.src = t.nonce + 1 := by
      simp [Book.apply, hsrc, hc.1.1]
    omega

end Ledger
