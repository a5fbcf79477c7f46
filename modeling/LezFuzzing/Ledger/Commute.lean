import LezFuzzing.Ledger.Book

/-!
# Transfers that do not interfere

Submitting a transfer books it if it is accepted and ignores it otherwise. Whether it is
accepted depends on its sender's entries only, so two transfers do not interfere when
neither touches the other's sender. They may share a recipient, since credits add up in
any order.

## Key results

- `Apart.accepts_submit_iff`: submitting one transfer does not change the other's verdict
- `Apart.submit_comm`: the two orders of submission end in the same book
- `submitAll_perm`: so does every order of a list of pairwise non-interfering transfers
-/

namespace Ledger

variable {ι : Type} [DecidableEq ι]

instance (b : Book ι) (t : Transfer ι) : Decidable (b.Accepts t) :=
  inferInstanceAs (Decidable (_ ∧ _))

/-- Book an accepted transfer, ignore any other. -/
def Book.submit (b : Book ι) (t : Transfer ι) : Book ι :=
  if b.Accepts t then b.apply t else b

/-- Submit a list of transfers, first to last. -/
def Book.submitAll (b : Book ι) (h : List (Transfer ι)) : Book ι := h.foldl Book.submit b

/-- Neither transfer touches the other's sender. -/
structure Apart (t u : Transfer ι) : Prop where
  src_ne_src : t.src ≠ u.src
  src_ne_dst : t.src ≠ u.dst
  dst_ne_src : t.dst ≠ u.src

variable {b : Book ι} {t u : Transfer ι}

omit [DecidableEq ι] in
theorem Apart.symm (h : Apart t u) : Apart u t :=
  ⟨h.src_ne_src.symm, h.dst_ne_src.symm, h.src_ne_dst.symm⟩

/-- Booking a transfer leaves the entries of the other's sender alone. -/
theorem Apart.apply_src (h : Apart t u) :
    (b.apply t).balance u.src = b.balance u.src ∧ (b.apply t).nonce u.src = b.nonce u.src := by
  have hsrc := h.src_ne_src.symm
  have hdst := h.dst_ne_src.symm
  simp [Book.apply, hsrc, hdst]

/-- So does submitting it. -/
theorem Apart.submit_src (h : Apart t u) :
    (b.submit t).balance u.src = b.balance u.src ∧
      (b.submit t).nonce u.src = b.nonce u.src := by
  unfold Book.submit
  split
  · exact h.apply_src
  · exact ⟨rfl, rfl⟩

/-- Submitting one transfer does not change the verdict on the other. -/
theorem Apart.accepts_submit_iff (h : Apart t u) : (b.submit t).Accepts u ↔ b.Accepts u := by
  obtain ⟨hbalance, hnonce⟩ := h.submit_src (b := b)
  rw [Book.Accepts, Book.Accepts, hbalance, hnonce]

/-- Two transfers apart are booked in either order with the same result. -/
theorem Apart.apply_comm (h : Apart t u) : (b.apply t).apply u = (b.apply u).apply t := by
  have hsrc := h.src_ne_src
  have hsrcDst := h.src_ne_dst
  have hdstSrc := h.dst_ne_src
  ext a
  · -- a sender is touched by its own transfer only, anything else is only credited
    simp only [Book.apply]
    by_cases ht : a = t.src
    · have hu : a ≠ u.src := fun hu => hsrc (ht.symm.trans hu)
      have hud : a ≠ u.dst := fun hud => hsrcDst (ht.symm.trans hud)
      simp [hu, hud]
    · by_cases hu : a = u.src
      · have htd : a ≠ t.dst := fun htd => hdstSrc (htd.symm.trans hu)
        simp [ht, htd]
      · simp only [if_neg ht, if_neg hu]
        omega
  · simp only [Book.apply]
    omega

/-- Two transfers apart are submitted in either order with the same result. -/
theorem Apart.submit_comm (h : Apart t u) : (b.submit t).submit u = (b.submit u).submit t := by
  have hu : (b.submit t).Accepts u ↔ b.Accepts u := h.accepts_submit_iff
  have ht : (b.submit u).Accepts t ↔ b.Accepts t := h.symm.accepts_submit_iff
  rw [Book.submit, if_congr hu rfl rfl, Book.submit.eq_1 (b.submit u) t, if_congr ht rfl rfl,
    Book.submit, Book.submit]
  by_cases hat : b.Accepts t
  · by_cases hau : b.Accepts u
    · simp only [if_pos hat, if_pos hau]
      exact h.apply_comm
    · simp only [if_pos hat, if_neg hau]
  · simp only [if_neg hat]

/-- Every order of a list of pairwise non-interfering transfers ends in the same book. -/
theorem submitAll_perm {h h' : List (Transfer ι)} (hapart : h.Pairwise Apart) (hperm : h.Perm h')
    (b : Book ι) : b.submitAll h = b.submitAll h' := by
  have hcomm : h.Pairwise fun t u =>
      ∀ b : Book ι, (b.submit t).submit u = (b.submit u).submit t :=
    hapart.imp fun hab b => hab.submit_comm
  refine hperm.foldl_eq' ?_ b
  refine hcomm.forall_of_forall_of_flip (fun t _ b => rfl) (hcomm.imp fun hab b => ?_)
  exact (hab b).symm

end Ledger
