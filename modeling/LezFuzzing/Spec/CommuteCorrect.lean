import LezFuzzing.Ledger.Commute
import LezFuzzing.Spec.ModelLedger

/-!
# Non-interfering transfers commute in the reference model

Submitting a list of transfers to the lockstep model is submitting it to the ledger the
model stands for, as long as no nonce runs out. Of two transfers that do not touch each
other's sender, neither changes the verdict on the other, and their bookings commute. The
recipients may coincide: the supply bounds what they can be credited with, so the model's
overflow branch, which would depend on the order, is never taken.

## Key results

- `submitAll_spec`: submitting a list refines the ledger, verdict by verdict
- `submitAll_commutes`: every order gives the same verdicts and the same map
-/

namespace LezFuzzing.Spec

open LezFuzzing.Native Ledger

/-- Submit transfers one after the other, and record whether each was accepted. -/
def submitAll : Model → List TransferFields → Except Panic (Model × List Bool)
  | model, [] => return (model, [])
  | model, t :: ts => do
    let verdict := (model.predict t.fromId t.toId t.declaredNonce t.amount).isAccept
    let model ← model.submit t
    let (model, verdicts) ← submitAll model ts
    return (model, verdict :: verdicts)

/-- Neither transfer sends from or to the account the other one sends from. -/
structure NonInterfering (t u : TransferFields) : Prop where
  fromId_ne_fromId : t.fromId ≠ u.fromId
  toId_ne_fromId : t.toId ≠ u.fromId
  fromId_ne_toId : t.fromId ≠ u.toId

theorem NonInterfering.apart {t u : TransferFields} (h : NonInterfering t u) :
    Apart (toTransfer t) (toTransfer u) :=
  ⟨h.fromId_ne_fromId, h.fromId_ne_toId, h.toId_ne_fromId⟩

section Submit

variable {S : Finset AccountId} {model : Model}

/-- One submission refines the ledger's. -/
theorem submit_eq_ok (hinv : ModelInv S model) {t : TransferFields} (ht : Between S t)
    (hnonce : (model.nonce t.fromId).toNat + 1 < 2 ^ 128) :
    ∃ model', model.submit t = .ok model' ∧ ModelInv S model' ∧
      toBook model' = (toBook model).submit (toTransfer t) := by
  rcases submit_spec hinv ht hnonce with ⟨hacc, hpredict, model', hrun, hinv', hbook⟩ | hrej
  · refine ⟨model', ?_, hinv', ?_⟩
    · rw [Model.submit, hpredict]
      exact hrun
    · rw [Book.submit, if_pos hacc, hbook]
  · refine ⟨model, ?_, hinv, ?_⟩
    · rw [Model.submit, hrej.2]
      rfl
    · rw [Book.submit, if_neg hrej.1]

/-- The verdict on a transfer, from the ledger. -/
def verdict (b : Book AccountId) (t : TransferFields) : Bool := decide (b.Accepts (toTransfer t))

/-- Submitting pairwise non-interfering transfers refines the ledger, and the verdicts are
    those of the book before the first of them. -/
theorem submitAll_spec (hinv : ModelInv S model) {ts : List TransferFields}
    (hts : ∀ t ∈ ts, Between S t) (hnonce : ∀ t ∈ ts, (model.nonce t.fromId).toNat + 1 < 2 ^ 128)
    (hapart : ts.Pairwise NonInterfering) :
    ∃ model', submitAll model ts = .ok (model', ts.map (verdict (toBook model))) ∧
      ModelInv S model' ∧ toBook model' = (toBook model).submitAll (ts.map toTransfer) := by
  induction ts generalizing model with
  | nil => exact ⟨model, rfl, hinv, rfl⟩
  | cons t ts ih =>
    rw [List.forall_mem_cons] at hts hnonce
    obtain ⟨hhead, htail⟩ := List.pairwise_cons.mp hapart
    obtain ⟨model₁, hsubmit, hinv₁, hbook₁⟩ := submit_eq_ok hinv hts.1 hnonce.1
    -- the senders still to come are as they were
    have hnonce₁ : ∀ u ∈ ts, (model₁.nonce u.fromId).toNat + 1 < 2 ^ 128 := by
      intro u hu
      have hsrc := ((hhead u hu).apart.submit_src (b := toBook model)).2
      rw [← hbook₁] at hsrc
      have hsame : (model₁.nonce u.fromId).toNat = (model.nonce u.fromId).toNat := hsrc
      rw [hsame]
      exact hnonce.2 u hu
    have hverdict : ts.map (verdict (toBook model₁)) = ts.map (verdict (toBook model)) := by
      refine List.map_congr_left fun u hu => ?_
      unfold verdict
      rw [hbook₁, decide_eq_decide]
      exact (hhead u hu).apart.accepts_submit_iff
    obtain ⟨model', hrun, hinv', hbook'⟩ := ih hinv₁ hts.2 hnonce₁ htail
    refine ⟨model', ?_, hinv', ?_⟩
    · have hfirst : (model.predict t.fromId t.toId t.declaredNonce t.amount).isAccept =
          verdict (toBook model) t := by
        rw [Bool.eq_iff_iff, predict_isAccept_iff hinv hts.1, verdict, decide_eq_true_iff]
      rw [submitAll, hsubmit, Except.ok_bind, hrun, Except.ok_bind, hfirst, hverdict]
      rfl
    · rw [hbook', hbook₁]
      rfl

/-- Models of the same book over the same accounts are the same map. -/
theorem lookup_eq_of_toBook {model' : Model} (hinv : ModelInv S model) (hinv' : ModelInv S model')
    (hbook : toBook model = toBook model') (id : AccountId) :
    model.accounts.lookup id = model'.accounts.lookup id := by
  by_cases hid : id ∈ S
  · have hbalance : model.balance id = model'.balance id :=
      BitVec.toNat_inj.mp (congrFun (congrArg Book.balance hbook) id)
    have hnonce : model.nonce id = model'.nonce id :=
      BitVec.toNat_inj.mp (congrFun (congrArg Book.nonce hbook) id)
    rw [lookup_eq hinv hid, lookup_eq hinv' hid, hbalance, hnonce]
  · have hnone := mt (hinv.keys id).mp hid
    have hnone' := mt (hinv'.keys id).mp hid
    rw [AList.lookup_eq_none.mpr hnone, AList.lookup_eq_none.mpr hnone']

end Submit

/-! ## Any model whose supply fits -/

/-- The listed balance of an entry is the one its key reads. -/
theorem balance_of_mem_entries {model : Model} {e : (_ : AccountId) × U128 × U128}
    (he : e ∈ model.accounts.entries) :
    model.balance e.1 = e.2.1 ∧ model.nonce e.1 = e.2.2 := by
  have hlook : model.accounts.lookup e.1 = some e.2 := AList.mem_lookup_iff.mpr he
  simp [Model.balance, Model.nonce, hlook]

/-- A model whose balances add up to a `u128` satisfies the invariant over its own keys. -/
theorem modelInv_keys {model : Model}
    (hsupply : (model.accounts.vals.map (·.1.toNat)).sum < 2 ^ 128) :
    ModelInv model.accounts.keys.toFinset model where
  keys id := by rw [List.mem_toFinset, AList.mem_keys]
  supply := by
    have htotal : (toBook model).total model.accounts.keys.toFinset =
        (model.accounts.vals.map (·.1.toNat)).sum := by
      rw [Book.total, List.sum_toFinset _ model.accounts.keys_nodup]
      show ((model.accounts.entries.map Sigma.fst).map _).sum = _
      rw [AList.vals, List.map_map, List.map_map]
      exact congrArg List.sum (List.map_congr_left fun e he =>
        congrArg BitVec.toNat (balance_of_mem_entries he).1)
    rw [htotal]
    exact hsupply

/-- Pairwise non-interfering transfers commute: in every order each of them gets the same
    verdict, none panics, and the same map is left. -/
theorem submitAll_commutes (model : Model)
    (hsupply : (model.accounts.vals.map (·.1.toNat)).sum ≤ 2 ^ 128 - 1)
    (hnonces : ∀ entry ∈ model.accounts.vals, entry.2.toNat < 2 ^ 128 - 1)
    (ts ts' : List TransferFields) (hperm : ts.Perm ts')
    (hts : ∀ t ∈ ts, t.fromId ∈ model.accounts ∧ t.toId ∈ model.accounts ∧ t.fromId ≠ t.toId)
    (hapart : ts.Pairwise NonInterfering) :
    ∃ verdict model₁ model₂,
      submitAll model ts = .ok (model₁, ts.map verdict) ∧
      submitAll model ts' = .ok (model₂, ts'.map verdict) ∧
      ∀ id, model₁.accounts.lookup id = model₂.accounts.lookup id := by
  have hinv : ModelInv model.accounts.keys.toFinset model := modelInv_keys (by omega)
  have hbetween : ∀ t ∈ ts, Between model.accounts.keys.toFinset t := by
    intro t ht
    obtain ⟨hfrom, hto, hne⟩ := hts t ht
    exact ⟨(hinv.keys _).mp hfrom, (hinv.keys _).mp hto, hne⟩
  have hnonce : ∀ t ∈ ts, (model.nonce t.fromId).toNat + 1 < 2 ^ 128 := by
    intro t ht
    have hlook := lookup_eq hinv (hbetween t ht).src_mem
    have hmem := List.mem_map_of_mem (f := fun e : (_ : AccountId) × U128 × U128 => e.2)
      (AList.mem_lookup_iff.mp hlook)
    have hlt := hnonces _ hmem
    simp only at hlt
    omega
  have hapart' : ts'.Pairwise NonInterfering := hapart.perm hperm fun h =>
    ⟨h.fromId_ne_fromId.symm, h.fromId_ne_toId.symm, h.toId_ne_fromId.symm⟩
  obtain ⟨model₁, hrun₁, hinv₁, hbook₁⟩ := submitAll_spec hinv hbetween hnonce hapart
  obtain ⟨model₂, hrun₂, hinv₂, hbook₂⟩ := submitAll_spec hinv
    (fun t ht => hbetween t (hperm.mem_iff.mpr ht)) (fun t ht => hnonce t (hperm.mem_iff.mpr ht))
    hapart'
  refine ⟨_, model₁, model₂, hrun₁, hrun₂, lookup_eq_of_toBook hinv₁ hinv₂ ?_⟩
  rw [hbook₁, hbook₂]
  refine submitAll_perm ?_ (hperm.map toTransfer) _
  exact List.pairwise_map.mpr (hapart.imp NonInterfering.apart)

/-- Three accounts, for two transfers to the third. -/
def threeAccounts : Model := Model.new [(⟨1⟩, 10), (⟨2⟩, 3), (⟨3⟩, 0)]

/-- Two transfers to a shared recipient, of which the second exceeds its sender's balance. -/
theorem submitAll_commutes_threeAccounts :
    let t : TransferFields := ⟨⟨1⟩, ⟨3⟩, 0, 4⟩
    let u : TransferFields := ⟨⟨2⟩, ⟨3⟩, 0, 5⟩
    ∃ verdict : TransferFields → Bool, ∃ model₁ model₂,
      submitAll threeAccounts [t, u] = .ok (model₁, [verdict t, verdict u]) ∧
      submitAll threeAccounts [u, t] = .ok (model₂, [verdict u, verdict t]) ∧
      ∀ id, model₁.accounts.lookup id = model₂.accounts.lookup id := by
  have hnonce : ∀ entry ∈ threeAccounts.accounts.vals, entry.2.toNat < 2 ^ 128 - 1 := by
    intro entry hentry
    obtain ⟨e, he, rfl⟩ := List.mem_map.mp hentry
    rw [nonce_new (AList.mem_lookup_iff.mpr he)]
    decide
  exact submitAll_commutes threeAccounts (show 13 ≤ _ by omega) hnonce
    [⟨⟨1⟩, ⟨3⟩, 0, 4⟩, ⟨⟨2⟩, ⟨3⟩, 0, 5⟩] [⟨⟨2⟩, ⟨3⟩, 0, 5⟩, ⟨⟨1⟩, ⟨3⟩, 0, 4⟩]
    (List.Perm.swap _ _ _) (by decide) (List.pairwise_pair.mpr ⟨by decide, by decide, by decide⟩)

end LezFuzzing.Spec
