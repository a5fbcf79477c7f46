import LezFuzzing.ForStd.Pick
import LezFuzzing.Native.Lockstep

/-!
# Recipients

`resolve_recipient` adds an offset between `1` and `len - 1` to the sender's index and goes
round. That is picking, by the residue of the raw byte, among the indices other than the
sender's: a self-transfer is impossible, and every other account is drawn by its share of
the bytes. On machine integers nothing overflows as long as twice the number of accounts
fits.

## Key results

- `resolveRecipient_eq_pick`: the two reductions and the offset as one equivalence
- `resolveRecipientUsize_eq_ok_iff`: the machine arithmetic neither panics nor wraps
- `resolveRecipientUsize_excludes_sender`: which index each raw byte is mapped to
- `recipient_eq_get`: a command names the account that the machine arithmetic indexes
-/

namespace LezFuzzing.Spec

open LezFuzzing.Native

/-- A raw byte picks the recipient among the other indices. -/
theorem resolveRecipient_eq_pick {n : ℕ} [NeZero n] (i : Fin (n + 1)) (raw : BitVec 8) :
    resolveRecipient raw i.val (n + 1) = (Fin.pick (Fin.others i) raw.toNat).val.val := by
  rw [Fin.pick, Fin.val_others, Fin.val_ofNat]
  rfl

/-- An account other than the sender is the recipient where the byte picks it. -/
theorem resolveRecipient_eq_val_iff {n : ℕ} [NeZero n] {i : Fin (n + 1)}
    {j : Fin (n + 1)} (hj : j ≠ i) {raw : BitVec 8} :
    resolveRecipient raw i.val (n + 1) = j.val ↔
      Fin.pick (Fin.others i) raw.toNat = ⟨j, hj⟩ := by
  rw [resolveRecipient_eq_pick, Subtype.ext_iff, Fin.ext_iff]

/-- The recipient is one of the accounts. -/
theorem resolveRecipient_lt {raw : BitVec 8} {fromIdx len : ℕ} (hlen : 0 < len) :
    resolveRecipient raw fromIdx len < len := Nat.mod_lt _ hlen

/-- The recipient is never the sender. -/
theorem resolveRecipient_ne {raw : BitVec 8} {fromIdx len : ℕ} (hlen : 2 ≤ len)
    (hfrom : fromIdx < len) : resolveRecipient raw fromIdx len ≠ fromIdx := by
  obtain ⟨n, rfl⟩ : ∃ n, len = n + 1 := ⟨len - 1, by omega⟩
  have : NeZero n := ⟨by omega⟩
  have hpick := resolveRecipient_eq_pick ⟨fromIdx, hfrom⟩ raw
  rw [hpick]
  exact fun h => (Fin.pick (Fin.others _) raw.toNat).property (Fin.ext h)

/-- Two bytes give the same recipient when they are congruent modulo the number of the
    other accounts. -/
theorem resolveRecipient_eq_iff {fromIdx len : ℕ} (hlen : 2 ≤ len) (hfrom : fromIdx < len)
    {raw raw' : BitVec 8} :
    resolveRecipient raw fromIdx len = resolveRecipient raw' fromIdx len ↔
      raw.toNat ≡ raw'.toNat [MOD len - 1] := by
  obtain ⟨n, rfl⟩ : ∃ n, len = n + 1 := ⟨len - 1, by omega⟩
  have : NeZero n := ⟨by omega⟩
  rw [resolveRecipient_eq_pick ⟨fromIdx, hfrom⟩, resolveRecipient_eq_pick ⟨fromIdx, hfrom⟩,
    ← Fin.ext_iff, ← Subtype.ext_iff, Fin.pick_eq_pick_iff, Nat.add_sub_cancel]

section Other

variable {fromIdx toIdx len : ℕ} (hfrom : fromIdx < len) (hto : toIdx < len)
  (hne : toIdx ≠ fromIdx)
include hfrom hto hne

/-- Every other account is the recipient of some byte, if there are as many bytes. -/
theorem exists_resolveRecipient_eq (hlen : len ≤ 257) :
    ∃ raw, resolveRecipient raw fromIdx len = toIdx := by
  obtain ⟨n, rfl⟩ : ∃ n, len = n + 1 := ⟨len - 1, by omega⟩
  have : NeZero n := ⟨by omega⟩
  have hother : (⟨toIdx, hto⟩ : Fin (n + 1)) ≠ ⟨fromIdx, hfrom⟩ := Fin.ne_of_val_ne hne
  obtain ⟨k, hk, hpick⟩ := Fin.exists_pick_eq (e := Fin.others _) ⟨_, hother⟩
  obtain ⟨raw, rfl⟩ := BitVec.exists_toNat_eq (w := 8) (n := k) (by omega)
  exact ⟨raw, (resolveRecipient_eq_val_iff hother).mpr hpick⟩

/-- The bytes are shared out evenly among the other accounts. -/
theorem ncard_resolveRecipient :
    {raw | resolveRecipient raw fromIdx len = toIdx}.ncard = 256 / (len - 1) ∨
      {raw | resolveRecipient raw fromIdx len = toIdx}.ncard = 256 / (len - 1) + 1 := by
  obtain ⟨n, rfl⟩ : ∃ n, len = n + 1 := ⟨len - 1, by omega⟩
  have : NeZero n := ⟨by omega⟩
  have hother : (⟨toIdx, hto⟩ : Fin (n + 1)) ≠ ⟨fromIdx, hfrom⟩ := Fin.ne_of_val_ne hne
  have hpicked : {raw | resolveRecipient raw fromIdx (n + 1) = toIdx} =
      {raw : BitVec 8 | Fin.pick (Fin.others _) raw.toNat = ⟨_, hother⟩} :=
    Set.ext fun raw => resolveRecipient_eq_val_iff hother
  rw [hpicked, Fin.ncard_pick, Nat.add_sub_cancel]
  split
  · exact Or.inr rfl
  · exact Or.inl rfl

end Other

/-! ## On machine integers -/

section Usize

variable {w : ℕ} {fromIdx len : BitVec w} (hw : 8 ≤ w) (hlen : 2 ≤ len.toNat)
  (hfits : 2 * len.toNat < 2 ^ w) (hfrom : fromIdx.toNat < len.toNat)
include hw hlen hfits hfrom

/-- The sum of index and offset is below twice the number of accounts, so every
    intermediate value fits. -/
theorem resolveRecipientUsize_returns (raw : BitVec 8) :
    ∃ toIdx, resolveRecipientUsize raw fromIdx len = .ok toIdx ∧
      toIdx.toNat = resolveRecipient raw fromIdx.toNat len.toNat := by
  have hraw : (raw.zeroExtend w).toNat = raw.toNat := BitVec.toNat_setWidth_of_le hw
  have hone : (1 : BitVec w).toNat = 1 := Nat.mod_eq_of_lt (Nat.one_lt_two_pow (by omega))
  have hresidue : raw.toNat % (len.toNat - 1) < len.toNat - 1 := Nat.mod_lt _ (by omega)
  have hto : resolveRecipient raw fromIdx.toNat len.toNat < len.toNat :=
    resolveRecipient_lt (by omega)
  obtain ⟨others, hothers⟩ := BitVec.exists_toNat_eq (w := w) (n := len.toNat - 1) (by omega)
  obtain ⟨residue, hres⟩ := BitVec.exists_toNat_eq (w := w) (n := raw.toNat % (len.toNat - 1))
    (by omega)
  obtain ⟨offset, hoffset⟩ := BitVec.exists_toNat_eq (w := w) (n := 1 + residue.toNat) (by omega)
  obtain ⟨sum, hsum⟩ := BitVec.exists_toNat_eq (w := w) (n := fromIdx.toNat + offset.toNat)
    (by omega)
  obtain ⟨toIdx, htoIdx⟩ := BitVec.exists_toNat_eq (w := w)
    (n := resolveRecipient raw fromIdx.toNat len.toNat) (by omega)
  refine ⟨toIdx, ?_, htoIdx.symm⟩
  simp only [resolveRecipientUsize, Except.bind_eq_ok_iff, Except.expect_eq_ok_iff,
    BitVec.checkedSub_eq_some_iff, BitVec.checkedAdd_eq_some_iff, BitVec.checkedRem_eq_some_iff]
  refine ⟨others, by omega, residue, ⟨by omega, ?_⟩, offset, by omega, sum, hsum, by omega, ?_⟩
  · rw [hraw, ← hothers, hres]
  · rw [← htoIdx, ← hsum, ← hoffset, ← hres]
    rfl

/-- On machine integers the recipient is the same. -/
theorem resolveRecipientUsize_eq_ok_iff {raw : BitVec 8} {toIdx : BitVec w} :
    resolveRecipientUsize raw fromIdx len = .ok toIdx ↔
      resolveRecipient raw fromIdx.toNat len.toNat = toIdx.toNat := by
  obtain ⟨recipient, hrun, hval⟩ := resolveRecipientUsize_returns hw hlen hfits hfrom raw
  rw [hrun, Except.ok.injEq, ← BitVec.toNat_inj, hval]

end Usize

/-- With at least two accounts, and room for twice their number, every raw byte is mapped to
    an account other than the sender. Two bytes are mapped to the same account exactly when
    they are congruent modulo the number of the other accounts. Up to 257 accounts, each of
    the others has its bytes, and all of them have equally many, up to one. -/
theorem resolveRecipientUsize_excludes_sender {w : ℕ} (hw : 8 ≤ w) (len fromIdx : BitVec w)
    (hlen : 2 ≤ len.toNat) (hfits : 2 * len.toNat < 2 ^ w)
    (hfrom : fromIdx.toNat < len.toNat) :
    (∀ raw, ∃ toIdx, resolveRecipientUsize raw fromIdx len = .ok toIdx ∧
      toIdx.toNat < len.toNat ∧ toIdx ≠ fromIdx) ∧
    (∀ raw raw', resolveRecipientUsize raw fromIdx len = resolveRecipientUsize raw' fromIdx len ↔
      raw.toNat ≡ raw'.toNat [MOD len.toNat - 1]) ∧
    (len.toNat ≤ 257 → ∀ toIdx : BitVec w, toIdx.toNat < len.toNat → toIdx ≠ fromIdx →
      (∃ raw, resolveRecipientUsize raw fromIdx len = .ok toIdx) ∧
      ({raw | resolveRecipientUsize raw fromIdx len = .ok toIdx}.ncard =
          256 / (len.toNat - 1) ∨
        {raw | resolveRecipientUsize raw fromIdx len = .ok toIdx}.ncard =
          256 / (len.toNat - 1) + 1)) := by
  have hok : ∀ {raw toIdx}, resolveRecipientUsize raw fromIdx len = .ok toIdx ↔
      resolveRecipient raw fromIdx.toNat len.toNat = toIdx.toNat :=
    resolveRecipientUsize_eq_ok_iff hw hlen hfits hfrom
  refine ⟨fun raw => ?_, fun raw raw' => ?_, fun hmany toIdx hto hne => ?_⟩
  · obtain ⟨toIdx, hrun, hval⟩ := resolveRecipientUsize_returns hw hlen hfits hfrom raw
    refine ⟨toIdx, hrun, ?_, fun heq => ?_⟩
    · rw [hval]
      exact resolveRecipient_lt (by omega)
    · exact resolveRecipient_ne hlen hfrom (hval.symm.trans (congrArg BitVec.toNat heq))
  · obtain ⟨toIdx, hrun, hval⟩ := resolveRecipientUsize_returns hw hlen hfits hfrom raw'
    rw [hrun, hok, hval, resolveRecipient_eq_iff hlen hfrom]
  · have hne' : toIdx.toNat ≠ fromIdx.toNat := fun heq => hne (BitVec.eq_of_toNat_eq heq)
    simp only [hok]
    exact ⟨exists_resolveRecipient_eq hfrom hto hne' hmany,
      ncard_resolveRecipient hfrom hto hne'⟩

/-- Four accounts on a 64-bit machine: the last one sends to the other three. -/
theorem resolveRecipientUsize_excludes_sender_four :
    (∀ raw, ∃ toIdx, resolveRecipientUsize raw (3 : BitVec 64) 4 = .ok toIdx ∧
      toIdx.toNat < 4 ∧ toIdx ≠ 3) ∧
    (∃ raw, resolveRecipientUsize raw (3 : BitVec 64) 4 = .ok 0) ∧
    ({raw | resolveRecipientUsize raw (3 : BitVec 64) 4 = .ok 0}.ncard = 85 ∨
      {raw | resolveRecipientUsize raw (3 : BitVec 64) 4 = .ok 0}.ncard = 86) := by
  obtain ⟨hother, _, hreach⟩ := resolveRecipientUsize_excludes_sender (w := 64) (by decide) 4 3
    (by decide) (by decide) (by decide)
  exact ⟨hother, hreach (by decide) 0 (by decide) (by decide)⟩

/-! ## The transfers of a schedule -/

section Schedule

variable {K : Keys} {accs : LockstepAccounts K}

/-- The account that a command names as its recipient is the one the machine arithmetic
    indexes. -/
theorem recipient_eq_get {w : ℕ} (hw : 8 ≤ w) {len : BitVec w}
    (hlen : len.toNat = accs.accounts.length) (hfits : 2 * len.toNat < 2 ^ w)
    (src dst : BitVec 8) :
    ∃ toIdx, resolveRecipientUsize dst (src.zeroExtend w % len) len = .ok toIdx ∧
      accs.recipient src dst = accs.get toIdx.toNat := by
  have htwo : 2 ≤ len.toNat := hlen ▸ accs.two_le
  have hfrom : (src.zeroExtend w % len).toNat = src.toNat % accs.accounts.length := by
    rw [BitVec.toNat_umod, BitVec.toNat_setWidth_of_le hw, hlen]
  have hlt : (src.zeroExtend w % len).toNat < len.toNat := by
    rw [BitVec.toNat_umod]
    exact Nat.mod_lt _ (by omega)
  obtain ⟨toIdx, hrun, hval⟩ := resolveRecipientUsize_returns hw htwo hfits hlt dst
  refine ⟨toIdx, hrun, ?_⟩
  rw [hval, hfrom, hlen]
  rfl

end Schedule

end LezFuzzing.Spec
