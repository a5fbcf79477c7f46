import LezFuzzing.ForStd.Gen

/-!
# What a generator can return

`Ensures` bounds the values of a generator from above. `HasRange` says which values they
are: each of them is returned on some input, whatever input is to be left over. The second
half is what makes ranges compose, since the next generator needs an input of its own.

## Key results

- `hasRange_bind`: the sequencing rule
- `hasRange_replicate`: a loop that collects a number of values
- `HasRange.of_reaches`: a range from its two halves
-/

namespace Gen

variable {σ ε α β : Type}

/-- The generator returns the value on some input, whatever is to be left over. -/
def Reaches (g : Gen σ ε α) (a : α) : Prop := ∀ rest, ∃ s, g s = (.ok a, rest)

/-- The generator returns exactly the values with `P`, and leaves any input over. -/
def HasRange (g : Gen σ ε α) (P : α → Prop) : Prop :=
  ∀ a rest, (∃ s, g s = (.ok a, rest)) ↔ P a

/-! ## The two halves -/

theorem HasRange.of_reaches {g : Gen σ ε α} {P : α → Prop} (hg : g.Ensures P)
    (hreach : ∀ a, P a → g.Reaches a) : g.HasRange P := fun a rest =>
  ⟨fun ⟨s, hrun⟩ => hg s a rest hrun, fun ha => hreach a ha rest⟩

theorem HasRange.ensures {g : Gen σ ε α} {P : α → Prop} (h : g.HasRange P) : g.Ensures P :=
  fun s a rest hrun => (h a rest).mp ⟨s, hrun⟩

theorem HasRange.reaches {g : Gen σ ε α} {P : α → Prop} (h : g.HasRange P) {a : α} (ha : P a) :
    g.Reaches a := fun rest => (h a rest).mpr ha

theorem HasRange.congr {g : Gen σ ε α} {P Q : α → Prop} (h : g.HasRange P)
    (hPQ : ∀ a, P a ↔ Q a) : g.HasRange Q := fun a rest => (h a rest).trans (hPQ a)

/-! ## Sequences -/

theorem reaches_pure {a : α} : (pure a : Gen σ ε α).Reaches a := fun rest => ⟨rest, rfl⟩

/-- The input of a sequence is that of its first part in front of that of the second. -/
theorem reaches_bind {g : Gen σ ε α} {f : α → Gen σ ε β} {a : α} {b : β} (hg : g.Reaches a)
    (hf : (f a).Reaches b) : (g >>= f).Reaches b := by
  intro rest
  obtain ⟨mid, hsecond⟩ := hf rest
  obtain ⟨s, hfirst⟩ := hg mid
  exact ⟨s, by rw [bind_of_eq_ok hfirst, hsecond]⟩

theorem hasRange_pure {a : α} : (pure a : Gen σ ε α).HasRange (· = a) :=
  .of_reaches (ensures_pure rfl) fun _ hb => hb ▸ reaches_pure

/-- A sequence returns what its second part does after some value of the first. -/
theorem hasRange_bind {g : Gen σ ε α} {f : α → Gen σ ε β} {P : α → Prop} {Q : α → β → Prop}
    (hg : g.HasRange P) (hf : ∀ a, P a → (f a).HasRange (Q a)) :
    (g >>= f).HasRange fun b => ∃ a, P a ∧ Q a b := by
  refine .of_reaches ?_ fun b hb => ?_
  · exact ensures_bind hg.ensures fun a ha s b rest hrun => ⟨a, ha, (hf a ha).ensures s b rest hrun⟩
  · obtain ⟨a, ha, hab⟩ := hb
    exact reaches_bind (hg.reaches ha) ((hf a ha).reaches hab)

/-- A value computed from a drawn one. -/
theorem hasRange_map {g : Gen σ ε α} {f : α → β} {P : α → Prop} (hg : g.HasRange P) :
    (g >>= fun a => pure (f a)).HasRange fun b => ∃ a, P a ∧ b = f a :=
  hasRange_bind hg fun _ _ => hasRange_pure

/-! ## Loops -/

/-- A loop that collects a number of values returns all lists of that length. -/
theorem hasRange_replicate {g : Gen σ ε α} {P : α → Prop} (hg : g.HasRange P) (n : ℕ) :
    (traverse (fun () => g) (List.replicate n ())).HasRange fun as =>
      as.length = n ∧ ∀ a ∈ as, P a := by
  induction n with
  | zero =>
    refine hasRange_pure.congr fun as => ?_
    rw [List.length_eq_zero_iff]
    exact ⟨fun h => ⟨h, by simp [h]⟩, And.left⟩
  | succ n ih =>
    refine (hasRange_bind hg fun a _ => hasRange_map ih).congr fun as => ?_
    constructor
    · rintro ⟨a, ha, as, ⟨hlen, has⟩, rfl⟩
      exact ⟨congrArg (· + 1) hlen, List.forall_mem_cons.mpr ⟨ha, has⟩⟩
    · intro h
      obtain ⟨hlen, has⟩ := h
      obtain ⟨a, as, rfl⟩ := List.exists_cons_of_length_eq_add_one hlen
      obtain ⟨ha, hall⟩ := List.forall_mem_cons.mp has
      exact ⟨a, ha, as, ⟨Nat.succ.inj hlen, hall⟩, rfl⟩

end Gen
