import Mathlib

/-!
# Loops that update one entry at a time

A store maps keys to values. `modifyM` updates one entry by a function that may fail, and
a loop of such updates fails at the first failure. Such a loop threads the whole store
through, but each step reads and writes one entry only. So updates of one entry compose
to one update of it, and a loop over distinct keys is each of its updates by itself.

## Key results

- `modifyM_eq_some_iff`: one update, by its result
- `foldlM_modifyM_same`: a loop on one entry
- `foldlM_modifyM_isSome_iff`, `foldlM_modifyM_eq_some_iff`: a loop over distinct keys
- `forall_foldlM_modifyM`, `sum_foldlM_modifyM`: what every update keeps or adds
-/

namespace Keyed

variable {κ α ι : Type} [DecidableEq κ]

/-- Update the entry of one key; fails as the update does. -/
def modifyM (f : κ → α) (k : κ) (g : α → Option α) : Option (κ → α) :=
  (g (f k)).map (Function.update f k)

/-- An update gives the key its new value and leaves the other keys alone. -/
theorem modifyM_eq_some_iff {f f' : κ → α} {k : κ} {g : α → Option α} :
    modifyM f k g = some f' ↔ g (f k) = some (f' k) ∧ ∀ j, j ≠ k → f' j = f j := by
  unfold modifyM
  constructor
  · intro h
    obtain ⟨a, ha, rfl⟩ := Option.map_eq_some_iff.mp h
    refine ⟨by rw [ha, Function.update_self], fun j hj => Function.update_of_ne hj a f⟩
  · intro h
    obtain ⟨hk, hothers⟩ := h
    rw [hk, Option.map_some, Option.some.injEq]
    funext j
    by_cases hj : j = k
    · rw [hj, Function.update_self]
    · rw [Function.update_of_ne hj, hothers j hj]

/-- An update that keeps the entry keeps the store. -/
theorem modifyM_some (f : κ → α) (k : κ) : modifyM f k some = some f :=
  modifyM_eq_some_iff.mpr ⟨rfl, fun _ _ => rfl⟩

/-- Two updates of one entry are one. -/
theorem modifyM_modifyM (f : κ → α) (k : κ) (g h : α → Option α) :
    ((modifyM f k g).bind fun f => modifyM f k h) = modifyM f k fun a => (g a).bind h := by
  unfold modifyM
  cases hg : g (f k) with
  | none => simp [hg]
  | some a =>
    cases hh : h a with
    | none => simp [hg, hh]
    | some b => simp [hg, hh]

/-- A loop on one entry is one update of it. -/
theorem foldlM_modifyM_same (g : ι → α → Option α) (k : κ) (xs : List ι) (f : κ → α) :
    xs.foldlM (fun f x => modifyM f k (g x)) f =
      modifyM f k fun a => xs.foldlM (fun a x => g x a) a := by
  induction xs generalizing f with
  | nil => exact (modifyM_some f k).symm
  | cons x xs ih =>
    simp only [List.foldlM_cons, Option.bind_eq_bind]
    rw [← modifyM_modifyM]
    exact congrArg _ (funext ih)

/-- A loop over distinct keys returns exactly when each update does on the store it starts
    from, with those values and everything else unchanged. -/
theorem foldlM_modifyM_eq_some_iff {key : ι → κ} {g : ι → α → Option α} {xs : List ι}
    (hnd : (xs.map key).Nodup) {f f' : κ → α} :
    xs.foldlM (fun f x => modifyM f (key x) (g x)) f = some f' ↔
      (∀ x ∈ xs, g x (f (key x)) = some (f' (key x))) ∧
        ∀ k, k ∉ xs.map key → f' k = f k := by
  induction xs generalizing f with
  | nil => simp [funext_iff, eq_comm]
  | cons x xs ih =>
    rw [List.map_cons, List.nodup_cons] at hnd
    rw [List.foldlM_cons, Option.bind_eq_bind, Option.bind_eq_some_iff]
    -- the keys still to come are not the one just written
    have hne : ∀ y ∈ xs, key y ≠ key x := fun y hy heq =>
      hnd.1 (heq ▸ List.mem_map_of_mem hy)
    constructor
    · intro h
      obtain ⟨f₁, hfirst, hrest⟩ := h
      obtain ⟨hx, hothers⟩ := modifyM_eq_some_iff.mp hfirst
      obtain ⟨hxs, hkeep⟩ := (ih hnd.2).mp hrest
      refine ⟨List.forall_mem_cons.mpr ⟨?_, fun y hy => ?_⟩, fun k hk => ?_⟩
      · rw [hx, hkeep (key x) hnd.1]
      · rw [← hothers (key y) (hne y hy)]
        exact hxs y hy
      · rw [List.map_cons, List.mem_cons, not_or] at hk
        rw [hkeep k hk.2, hothers k hk.1]
    · intro h
      obtain ⟨hall, hkeep⟩ := h
      obtain ⟨hx, hxs⟩ := List.forall_mem_cons.mp hall
      refine ⟨Function.update f (key x) (f' (key x)), ?_, (ih hnd.2).mpr ⟨fun y hy => ?_, ?_⟩⟩
      · rw [modifyM, hx, Option.map_some]
      · rw [Function.update_of_ne (hne y hy)]
        exact hxs y hy
      · intro k hk
        by_cases hkx : k = key x
        · rw [hkx, Function.update_self]
        · rw [Function.update_of_ne hkx]
          exact hkeep k (by rw [List.map_cons, List.mem_cons, not_or]; exact ⟨hkx, hk⟩)

/-- A loop over distinct keys returns exactly when each update does on the store it starts
    from. -/
theorem foldlM_modifyM_isSome_iff {key : ι → κ} {g : ι → α → Option α} {xs : List ι}
    (hnd : (xs.map key).Nodup) {f : κ → α} :
    (xs.foldlM (fun f x => modifyM f (key x) (g x)) f).isSome ↔
      ∀ x ∈ xs, (g x (f (key x))).isSome := by
  induction xs generalizing f with
  | nil => simp
  | cons x xs ih =>
    rw [List.map_cons, List.nodup_cons] at hnd
    rw [List.foldlM_cons, List.forall_mem_cons]
    cases hx : g x (f (key x)) with
    | none => simp [modifyM, hx]
    | some a =>
      have hstep : modifyM f (key x) (g x) = some (Function.update f (key x) a) := by
        rw [modifyM, hx, Option.map_some]
      rw [hstep, Option.bind_eq_bind, Option.bind_some, ih hnd.2]
      refine Iff.trans (forall₂_congr fun y hy => ?_) (and_iff_right rfl).symm
      have hne : key y ≠ key x := fun heq => hnd.1 (heq ▸ List.mem_map_of_mem hy)
      rw [Function.update_of_ne hne]

/-! ## Any keys -/

/-- What each update keeps of the entry it changes is kept of every entry. -/
theorem forall_foldlM_modifyM {key : ι → κ} {g : ι → α → Option α} {R : α → α → Prop}
    (hrefl : ∀ a, R a a) (htrans : ∀ a b c, R a b → R b c → R a c)
    (hstep : ∀ x a a', g x a = some a' → R a a') {xs : List ι} {f f' : κ → α}
    (h : xs.foldlM (fun f x => modifyM f (key x) (g x)) f = some f') (k : κ) :
    R (f k) (f' k) := by
  induction xs generalizing f with
  | nil =>
    obtain rfl := Option.some.inj h
    exact hrefl _
  | cons x xs ih =>
    rw [List.foldlM_cons, Option.bind_eq_bind, Option.bind_eq_some_iff] at h
    obtain ⟨f₁, hfirst, hrest⟩ := h
    obtain ⟨hx, hothers⟩ := modifyM_eq_some_iff.mp hfirst
    refine htrans _ _ _ ?_ (ih hrest)
    by_cases hk : k = key x
    · exact hk ▸ hstep x _ _ hx
    · exact hothers k hk ▸ hrefl (f₁ k)

/-- An update that puts `added` into an entry and takes `taken` out of it does so to the sum
    over all entries. -/
theorem sum_modifyM {μ : α → ℕ} {S : Finset κ} {k : κ} (hk : k ∈ S) {f f' : κ → α}
    {g : α → Option α} (h : modifyM f k g = some f') {taken added : ℕ}
    (hg : ∀ a', g (f k) = some a' → μ a' + taken = μ (f k) + added) :
    (∑ j ∈ S, μ (f' j)) + taken = (∑ j ∈ S, μ (f j)) + added := by
  obtain ⟨hk', hothers⟩ := modifyM_eq_some_iff.mp h
  have hentry := hg _ hk'
  have hrest : ∑ j ∈ S.erase k, μ (f' j) = ∑ j ∈ S.erase k, μ (f j) :=
    Finset.sum_congr rfl fun j hj => by rw [hothers j (Finset.ne_of_mem_erase hj)]
  have hsum := Finset.add_sum_erase S (fun j => μ (f j)) hk
  have hsum' := Finset.add_sum_erase S (fun j => μ (f' j)) hk
  omega

/-- A loop moves the sum over all entries by what its updates put in and take out. -/
theorem sum_foldlM_modifyM {μ : α → ℕ} {key : ι → κ} {g : ι → α → Option α}
    {taken added : ι → ℕ} {S : Finset κ} {xs : List ι} (hkey : ∀ x ∈ xs, key x ∈ S)
    (hstep : ∀ x a a', g x a = some a' → μ a' + taken x = μ a + added x) {f f' : κ → α}
    (h : xs.foldlM (fun f x => modifyM f (key x) (g x)) f = some f') :
    (∑ j ∈ S, μ (f' j)) + (xs.map taken).sum = (∑ j ∈ S, μ (f j)) + (xs.map added).sum := by
  induction xs generalizing f with
  | nil =>
    obtain rfl := Option.some.inj h
    rfl
  | cons x xs ih =>
    rw [List.forall_mem_cons] at hkey
    rw [List.foldlM_cons, Option.bind_eq_bind, Option.bind_eq_some_iff] at h
    obtain ⟨f₁, hfirst, hrest⟩ := h
    have hfirstSum := sum_modifyM hkey.1 hfirst fun a' => hstep x _ a'
    have hrestSum := ih hkey.2 hrest
    rw [List.map_cons, List.map_cons, List.sum_cons, List.sum_cons]
    omega

end Keyed
