import Mathlib

/-!
# Association maps with an enumeration order

A hash map is used in two ways: by key, and by iterating over all entries in an
order the program cannot choose. Mathlib's `AList` has both: `lookup` and `insert`
by key, and `entries`, one enumeration without repeated keys. A statement about
every enumeration order is then one about all `AList`s with permuted entries.

## Key results

- `lookup_ofPairs_map`: a map collected from a key list and a function
- `lookup_ofPairs_of_mem`: a map collected from pairs with distinct keys
- `entries_ofPairs_map_perm`: enumerating a collected map visits each key once
- `forall_entries_iff`: a property of all entries, stated by key
-/

namespace AList

variable {α β : Type} [DecidableEq α]

/-- Insert pairs in order, so that the last one for a key wins. -/
def ofPairs (xs : List (α × β)) : AList (fun _ : α => β) :=
  xs.foldl (fun m x => m.insert x.1 x.2) ∅

/-- The values in enumeration order. -/
def vals (m : AList (fun _ : α => β)) : List β := m.entries.map (·.2)

/-- Inserting a list of pairs keeps the keys and adds those of the list. -/
private theorem mem_foldl_insert (xs : List (α × β)) (m : AList (fun _ : α => β)) (a : α) :
    a ∈ xs.foldl (fun m x => m.insert x.1 x.2) m ↔ a ∈ m ∨ a ∈ xs.map Prod.fst := by
  induction xs generalizing m with
  | nil => simp
  | cons x xs ih =>
    rw [List.foldl_cons, ih, mem_insert, List.map_cons, List.mem_cons]
    tauto

/-- The keys of a collected map are the first components. -/
theorem mem_ofPairs {xs : List (α × β)} {a : α} : a ∈ ofPairs xs ↔ a ∈ xs.map Prod.fst := by
  simp [ofPairs, mem_foldl_insert]

/-- A key that the list does not mention keeps its value. -/
private theorem lookup_foldl_insert_of_notMem (xs : List (α × β))
    (m : AList (fun _ : α => β)) {a : α} (h : a ∉ xs.map Prod.fst) :
    (xs.foldl (fun m x => m.insert x.1 x.2) m).lookup a = m.lookup a := by
  induction xs generalizing m with
  | nil => rfl
  | cons x xs ih =>
    rw [List.map_cons, List.mem_cons, not_or] at h
    rw [List.foldl_cons, ih _ h.2, lookup_insert_ne h.1]

/-- With distinct keys, each pair is found under its key. -/
theorem lookup_ofPairs_of_mem {xs : List (α × β)} (hnd : (xs.map Prod.fst).Nodup)
    {a : α} {b : β} (h : (a, b) ∈ xs) : (ofPairs xs).lookup a = some b := by
  obtain ⟨pre, post, rfl⟩ := List.append_of_mem h
  rw [List.map_append, List.map_cons, List.nodup_append] at hnd
  have hpost : a ∉ post.map Prod.fst := (List.nodup_cons.mp hnd.2.1).1
  rw [ofPairs, List.foldl_append, List.foldl_cons,
    lookup_foldl_insert_of_notMem post _ hpost, lookup_insert]

/-- Whatever is found was inserted. -/
theorem mem_of_lookup_ofPairs {xs : List (α × β)} {a : α} {b : β}
    (h : (ofPairs xs).lookup a = some b) : (a, b) ∈ xs := by
  suffices ∀ m : AList (fun _ : α => β),
      (xs.foldl (fun m x => m.insert x.1 x.2) m).lookup a = some b →
        (a, b) ∈ xs ∨ m.lookup a = some b by
    cases this ∅ h with
    | inl hmem => exact hmem
    | inr hempty => exact nomatch hempty
  clear h
  induction xs with
  | nil => exact fun m hm => Or.inr hm
  | cons x xs ih =>
    intro m hm
    rw [List.foldl_cons] at hm
    cases ih _ hm with
    | inl hmem => exact Or.inl (List.mem_cons_of_mem x hmem)
    | inr hlook =>
      by_cases hax : a = x.1
      · rw [hax, lookup_insert, Option.some.injEq] at hlook
        exact Or.inl (by rw [hax, ← hlook]; exact List.mem_cons_self)
      · rw [lookup_insert_ne hax] at hlook
        exact Or.inr hlook

/-- A map collected from keys and a function: the function, on those keys.
    The keys may repeat, since equal keys get equal values. -/
theorem lookup_ofPairs_map (ks : List α) (f : α → β) (a : α) :
    (ofPairs (ks.map fun k => (k, f k))).lookup a = if a ∈ ks then some (f a) else none := by
  suffices ∀ m : AList (fun _ : α => β),
      ((ks.map fun k => (k, f k)).foldl (fun m x => m.insert x.1 x.2) m).lookup a =
        if a ∈ ks then some (f a) else m.lookup a from this ∅
  induction ks with
  | nil => intro m; rfl
  | cons k ks ih =>
    intro m
    rw [List.map_cons, List.foldl_cons, ih]
    by_cases hmem : a ∈ ks
    · simp [hmem]
    · by_cases hak : a = k
      · subst hak; simp [hmem]
      · simp [hmem, hak, lookup_insert_ne hak]

/-- A property of all entries is a property of all keys that are found. -/
theorem forall_entries_iff {m : AList (fun _ : α => β)} {P : α → β → Prop} :
    (∀ e ∈ m.entries, P e.1 e.2) ↔ ∀ a b, m.lookup a = some b → P a b := by
  constructor
  · intro h a b hab
    exact h ⟨a, b⟩ (mem_lookup_iff.mp hab)
  · intro h e he
    exact h e.1 e.2 (mem_lookup_iff.mpr he)

/-- Enumerating a map collected from distinct keys visits each key once. -/
theorem entries_ofPairs_map_perm {ks : List α} (hnd : ks.Nodup) (f : α → β) :
    (ofPairs (ks.map fun k => (k, f k))).entries.Perm (ks.map fun k => ⟨k, f k⟩) := by
  rw [List.perm_ext_iff_of_nodup (ofPairs _).nodupKeys.nodup
    (hnd.map fun a b h => congrArg Sigma.fst h)]
  intro h
  obtain ⟨a, b⟩ := h
  rw [← mem_lookup_iff, lookup_ofPairs_map, List.mem_map]
  constructor
  · intro h
    split at h
    · rename_i hmem
      exact ⟨a, hmem, by rw [Option.some.inj h]⟩
    · exact nomatch h
  · intro h
    obtain ⟨k, hk, h⟩ := h
    cases h
    simp [hk]

/-! ## Parts and sizes -/

/-- A new key makes the map one larger. -/
theorem length_keys_insert_of_notMem {m : AList (fun _ : α => β)} {a : α} (h : a ∉ m) (b : β) :
    (m.insert a b).keys.length = m.keys.length + 1 := by
  unfold keys
  rw [entries_insert_of_notMem h, List.keys_cons, List.length_cons]

/-- Maps that find the same keys are of one size. -/
theorem length_keys_eq {m m' : AList (fun _ : α => β)}
    (h : ∀ a, (m.lookup a).isSome ↔ (m'.lookup a).isSome) :
    m.keys.length = m'.keys.length := by
  refine List.Perm.length_eq ?_
  rw [List.perm_ext_iff_of_nodup m.keys_nodup m'.keys_nodup]
  intro a
  rw [← mem_keys, ← mem_keys, ← lookup_isSome, ← lookup_isSome]
  exact h a

omit [DecidableEq α] in
/-- Permuted entries have permuted values. -/
theorem vals_perm {m m' : AList (fun _ : α => β)} (h : m.entries.Perm m'.entries) :
    m.vals.Perm m'.vals := h.map _

end AList
