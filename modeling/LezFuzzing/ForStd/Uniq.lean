import Mathlib

/-!
# First occurrences

`uniq seen xs` keeps the first occurrence of each value of `xs` that is not in `seen`, in
order. It is the loop of `awk '!seen[$0]++'`, and of every loop that appends a value to its
result unless it has seen it.

Dropping entries of a list before its repetitions are dropped can change the order of what
is left, or lose values. `uniq_filter_eq_iff` says when it does neither.

## Key results

- `mem_uniq`, `nodup_uniq`, `uniq_concat`: what is kept
- `uniq_eq_find`: the first value kept, and the rest
- `uniq_filter_eq_iff`: first occurrences among some of the entries only
-/

namespace List

variable {α : Type} [DecidableEq α]

/-- The first occurrences of the values not seen before. -/
def uniq (seen : List α) : List α → List α
  | [] => []
  | x :: xs => if x ∈ seen then uniq seen xs else x :: uniq (x :: seen) xs

@[simp] theorem uniq_nil (seen : List α) : uniq seen [] = [] := rfl

theorem uniq_cons_of_mem {seen : List α} {x : α} (h : x ∈ seen) (xs : List α) :
    uniq seen (x :: xs) = uniq seen xs := if_pos h

theorem uniq_cons_of_not_mem {seen : List α} {x : α} (h : x ∉ seen) (xs : List α) :
    uniq seen (x :: xs) = x :: uniq (x :: seen) xs := if_neg h

theorem mem_uniq {seen xs : List α} {a : α} : a ∈ uniq seen xs ↔ a ∈ xs ∧ a ∉ seen := by
  induction xs generalizing seen with
  | nil => simp
  | cons x xs ih =>
    by_cases hx : x ∈ seen
    · rw [uniq_cons_of_mem hx, ih, mem_cons]
      grind
    · rw [uniq_cons_of_not_mem hx, mem_cons, ih, mem_cons, mem_cons]
      grind

/-- No value is kept twice. -/
theorem nodup_uniq (seen xs : List α) : (uniq seen xs).Nodup := by
  induction xs generalizing seen with
  | nil => exact nodup_nil
  | cons x xs ih =>
    by_cases hx : x ∈ seen
    · rw [uniq_cons_of_mem hx]
      exact ih seen
    · rw [uniq_cons_of_not_mem hx, nodup_cons]
      exact ⟨fun h => (mem_uniq.mp h).2 mem_cons_self, ih (x :: seen)⟩

/-- A new value at the end is kept there. -/
theorem uniq_concat {seen xs : List α} {a : α} (hs : a ∉ seen) (hxs : a ∉ xs) :
    uniq seen (xs ++ [a]) = uniq seen xs ++ [a] := by
  induction xs generalizing seen with
  | nil => rw [nil_append, uniq_cons_of_not_mem hs]; rfl
  | cons x xs ih =>
    rw [mem_cons, not_or] at hxs
    by_cases hx : x ∈ seen
    · rw [cons_append, uniq_cons_of_mem hx, uniq_cons_of_mem hx, ih hs hxs.2]
    · have hs' : a ∉ x :: seen := by rw [mem_cons, not_or]; exact ⟨hxs.1, hs⟩
      rw [cons_append, uniq_cons_of_not_mem hx, uniq_cons_of_not_mem hx, ih hs' hxs.2,
        cons_append]

/-- A loop that appends what it has not seen yet. -/
theorem foldl_unseen (xs seen ordered : List α) :
    (xs.foldl (fun st x => if x ∉ st.1 then (x :: st.1, st.2 ++ [x]) else st)
      (seen, ordered)).2 = ordered ++ uniq seen xs := by
  induction xs generalizing seen ordered with
  | nil => rw [foldl_nil, uniq_nil, append_nil]
  | cons x xs ih =>
    by_cases hx : x ∈ seen
    · rw [foldl_cons, if_neg (not_not.mpr hx), ih, uniq_cons_of_mem hx]
    · rw [foldl_cons, if_pos hx, ih, uniq_cons_of_not_mem hx, append_assoc, singleton_append]

/-- What is kept depends on the values seen, not on their order. -/
theorem uniq_congr {seen seen' : List α} (h : ∀ a, a ∈ seen ↔ a ∈ seen') (xs : List α) :
    uniq seen xs = uniq seen' xs := by
  induction xs generalizing seen seen' with
  | nil => rfl
  | cons x xs ih =>
    by_cases hx : x ∈ seen
    · rw [uniq_cons_of_mem hx, uniq_cons_of_mem ((h x).mp hx), ih h]
    · rw [uniq_cons_of_not_mem hx, uniq_cons_of_not_mem (fun hx' => hx ((h x).mpr hx'))]
      exact congrArg (x :: ·) (ih fun a => by rw [mem_cons, mem_cons, h a])

/-- The first value kept is the first that is new, and what follows is kept as if it had
    been seen from the start. -/
theorem uniq_eq_find (seen xs : List α) :
    uniq seen xs =
      match xs.find? (· ∉ seen) with
      | none => []
      | some a => a :: uniq (a :: seen) xs := by
  induction xs with
  | nil => rfl
  | cons x xs ih =>
    -- a value seen before is passed over by both
    by_cases hx : x ∈ seen
    · rw [uniq_cons_of_mem hx, find?_cons_of_neg (by simpa using hx), ih]
      cases xs.find? (· ∉ seen) with
      | none => rfl
      | some a =>
        exact congrArg (a :: ·) (uniq_cons_of_mem (mem_cons_of_mem a hx) xs).symm
    · rw [uniq_cons_of_not_mem hx, find?_cons_of_pos (by simpa using hx)]
      exact congrArg (x :: ·) (uniq_cons_of_mem mem_cons_self xs).symm

/-- The entries of a list that carry the flag. -/
def flagged (R : List (α × Bool)) : List α :=
  (R.filter Prod.snd).map Prod.fst

omit [DecidableEq α] in
theorem flagged_append (R S : List (α × Bool)) : flagged (R ++ S) = flagged R ++ flagged S := by
  simp only [flagged, filter_append, map_append]

/-- Where an entry without the flag brings a value for the first time, the next new value
    among the entries with the flag is that value too. -/
def FlaggedInOrder (seen : List α) (R : List (α × Bool)) : Prop :=
  ∀ pre a post, R = pre ++ (a, false) :: post → a ∉ seen → a ∉ pre.map Prod.fst →
    (flagged post).find? (fun b => b ∉ seen ∧ b ∉ pre.map Prod.fst) = some a

theorem flaggedInOrder_nil (seen : List α) : FlaggedInOrder seen [] := by
  intro pre a post h
  exact absurd h.symm (append_ne_nil_of_right_ne_nil pre (cons_ne_nil _ post))

/-- An entry passed over counts as seen. -/
theorem find?_new_cons (seen : List α) (x : α) (flag : Bool) (pre : List (α × Bool))
    (xs : List α) :
    xs.find? (fun b => b ∉ seen ∧ b ∉ ((x, flag) :: pre).map Prod.fst) =
      xs.find? (fun b => b ∉ x :: seen ∧ b ∉ pre.map Prod.fst) := by
  congr 1
  funext b
  simp only [map_cons, mem_cons, not_or, decide_eq_decide]
  tauto

/-- The condition on the entries behind the first one. -/
theorem flaggedInOrder_cons_iff {seen : List α} {x : α} {flag : Bool} {R : List (α × Bool)} :
    FlaggedInOrder seen ((x, flag) :: R) ↔
      (flag = false → x ∉ seen → (flagged R).find? (· ∉ seen) = some x) ∧
        FlaggedInOrder (x :: seen) R := by
  constructor
  · intro h
    constructor
    · intro hflag hx
      subst hflag
      -- the entry itself, with nothing in front of it
      have hfirst := h [] x R rfl hx (by simp)
      simpa using hfirst
    · intro pre a post hR ha hpre
      rw [mem_cons, not_or] at ha
      rw [← find?_new_cons seen x flag]
      -- the entries in front grow by this one
      exact h ((x, flag) :: pre) a post (by rw [hR, cons_append]) ha.2
        (by rw [map_cons, mem_cons, not_or]; exact ⟨ha.1, hpre⟩)
  · intro h pre a post hR ha hpre
    obtain ⟨hfirst, hrest⟩ := h
    cases pre with
    | nil =>
      rw [nil_append] at hR
      obtain ⟨hhead, rfl⟩ := cons.inj hR
      obtain ⟨rfl, rfl⟩ := Prod.mk.inj hhead
      simpa using hfirst rfl ha
    | cons y pre =>
      rw [cons_append] at hR
      obtain ⟨hhead, htail⟩ := cons.inj hR
      subst hhead
      rw [map_cons, mem_cons, not_or] at hpre
      rw [find?_new_cons]
      exact hrest pre a post htail (by rw [mem_cons, not_or]; exact ⟨hpre.1, ha⟩) hpre.2

/-- The first occurrences among the entries with the flag are those among all entries
    exactly when the entries with the flag bring each new value in its turn. -/
theorem uniq_filter_eq_iff {seen : List α} {R : List (α × Bool)} :
    uniq seen (R.map Prod.fst) = uniq seen (flagged R) ↔ FlaggedInOrder seen R := by
  induction R generalizing seen with
  | nil => exact iff_of_true rfl (flaggedInOrder_nil seen)
  | cons entry R ih =>
    obtain ⟨x, flag⟩ := entry
    rw [map_cons, flaggedInOrder_cons_iff]
    by_cases hx : x ∈ seen
    · -- a value seen before is skipped on both sides
      have hflagged : uniq seen (flagged ((x, flag) :: R)) = uniq seen (flagged R) := by
        cases flag with
        | false => rfl
        | true => exact uniq_cons_of_mem hx (flagged R)
      have hseen : ∀ a, a ∈ seen ↔ a ∈ x :: seen := fun a => by
        rw [mem_cons]
        exact ⟨Or.inr, fun h => h.elim (fun h => h ▸ hx) id⟩
      rw [uniq_cons_of_mem hx, hflagged, uniq_congr hseen, uniq_congr hseen, ih]
      exact ⟨fun h => ⟨fun _ hx' => absurd hx hx', h⟩, And.right⟩
    · rw [uniq_cons_of_not_mem hx]
      cases flag with
      | true =>
        -- both sides keep it here
        have hflagged : uniq seen (flagged ((x, true) :: R)) =
            x :: uniq (x :: seen) (flagged R) := uniq_cons_of_not_mem hx (flagged R)
        rw [hflagged, cons.injEq, ih]
        simp
      | false =>
        -- the side with the flag has to keep the same value next
        have hflagged : flagged ((x, false) :: R) = flagged R := rfl
        rw [hflagged, uniq_eq_find seen (flagged R)]
        cases hfind : (flagged R).find? (· ∉ seen) with
        | none => simp [hx]
        | some a =>
          by_cases ha : x = a
          · subst ha
            simp [ih]
          · simp [hx, ha, Ne.symm ha]

end List
