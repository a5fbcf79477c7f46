import Mathlib

/-!
# Matchers

A regular expression as a matcher with backtracking: each part reads a piece of the input
and hands what is left to the part behind it, and a repetition tries its longest run first.
A matcher of a whole expression returns a value and the input behind the match. It is
described by its words: `Spells m W` says that `m` returns `b` exactly where a word of
`W b` starts. From the words alone follow the list of all matches in an input, and how the
matches of a concatenation relate to those of its parts.

## Key results

- `lit_eq_some_iff`, `one_eq_some_iff`, `many_eq_some_iff`: the words of the parts
- `findAll_eq_scan`: words that never overlap are found at every position they start at
- `scan_append`: no word crosses the border of two texts
- `flatMap_scan_splitOn`: searching line by line finds words without a line break
-/

namespace Matcher

variable {α β : Type}

/-! ## The parts of an expression -/

/-- Read a fixed text. -/
def lit [DecidableEq α] : List α → (List α → Option β) → List α → Option β
  | [], k, s => k s
  | _ :: _, _, [] => none
  | c :: cs, k, x :: s => if x = c then lit cs k s else none

/-- Read one element of a class. -/
def one (p : α → Bool) (k : α → List α → Option β) : List α → Option β
  | [] => none
  | x :: s => if p x then k x s else none

/-- Read a run of elements of a class, the longest that the rest of the expression takes. -/
def many (p : α → Bool) (k : List α → List α → Option β) : List α → Option β
  | [] => k [] []
  | x :: s =>
    if p x then (many p (fun run rest => k (x :: run) rest) s).or (k [] (x :: s))
    else k [] (x :: s)

theorem lit_eq_some_iff [DecidableEq α] {cs : List α} {k : List α → Option β} {s : List α}
    {b : β} : lit cs k s = some b ↔ ∃ rest, s = cs ++ rest ∧ k rest = some b := by
  induction cs generalizing s with
  | nil => simp [lit]
  | cons c cs ih =>
    cases s with
    | nil => simp [lit]
    | cons x s =>
      by_cases hx : x = c
      · simp [lit, hx, ih]
      · simp [lit, hx]

theorem one_eq_some_iff {p : α → Bool} {k : α → List α → Option β} {s : List α} {b : β} :
    one p k s = some b ↔ ∃ x rest, p x = true ∧ s = x :: rest ∧ k x rest = some b := by
  cases s with
  | nil => simp [one]
  | cons x s =>
    by_cases hx : p x = true
    · simp [one, hx]
    · simp only [one, hx, Bool.false_eq_true, ↓reduceIte, reduceCtorEq, false_iff]
      intro h
      obtain ⟨y, rest, hy, heq, -⟩ := h
      exact hx ((List.cons.inj heq).1 ▸ hy)

/-- What a repetition returns comes from some run. -/
theorem many_sound {p : α → Bool} {k : List α → List α → Option β} {s : List α} {b : β}
    (h : many p k s = some b) :
    ∃ run rest, (∀ x ∈ run, p x = true) ∧ s = run ++ rest ∧ k run rest = some b := by
  induction s generalizing k with
  | nil => exact ⟨[], [], by simp, rfl, h⟩
  | cons x s ih =>
    unfold many at h
    split at h
    · rename_i hx
      -- either a longer run succeeded, or the run stops here
      cases Option.or_eq_some_iff.mp h with
      | inl hmore =>
        obtain ⟨run, rest, hrun, rfl, hk⟩ := ih hmore
        exact ⟨x :: run, rest, List.forall_mem_cons.mpr ⟨hx, hrun⟩, rfl, hk⟩
      | inr hstop => exact ⟨[], x :: s, by simp, rfl, hstop.2⟩
    · exact ⟨[], x :: s, by simp, rfl, h⟩

/-- A repetition fails only where every run does. -/
theorem many_complete {p : α → Bool} {k : List α → List α → Option β} {run rest : List α}
    {b : β} (hrun : ∀ x ∈ run, p x = true) (hk : k run rest = some b) :
    ∃ b', many p k (run ++ rest) = some b' := by
  induction run generalizing k with
  | nil =>
    cases rest with
    | nil => exact ⟨b, hk⟩
    | cons x rest =>
      rw [List.nil_append, many]
      split
      · rw [hk]
        cases many p (fun run rest => k (x :: run) rest) rest with
        | none => exact ⟨b, rfl⟩
        | some b' => exact ⟨b', rfl⟩
      · exact ⟨b, hk⟩
  | cons x run ih =>
    obtain ⟨hx, hrun⟩ := List.forall_mem_cons.mp hrun
    -- the run behind `x` is what the rest of the expression sees with `x` in front
    obtain ⟨b', hb'⟩ := ih (k := fun run rest => k (x :: run) rest) hrun hk
    refine ⟨b', ?_⟩
    rw [List.cons_append, many, if_pos hx, hb', Option.some_or]

/-- Where the rest of the expression gives one result only, a repetition gives it. -/
theorem many_eq_some_iff {p : α → Bool} {k : List α → List α → Option β} {s : List α} {b : β}
    (huniq : ∀ run rest run' rest' a a', (∀ x ∈ run, p x = true) → (∀ x ∈ run', p x = true) →
      s = run ++ rest → s = run' ++ rest' → k run rest = some a → k run' rest' = some a' →
      a = a') :
    many p k s = some b ↔
      ∃ run rest, (∀ x ∈ run, p x = true) ∧ s = run ++ rest ∧ k run rest = some b := by
  constructor
  · exact many_sound
  · intro h
    obtain ⟨run, rest, hrun, rfl, hk⟩ := h
    -- some run succeeds, and it gives the same result as this one
    obtain ⟨b', hb'⟩ := many_complete hrun hk
    obtain ⟨run', rest', hrun', heq, hk'⟩ := many_sound hb'
    rw [hb', huniq run rest run' rest' b b' hrun hrun' rfl heq hk hk']

/-- Where the rest of the expression never starts inside the class, the run is the longest
    one. -/
theorem run_unique {p : α → Bool} {k : List α → List α → Option β}
    (hstop : ∀ run x rest, p x = true → k run (x :: rest) = none) {run rest run' rest' : List α}
    {a a' : β} (hrun : ∀ x ∈ run, p x = true) (hrun' : ∀ x ∈ run', p x = true)
    (heq : run ++ rest = run' ++ rest') (hk : k run rest = some a)
    (hk' : k run' rest' = some a') : run = run' ∧ rest = rest' := by
  induction run generalizing k run' with
  | nil =>
    cases run' with
    | nil => exact ⟨rfl, heq⟩
    | cons y run' =>
      -- the shorter run would leave `y` of the class in front
      rw [List.nil_append] at heq
      rw [heq, List.cons_append, hstop [] y _ (hrun' y List.mem_cons_self)] at hk
      exact absurd hk (Option.some_ne_none a).symm
  | cons x run ih =>
    cases run' with
    | nil =>
      rw [List.nil_append] at heq
      rw [← heq, List.cons_append, hstop [] x _ (hrun x List.mem_cons_self)] at hk'
      exact absurd hk' (Option.some_ne_none a').symm
    | cons y run' =>
      obtain ⟨rfl, htail⟩ := List.cons.inj heq
      obtain ⟨rfl, rfl⟩ := ih (k := fun run rest => k (x :: run) rest)
        (fun run y rest hy => hstop (x :: run) y rest hy)
        (List.forall_mem_cons.mp hrun).2 (List.forall_mem_cons.mp hrun').2 htail hk hk'
      exact ⟨rfl, rfl⟩

/-- Such a repetition reads its longest run. -/
theorem many_eq_some_iff_of_stop {p : α → Bool} {k : List α → List α → Option β}
    {s : List α} {b : β} (hstop : ∀ run x rest, p x = true → k run (x :: rest) = none) :
    many p k s = some b ↔
      ∃ run rest, (∀ x ∈ run, p x = true) ∧ s = run ++ rest ∧ k run rest = some b := by
  refine many_eq_some_iff fun run rest run' rest' a a' hrun hrun' heq heq' hk hk' => ?_
  obtain ⟨rfl, rfl⟩ := run_unique hstop hrun hrun' (heq.symm.trans heq') hk hk'
  exact Option.some.inj (hk.symm.trans hk')

/-! ## Words and their occurrences -/

/-- A suffix does not start in a part of the text without its first element. -/
theorem suffix_right_of_not_mem {x : α} {u s t : List α} (h : x :: u <:+ s ++ t)
    (hx : x ∉ s) : x :: u <:+ t := by
  induction s with
  | nil => exact h
  | cons y s ih =>
    rw [List.mem_cons, not_or] at hx
    cases List.suffix_cons_iff.mp h with
    | inl heq => exact absurd (List.cons.inj heq).1 hx.1
    | inr hsuf => exact ih hsuf hx.2

/-- The matcher returns `b` exactly where a word of `W b` starts. -/
def Spells (m : List α → Option (β × List α)) (W : β → List α → Prop) : Prop :=
  ∀ s b rest, m s = some (b, rest) ↔ ∃ w, W b w ∧ s = w ++ rest

/-- The values at all positions where a match starts, in order. -/
def scan (m : List α → Option (β × List α)) : List α → List β
  | [] => []
  | x :: s =>
    match m (x :: s) with
    | none => scan m s
    | some (b, _) => b :: scan m s

/-- Skip `skip` elements, then search on: a match is listed and skipped over. -/
def findFrom (m : List α → Option (β × List α)) : Nat → List α → List β
  | _, [] => []
  | skip + 1, _ :: s => findFrom m skip s
  | 0, x :: s =>
    match m (x :: s) with
    | none => findFrom m 0 s
    | some (b, rest) => b :: findFrom m (s.length - rest.length) s

/-- The values of the matches from left to right, each search starting behind the match
    before it. No expression here matches the empty text. -/
def findAll (m : List α → Option (β × List α)) (s : List α) : List β :=
  findFrom m 0 s

section

variable {m : List α → Option (β × List α)} {W : β → List α → Prop}

@[simp] theorem scan_nil : scan m [] = [] := rfl

theorem scan_cons (x : α) (s : List α) :
    scan m (x :: s) = ((m (x :: s)).map Prod.fst).toList ++ scan m s := by
  rw [scan]
  cases m (x :: s) with
  | none => rfl
  | some r => rfl

theorem scan_cons_none {x : α} {s : List α} (h : m (x :: s) = none) :
    scan m (x :: s) = scan m s := by
  rw [scan_cons, h]
  rfl

/-- A value is listed where its match starts. -/
theorem mem_scan_iff {b : β} {s : List α} :
    b ∈ scan m s ↔ ∃ v rest, v ≠ [] ∧ v <:+ s ∧ m v = some (b, rest) := by
  induction s with
  | nil =>
    refine iff_of_false List.not_mem_nil fun h => ?_
    obtain ⟨v, rest, hne, hv, -⟩ := h
    exact hne (List.suffix_nil.mp hv)
  | cons x s ih =>
    rw [scan_cons, List.mem_append, Option.mem_toList, Option.map_eq_some_iff, ih]
    constructor
    · intro h
      cases h with
      | inl h =>
        obtain ⟨r, hr, rfl⟩ := h
        exact ⟨x :: s, r.2, List.cons_ne_nil x s, List.suffix_rfl, hr⟩
      | inr h =>
        obtain ⟨v, rest, hne, hv, hmatch⟩ := h
        exact ⟨v, rest, hne, hv.trans (List.suffix_cons x s), hmatch⟩
    · intro h
      obtain ⟨v, rest, hne, hv, hmatch⟩ := h
      cases List.suffix_cons_iff.mp hv with
      | inl heq => exact .inl ⟨(b, rest), heq ▸ hmatch, rfl⟩
      | inr hv => exact .inr ⟨v, rest, hne, hv, hmatch⟩

/-- No match in a text without an element that every word holds. -/
theorem scan_eq_nil (hm : Spells m W) {x : α} (hx : ∀ b w, W b w → x ∈ w) {s : List α}
    (hs : x ∉ s) : scan m s = [] := by
  rw [List.eq_nil_iff_forall_not_mem]
  intro b hb
  obtain ⟨v, rest, -, hv, hmatch⟩ := mem_scan_iff.mp hb
  obtain ⟨w, hw, rfl⟩ := (hm v b rest).mp hmatch
  exact hs (hv.mem (List.mem_append_left rest (hx b w hw)))

/-- A piece of text without any start of a match is passed over. -/
theorem scan_skip {u rest : List α} (h : ∀ v, v <:+ u → v ≠ [] → m (v ++ rest) = none) :
    scan m (u ++ rest) = scan m rest := by
  induction u with
  | nil => rfl
  | cons x u ih =>
    have hnone : m (x :: (u ++ rest)) = none :=
      h (x :: u) List.suffix_rfl (List.cons_ne_nil x u)
    rw [List.cons_append, scan_cons_none hnone]
    exact ih fun v hv hne => h v (hv.trans (List.suffix_cons x u)) hne

/-- No match starts inside of a word. -/
def NoOverlap (m : List α → Option (β × List α)) (W : β → List α → Prop) : Prop :=
  ∀ b x w v rest, W b (x :: w) → v <:+ w → v ≠ [] → m (v ++ rest) = none

/-- A word is one match. -/
theorem scan_word (hm : Spells m W) (hno : NoOverlap m W) {b : β} {w rest : List α}
    (hw : W b w) (hne : w ≠ []) : scan m (w ++ rest) = b :: scan m rest := by
  obtain ⟨x, w, rfl⟩ := List.exists_cons_of_ne_nil hne
  have hmatch : m (x :: (w ++ rest)) = some (b, rest) := (hm _ b rest).mpr ⟨x :: w, hw, rfl⟩
  rw [List.cons_append, scan_cons, hmatch,
    scan_skip fun v hv hv' => hno b x w v rest hw hv hv']
  rfl

theorem findFrom_append (w s : List α) : findFrom m w.length (w ++ s) = findFrom m 0 s := by
  induction w with
  | nil => rfl
  | cons x w ih => exact ih

/-- Words that do not overlap are found wherever they start. -/
theorem findAll_eq_scan (hm : Spells m W) (hno : NoOverlap m W)
    (hne : ∀ b w, W b w → w ≠ []) (s : List α) : findAll m s = scan m s := by
  -- on the length: behind a match the search goes on with what is left
  induction hn : s.length using Nat.strongRecOn generalizing s with
  | ind n ih =>
    cases s with
    | nil => rfl
    | cons x s =>
      rw [List.length_cons] at hn
      cases hmatch : m (x :: s) with
      | none =>
        rw [scan_cons_none hmatch, findAll, findFrom, hmatch]
        exact ih s.length (by omega) s rfl
      | some r =>
        obtain ⟨b, rest⟩ := r
        obtain ⟨w, hw, heq⟩ := (hm (x :: s) b rest).mp hmatch
        obtain ⟨y, w, rfl⟩ := List.exists_cons_of_ne_nil (hne b w hw)
        rw [List.cons_append] at heq
        obtain ⟨rfl, rfl⟩ := List.cons.inj heq
        rw [List.length_append] at hn
        -- `findFrom` skips what is left of the word
        have hskip : (w ++ rest).length - rest.length = w.length := by
          rw [List.length_append]
          omega
        have hrest : findAll m rest = scan m rest := ih rest.length (by omega) rest rfl
        rw [findAll, findFrom, hmatch, ← List.cons_append,
          scan_word hm hno hw (List.cons_ne_nil x w)]
        show b :: findFrom m ((w ++ rest).length - rest.length) (w ++ rest) = _
        rw [hskip, findFrom_append]
        exact congrArg (b :: ·) hrest

/-- A matcher sees the input behind its word only as what is left. -/
theorem matches_append (hm : Spells m W) {s t : List α}
    (hborder : ∀ b u v, W b (u ++ v) → u ≠ [] → v ≠ [] → ¬ v <+: t) (hs : s ≠ []) :
    (m (s ++ t)).map Prod.fst = (m s).map Prod.fst := by
  cases hall : m (s ++ t) with
  | none =>
    cases hpart : m s with
    | none => rfl
    | some r =>
      obtain ⟨b, rest⟩ := r
      obtain ⟨w, hw, rfl⟩ := (hm s b rest).mp hpart
      have h := (hm (w ++ rest ++ t) b (rest ++ t)).mpr ⟨w, hw, List.append_assoc w rest t⟩
      exact absurd (hall.symm.trans h) (Option.some_ne_none _).symm
  | some r =>
    obtain ⟨b, rest⟩ := r
    obtain ⟨w, hw, heq⟩ := (hm (s ++ t) b rest).mp hall
    cases List.append_eq_append_iff.mp heq with
    | inl h =>
      -- the word reaches behind `s`, so it would have to cross the border
      obtain ⟨v, rfl, rfl⟩ := h
      by_cases hv : v = []
      · rw [hv, List.append_nil] at hw
        have h := (hm s b []).mpr ⟨s, hw, (List.append_nil s).symm⟩
        rw [h]
        rfl
      · exact absurd (List.prefix_append v rest) (hborder b s v hw hs hv)
    | inr h =>
      -- the word lies within `s`
      obtain ⟨v, rfl, -⟩ := h
      have h := (hm (w ++ v) b v).mpr ⟨w, hw, rfl⟩
      rw [h]
      rfl

/-- Where no word crosses the border of two texts, the matches of both together are those of
    the first and then those of the second. -/
theorem scan_append (hm : Spells m W) {t : List α}
    (hborder : ∀ b u v, W b (u ++ v) → u ≠ [] → v ≠ [] → ¬ v <+: t) (s : List α) :
    scan m (s ++ t) = scan m s ++ scan m t := by
  induction s with
  | nil => rfl
  | cons x s ih =>
    rw [List.cons_append, scan_cons, scan_cons, ih, List.append_assoc, ← List.cons_append,
      matches_append hm hborder (List.cons_ne_nil x s)]

/-- Text without the element that every word ends with adds no match behind a text. -/
theorem scan_append_of_getLast (hm : Spells m W) {x : α}
    (hx : ∀ b w, W b w → w.getLast? = some x) {t : List α} (ht : x ∉ t) (s : List α) :
    scan m (s ++ t) = scan m s := by
  have hmem : ∀ b w, W b w → x ∈ w := fun b w hw => List.mem_of_getLast? (hx b w hw)
  rw [scan_append hm, scan_eq_nil hm hmem ht, List.append_nil]
  intro b u v hw _ hv hpre
  obtain ⟨y, hy⟩ := List.getLast?_isSome.mpr hv |> Option.isSome_iff_exists.mp
  have hlast := hx b (u ++ v) hw
  rw [List.getLast?_append, hy, Option.some_or] at hlast
  exact ht (hpre.mem (Option.some.inj hlast ▸ List.mem_of_getLast? hy))

/-- No match starts with an element that no word holds. -/
theorem Spells.eq_none (hm : Spells m W) (hne : ∀ b w, W b w → w ≠ []) {x : α}
    (hx : ∀ b w, W b w → x ∉ w) (s : List α) : m (x :: s) = none := by
  cases h : m (x :: s) with
  | none => rfl
  | some r =>
    obtain ⟨b, rest⟩ := r
    obtain ⟨w, hw, heq⟩ := (hm (x :: s) b rest).mp h
    obtain ⟨y, w, rfl⟩ := List.exists_cons_of_ne_nil (hne b w hw)
    exact absurd ((List.cons.inj heq).1 ▸ List.mem_cons_self) (hx b (y :: w) hw)

/-- An element that no word holds separates the matches around it. -/
theorem scan_append_cons (hm : Spells m W) (hne : ∀ b w, W b w → w ≠ []) {x : α}
    (hx : ∀ b w, W b w → x ∉ w) (s t : List α) :
    scan m (s ++ x :: t) = scan m s ++ scan m t := by
  rw [scan_append hm, scan_cons_none (hm.eq_none hne hx t)]
  intro b u v hw hu hv hpre
  obtain ⟨y, v, rfl⟩ := List.exists_cons_of_ne_nil hv
  obtain ⟨rest, heq⟩ := hpre
  have hy : y = x := (List.cons.inj heq).1
  exact hx b _ hw (List.mem_append_right u (hy ▸ List.mem_cons_self))

/-- Searching the lines of a text one by one finds the words that hold no line break. -/
theorem flatMap_scan_splitOn [DecidableEq α] (hm : Spells m W) (hne : ∀ b w, W b w → w ≠ [])
    {x : α} (hx : ∀ b w, W b w → x ∉ w) (s : List α) :
    (s.splitOn x).flatMap (scan m) = scan m s := by
  induction hn : s.length using Nat.strongRecOn generalizing s with
  | ind n ih =>
    by_cases hmem : x ∈ s
    · obtain ⟨line, more, rfl, hline⟩ := List.eq_append_cons_of_mem hmem
      -- the first line, and the lines behind it
      have hmore := ih more.length (by rw [List.length_append, List.length_cons] at hn; omega)
        more rfl
      rw [List.splitOn_append_cons_self_of_not_mem hline, List.flatMap_cons, hmore,
        scan_append_cons hm hne hx]
    · rw [List.splitOn_eq_singleton hmem, List.flatMap_singleton]

end

end Matcher
