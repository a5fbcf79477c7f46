import LezFuzzing.Spec.TargetListsCorrect

/-!
# Registering a target

`add_fuzz_target.py` reads the manifest as text, looks for `name = "…"` in it, and appends an
entry where it finds none. Three tests have to coincide for that to be exact: the check of
the name, which also accepts a newline behind it; the search for the entry, in one spelling;
and the expression that registers a target in any spacing. Reading the manifest as text also
changes its line breaks.

## Key results

- `exists_of_targetRe`: the names that are accepted
- `registeredTargets_binEntry`: what the appended entry registers
- `registersExactly_iff`: the manifests and names for which a run is exact and idempotent
-/

namespace LezFuzzing.Spec

open Matcher LezFuzzing.Native

/-! ## The accepted names -/

theorem isTargetChar_of_isLower {c : Char} (h : isLower c = true) : isTargetChar c = true := by
  simp [isTargetChar, h]

/-- The check accepts a name, and a name with one newline behind it. -/
theorem exists_of_targetRe {target : List Char} (h : targetRe target = true) :
    ∃ name, IsFuzzName name ∧ (target = name ∨ target = name ++ ['\n']) := by
  obtain ⟨u, hu⟩ := Option.isSome_iff_exists.mp h
  obtain ⟨s₁, rfl, h₁⟩ := lit_eq_some_iff.mp hu
  obtain ⟨c, s₂, hc, rfl, h₂⟩ := one_eq_some_iff.mp h₁
  obtain ⟨cs, rest, hcs, rfl, h₃⟩ := many_sound h₂
  have hname : IsFuzzName (fuzzPrefix ++ c :: cs) :=
    ⟨c :: cs, List.cons_ne_nil c cs,
      List.forall_mem_cons.mpr ⟨isTargetChar_of_isLower hc, hcs⟩, rfl⟩
  refine ⟨fuzzPrefix ++ c :: cs, hname, ?_⟩
  -- where `$` matches
  by_cases hend : rest = [] ∨ rest = ['\n']
  · cases hend with
    | inl hend => exact .inl (by rw [hend, List.append_nil])
    | inr hend => exact .inr (by rw [hend, List.append_assoc, List.cons_append])
  · rw [if_neg hend] at h₃
    exact absurd h₃ (Option.some_ne_none u).symm

/-! ## The text that is written -/

theorem not_mem_translateNewlines (cr : Bool) (s : List Char) :
    '\r' ∉ translateNewlines cr s := by
  induction s generalizing cr with
  | nil => exact List.not_mem_nil
  | cons c s ih =>
    obtain ⟨-, hread⟩ | ⟨-, hread⟩ | ⟨hc, hread⟩ := translateNewlines_cons_cases cr c s
    · rw [hread, List.mem_cons, not_or]
      exact ⟨by decide, ih true⟩
    · rw [hread]
      exact ih false
    · rw [hread, List.mem_cons, not_or]
      exact ⟨Ne.symm hc, ih false⟩

/-- Text without carriage returns is read as it is. -/
theorem translateNewlines_append {s : List Char} (h : '\r' ∉ s) (t : List Char) :
    translateNewlines false (s ++ t) = s ++ translateNewlines false t := by
  induction s with
  | nil => rfl
  | cons c s ih =>
    rw [List.mem_cons, not_or] at h
    rw [List.cons_append, translateNewlines_cons _ (Ne.symm h.1), ih h.2, List.cons_append]

theorem readText_of_not_mem {s : List Char} (h : '\r' ∉ s) : readText s = s := by
  have hread := translateNewlines_append h []
  rw [List.append_nil] at hread
  exact hread.trans (List.append_nil s)

theorem rdropWhile_append_of_pos {p : Char → Bool} {t : List Char} (h : ∀ c ∈ t, p c = true)
    (s : List Char) : (s ++ t).rdropWhile p = s.rdropWhile p := by
  rw [List.rdropWhile, List.reverse_append, List.dropWhile_append_of_pos, List.rdropWhile]
  intro c hc
  exact h c (List.mem_reverse.mp hc)

/-- A text without the newlines and carriage returns at its end. -/
def rstripBreaks (s : List Char) : List Char :=
  s.rdropWhile fun c => c == '\n' || c == '\r'

theorem exists_rstripBreaks (s : List Char) :
    ∃ breaks, s = rstripBreaks s ++ breaks ∧ ∀ c ∈ breaks, c = '\n' ∨ c = '\r' := by
  refine ⟨s.rtakeWhile fun c => c == '\n' || c == '\r',
    List.rdropWhile_append_rtakeWhile.symm, fun c hc => ?_⟩
  simpa using List.mem_rtakeWhile_imp hc

/-- Line breaks are read as newlines. -/
theorem translateNewlines_breaks {s : List Char} (h : ∀ c ∈ s, c = '\n' ∨ c = '\r')
    (cr : Bool) : ∀ c ∈ translateNewlines cr s, c = '\n' := by
  induction s generalizing cr with
  | nil => exact List.forall_mem_nil _
  | cons c s ih =>
    obtain ⟨hc, hs⟩ := List.forall_mem_cons.mp h
    obtain ⟨-, hread⟩ | ⟨-, hread⟩ | ⟨hr, hread⟩ := translateNewlines_cons_cases cr c s
    · rw [hread]
      exact List.forall_mem_cons.mpr ⟨rfl, ih hs true⟩
    · rw [hread]
      exact ih hs false
    · rw [hread]
      exact List.forall_mem_cons.mpr ⟨hc.resolve_right hr, ih hs false⟩

/-- A text whose only carriage returns are at its end is written back up to its end. -/
theorem rstripNewlines_readText {s : List Char} (h : '\r' ∉ rstripBreaks s) :
    rstripNewlines (readText s) = rstripBreaks s := by
  obtain ⟨breaks, heq, hbreaks⟩ := exists_rstripBreaks s
  have hread : readText s = rstripBreaks s ++ translateNewlines false breaks := by
    rw [readText, ← translateNewlines_append h, ← heq]
  have hnl : ∀ c ∈ translateNewlines false breaks, (c == '\n') = true := fun c hc =>
    beq_iff_eq.mpr (translateNewlines_breaks hbreaks false c hc)
  rw [rstripNewlines, hread, rdropWhile_append_of_pos hnl, List.rdropWhile_eq_self_iff]
  intro hne hlast
  -- the text kept ends neither in a newline nor in a carriage return
  refine List.rdropWhile_last_not _ _ hne ?_
  show (_ == '\n' || _ == '\r') = true
  rw [Bool.or_eq_true]
  exact .inl hlast

/-! ## What an entry registers -/

theorem BinWord.getLast? {target w : List Char} (h : BinWord target w) :
    w.getLast? = some '"' := by
  obtain ⟨sp₁, sp₂, -, -, -, rfl⟩ := h
  have hlast : ['n', 'a', 'm', 'e'] ++ (sp₁ ++ '=' :: (sp₂ ++ '"' :: (target ++ ['"']))) =
      (['n', 'a', 'm', 'e'] ++ sp₁ ++ '=' :: sp₂ ++ '"' :: target) ++ ['"'] := by simp
  rw [hlast, List.getLast?_concat]

theorem BinWord.quote_mem {target w : List Char} (h : BinWord target w) : '"' ∈ w :=
  List.mem_of_getLast? h.getLast?

/-- The characters that a registration does not hold. -/
theorem BinWord.not_mem {target w : List Char} (h : BinWord target w) {c : Char}
    (hspace : isSpace c = false) (htarget : isTargetChar c = false)
    (hc : c ∉ ['n', 'a', 'm', 'e', '=', '"']) : c ∉ w := by
  obtain ⟨sp₁, sp₂, hsp₁, hsp₂, hname, rfl⟩ := h
  have hnot : ∀ sp : List Char, (∀ c ∈ sp, isSpace c = true) → c ∉ sp := by
    intro sp hsp hmem
    rw [hsp c hmem] at hspace
    exact absurd hspace (by decide)
  simp only [List.mem_cons, List.not_mem_nil, or_false, not_or] at hc
  simp [hnot sp₁ hsp₁, hnot sp₂ hsp₂, hname.not_mem htarget, hc]

/-- A character that no registration holds separates the registrations around it. -/
theorem scan_binNameRe_append_cons {c : Char} (hspace : isSpace c = false)
    (htarget : isTargetChar c = false) (hc : c ∉ ['n', 'a', 'm', 'e', '=', '"'])
    (s t : List Char) : scan binNameRe (s ++ c :: t) = scan binNameRe s ++ scan binNameRe t :=
  scan_append_cons binNameRe_spells (fun _ _ => BinWord.ne_nil)
    (fun _ _ hw => hw.not_mem hspace htarget hc) s t

/-- The registrations of a text do not depend on the newlines at its end. -/
theorem scan_rstripNewlines (s : List Char) :
    scan binNameRe (rstripNewlines s) = scan binNameRe s := by
  -- a registration ends with a quote, which is not a newline
  have hquote : '"' ∉ s.rtakeWhile (· == '\n') := fun h =>
    absurd (List.mem_rtakeWhile_imp h) (by decide)
  have happend := scan_append_of_getLast binNameRe_spells (fun _ _ => BinWord.getLast?) hquote
    (rstripNewlines s)
  rw [rstripNewlines, List.rdropWhile_append_rtakeWhile] at happend
  exact happend.symm

/-- An appended entry registers its target behind those of the text. -/
theorem scan_binEntry {target : List Char} (h : IsFuzzName target) (s : List Char) :
    scan binNameRe (s ++ '\n' :: binEntry target) = scan binNameRe s ++ [target] := by
  have hheader : '\n' :: binHeader = '\n' :: '\n' :: '[' :: ['[', 'b', 'i', 'n', ']', ']', '\n'] :=
    by decide
  have hpath : pathHeader = pathHeader.dropLast ++ ['/'] := by decide +kernel
  have hend : entryEnd = '.' :: entryEnd.tail := by decide +kernel
  have hentry : s ++ '\n' :: binEntry target =
      (s ++ ['\n', '\n']) ++ '[' :: (['[', 'b', 'i', 'n', ']', ']', '\n'] ++ (nameLine target ++
        (pathHeader.dropLast ++ '/' :: (target ++ '.' :: entryEnd.tail)))) := by
    rw [binEntry, ← List.cons_append, ← List.cons_append, ← List.cons_append,
      ← List.cons_append, hheader, hpath, hend]
    simp only [List.append_assoc, List.cons_append, List.nil_append, List.dropLast_concat]
    rfl
  -- registrations do not hold the characters `[`, `/` and `.`
  have hnoquote : '"' ∉ ['\n', '\n'] := by decide
  have hbreaks : scan binNameRe (s ++ ['\n', '\n']) = scan binNameRe s :=
    scan_append_of_getLast binNameRe_spells (fun _ _ => BinWord.getLast?) hnoquote s
  have hskip : ∀ t, scan binNameRe (['[', 'b', 'i', 'n', ']', ']', '\n'] ++ t) =
      scan binNameRe t := fun _ => rfl
  have hname : scan binNameRe target = [] :=
    scan_eq_nil binNameRe_spells (fun _ _ => BinWord.quote_mem) (h.not_mem (by decide))
  have hpathScan : scan binNameRe pathHeader.dropLast = [] := by decide +kernel
  have hendScan : scan binNameRe entryEnd.tail = [] := by decide +kernel
  rw [hentry, scan_binNameRe_append_cons (by decide) (by decide) (by decide), hbreaks, hskip,
    scan_word binNameRe_spells noOverlap_binNameRe (binWord_nameLine h)
      (binWord_nameLine h).ne_nil,
    scan_binNameRe_append_cons (by decide) (by decide) (by decide), hpathScan,
    scan_binNameRe_append_cons (by decide) (by decide) (by decide), hname, hendScan]
  rfl

/-- A text that holds the entry of a target registers it. -/
theorem mem_registeredTargets_of_occurs {target cargoToml : List Char} (h : IsFuzzName target)
    (hocc : nameLine target <:+: cargoToml) : target ∈ registeredTargets cargoToml := by
  have hne : nameLine target ≠ [] := (binWord_nameLine h).ne_nil
  rw [← infix_translateNewlines (noBreak_nameLine h.noBreak) hne false] at hocc
  obtain ⟨pre, post, heq⟩ := hocc
  rw [mem_registeredTargets, mem_scan_iff, readText, ← heq, List.append_assoc]
  exact ⟨nameLine target ++ post, post, List.append_ne_nil_of_left_ne_nil hne post,
    List.suffix_append pre _, (binNameRe_spells _ _ _).mpr ⟨_, binWord_nameLine h, rfl⟩⟩

/-! ## A run of the script -/

section

variable (repr : List Char → String) (script path : String)

/-- The manifest after `add_fuzz_target.py` ran with one argument. -/
def manifestAfter (target cargoToml : List Char) : Option (List Char) :=
  (addFuzzTarget repr script path [target] (some cargoToml)).2

theorem manifestAfter_of_accepted {target : List Char} (h : targetRe target = true)
    (cargoToml : List Char) :
    manifestAfter repr script path target cargoToml =
      some (appendCargoBin repr target cargoToml).1 := by
  simp [manifestAfter, addFuzzTarget, h]

theorem nameLine_infix_readText {target : List Char} (h : NoBreak target)
    (cargoToml : List Char) :
    nameLine target <:+: readText cargoToml ↔ nameLine target <:+: cargoToml :=
  infix_translateNewlines (noBreak_nameLine h) (List.cons_ne_nil _ _) false cargoToml

theorem appendCargoBin_of_occurs {target cargoToml : List Char} (h : NoBreak target)
    (hocc : nameLine target <:+: cargoToml) :
    (appendCargoBin repr target cargoToml).1 = cargoToml := by
  rw [appendCargoBin, if_pos ((nameLine_infix_readText h cargoToml).mpr hocc)]

theorem appendCargoBin_of_not_occurs {target cargoToml : List Char} (h : NoBreak target)
    (hocc : ¬ nameLine target <:+: cargoToml) :
    (appendCargoBin repr target cargoToml).1 =
      rstripNewlines (readText cargoToml) ++ '\n' :: binEntry target := by
  rw [appendCargoBin, if_neg fun hread =>
    hocc ((nameLine_infix_readText h cargoToml).mp hread)]

/-- The entry is found where it was appended. -/
theorem infix_binEntry (target s : List Char) :
    nameLine target <:+: s ++ '\n' :: binEntry target := by
  refine ⟨s ++ '\n' :: binHeader, pathHeader ++ target ++ entryEnd, ?_⟩
  simp [binEntry]

theorem not_mem_binEntry {target s : List Char} (h : NoBreak target) (hs : '\r' ∉ s) :
    '\r' ∉ s ++ '\n' :: binEntry target := by
  have hheader : '\r' ∉ binHeader := by decide +kernel
  have hpath : '\r' ∉ pathHeader := by decide +kernel
  have hend : '\r' ∉ entryEnd := by decide +kernel
  simp [binEntry, hs, hheader, hpath, hend, h.2, (noBreak_nameLine h).2]

theorem not_mem_rstripNewlines (cargoToml : List Char) :
    '\r' ∉ rstripNewlines (readText cargoToml) := fun hmem =>
  not_mem_translateNewlines false cargoToml ((List.rdropWhile_prefix _ _).mem hmem)

/-- An entry is appended to the registered targets. -/
theorem registeredTargets_binEntry {target cargoToml : List Char} (h : IsFuzzName target)
    (hnew : target ∉ registeredTargets cargoToml) :
    registeredTargets (rstripNewlines (readText cargoToml) ++ '\n' :: binEntry target) =
      registeredTargets cargoToml ++ [target] := by
  rw [mem_registeredTargets] at hnew
  rw [registeredTargets_eq_uniq, registeredTargets_eq_uniq,
    readText_of_not_mem (not_mem_binEntry h.noBreak (not_mem_rstripNewlines cargoToml)),
    scan_binEntry h, scan_rstripNewlines, List.uniq_concat List.not_mem_nil hnew]

/-- The text in front of the line breaks at its end is kept exactly when no carriage return is
    in it. -/
theorem rstripBreaks_prefix_iff {target : List Char} (h : NoBreak target)
    (cargoToml : List Char) :
    rstripBreaks cargoToml <+: rstripNewlines (readText cargoToml) ++ '\n' :: binEntry target ↔
      '\r' ∉ rstripBreaks cargoToml := by
  constructor
  · intro hpre hmem
    exact not_mem_binEntry h (not_mem_rstripNewlines cargoToml) (hpre.mem hmem)
  · intro hmem
    rw [rstripNewlines_readText hmem]
    exact List.prefix_append _ _

/-- A run of the script is exact and idempotent: a new target is registered behind the others
    and the text is kept up to the line breaks at its end, a registered one leaves the
    manifest unchanged, and a second run changes nothing. -/
def RegistersExactly (target cargoToml : List Char) : Prop :=
  ∃ after, manifestAfter repr script path target cargoToml = some after ∧
    (target ∉ registeredTargets cargoToml →
      registeredTargets after = registeredTargets cargoToml ++ [target] ∧
        rstripBreaks cargoToml <+: after) ∧
    (target ∈ registeredTargets cargoToml → after = cargoToml) ∧
    manifestAfter repr script path target after = some after

/-- The name has no newline behind it, a manifest that registers it has its entry in the
    spelling of the script, and one that does not has carriage returns at its end only. -/
structure SpelledForUpdate (target cargoToml : List Char) : Prop where
  name : '\n' ∉ target
  registered : target ∈ registeredTargets cargoToml → nameLine target <:+: cargoToml
  unregistered : target ∉ registeredTargets cargoToml → '\r' ∉ rstripBreaks cargoToml

/-- A run with an accepted name is exact and idempotent exactly on these manifests. -/
theorem registersExactly_iff {target : List Char} (h : targetRe target = true)
    (cargoToml : List Char) :
    RegistersExactly repr script path target cargoToml ↔ SpelledForUpdate target cargoToml := by
  unfold RegistersExactly
  simp only [manifestAfter_of_accepted repr script path h, Option.some.injEq, exists_eq_left']
  obtain ⟨name, hname, hcase⟩ := exists_of_targetRe h
  cases hcase with
  | inr hnl =>
    -- a name with a newline is never registered
    have hmem : '\n' ∈ target := hnl ▸ List.mem_append_right name List.mem_cons_self
    have hnot : ∀ text, target ∉ registeredTargets text := fun text htarget =>
      (isFuzzName_of_mem_registeredTargets htarget).noBreak.1 hmem
    refine iff_of_false (fun hexact => ?_) fun hspelled => hspelled.name hmem
    have hafter := (hexact.1 (hnot cargoToml)).1
    exact hnot _ (hafter ▸ List.mem_append_right _ List.mem_cons_self)
  | inl heq =>
    subst heq
    have hbreak := hname.noBreak
    by_cases hocc : nameLine target <:+: cargoToml
    · have hmem := mem_registeredTargets_of_occurs hname hocc
      -- both runs skip
      rw [appendCargoBin_of_occurs repr hbreak hocc, appendCargoBin_of_occurs repr hbreak hocc]
      exact iff_of_true
        ⟨fun hnew => absurd hmem hnew, fun _ => rfl, rfl⟩
        ⟨hbreak.1, fun _ => hocc, fun hnew => absurd hmem hnew⟩
    -- the first run appends, and the second one finds the entry
    · rw [appendCargoBin_of_not_occurs repr hbreak hocc,
        appendCargoBin_of_occurs repr hbreak (infix_binEntry target _)]
      constructor
      · intro hexact
        obtain ⟨hnew, hold, -⟩ := hexact
        refine ⟨hbreak.1, fun hmem => ?_, fun hmem => ?_⟩
        · rw [← hold hmem]
          exact infix_binEntry target _
        · exact (rstripBreaks_prefix_iff hbreak cargoToml).mp (hnew hmem).2
      · intro hspelled
        refine ⟨fun hmem => ⟨registeredTargets_binEntry hname hmem, ?_⟩, fun hmem => ?_, rfl⟩
        · exact (rstripBreaks_prefix_iff hbreak cargoToml).mpr (hspelled.unregistered hmem)
        · exact absurd (hspelled.registered hmem) hocc

end

/-- A target is added to a manifest that registers another one. -/
theorem registersExactly_second :
    RegistersExactly String.ofList "add_fuzz_target.py" "fuzz/Cargo.toml" "fuzz_b".toList
      "[[bin]]\nname = \"fuzz_a\"\n".toList := by
  refine (registersExactly_iff String.ofList "add_fuzz_target.py" "fuzz/Cargo.toml"
    (by decide +kernel) _).mpr ⟨by decide +kernel, ?_, fun _ => by decide +kernel⟩
  intro hmem
  exact absurd hmem (by decide +kernel)

/-- A target that is registered without spaces around the equals sign is registered again. -/
theorem registersTwice_tight :
    targetRe "fuzz_ab".toList = true ∧
      ¬ RegistersExactly String.ofList "add_fuzz_target.py" "fuzz/Cargo.toml" "fuzz_ab".toList
        "[[bin]]\nname=\"fuzz_ab\"\n".toList := by
  refine ⟨by decide +kernel, fun hexact => ?_⟩
  obtain ⟨after, hafter, -, hkept, -⟩ := hexact
  have hsame := hkept (by decide +kernel)
  rw [hsame] at hafter
  exact absurd hafter (by decide +kernel)

end LezFuzzing.Spec
