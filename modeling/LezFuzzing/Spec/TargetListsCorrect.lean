import LezFuzzing.Spec.TargetWords

/-!
# When the three parsers agree

`registered_targets` takes any spacing around the equals sign, also a line break; the two
pipelines take one space on either side, within a line. So the pipelines list the first
occurrences among some of the registrations only. That is the same list exactly when,
wherever a target is registered in another spelling for the first time, the next target
that is new to the pipelines is that one.

## Key results

- `registeredTargets_eq`, `targetPipeline_eq`: the lists, by the registrations of the text
- `parsersAgree_iff`: the texts on which the three lists are the same
-/

namespace LezFuzzing.Spec

open Matcher LezFuzzing.Native

/-! ## The registrations of a text -/

/-- A registration: the name, and whether the pipelines match it too. -/
def registrationRe (s : List Char) : Option ((List Char × Bool) × List Char) :=
  (binNameRe s).map fun r => ((r.1, (grepRe s).isSome), r.2)

/-- The registrations of a manifest, in the order of the text. -/
def registrations (cargoToml : List Char) : List (List Char × Bool) :=
  scan registrationRe (readText cargoToml)

/-- The names of the registrations. -/
theorem map_fst_scan_registrationRe (s : List Char) :
    (scan registrationRe s).map Prod.fst = scan binNameRe s := by
  induction s with
  | nil => rfl
  | cons x s ih =>
    rw [scan_cons, scan_cons, List.map_append, ih, registrationRe]
    cases binNameRe (x :: s) with
    | none => rfl
    | some r => rfl

/-- The registrations that the pipelines match. -/
theorem flagged_scan_registrationRe (s : List Char) :
    List.flagged (scan registrationRe s) = (scan grepRe s).map sedLine := by
  induction s with
  | nil => rfl
  | cons x s ih =>
    rw [List.flagged] at ih
    rw [scan_cons, scan_cons, List.map_append, ← ih, List.flagged, List.filter_append,
      List.map_append]
    congr 1
    unfold registrationRe
    cases hgrep : grepRe (x :: s) with
    | none =>
      cases binNameRe (x :: s) with
      | none => rfl
      | some r => rfl
    | some r =>
      obtain ⟨line, rest⟩ := r
      -- `sed` takes the name out of the line that `grep` prints
      obtain ⟨target, hname, rfl, hbin⟩ := binNameRe_of_grepRe hgrep
      rw [hbin]
      show [target] = [sedLine (nameLine target)]
      rw [sedLine_nameLine hname]

/-- Each registration names a target. -/
theorem isFuzzName_of_mem_scan {s target : List Char} (h : target ∈ scan binNameRe s) :
    IsFuzzName target := by
  obtain ⟨v, rest, -, -, hmatch⟩ := mem_scan_iff.mp h
  obtain ⟨w, hw, -⟩ := (binNameRe_spells v target rest).mp hmatch
  obtain ⟨-, -, -, -, hname, -⟩ := hw
  exact hname

/-! ## The lists -/

theorem registeredTargets_eq_uniq (cargoToml : List Char) :
    registeredTargets cargoToml = List.uniq [] (scan binNameRe (readText cargoToml)) := by
  rw [registeredTargets, findAll_binNameRe]
  -- the loop over `names` is the one that `awk` runs
  have hloop := List.foldl_unseen (scan binNameRe (readText cargoToml)) [] []
  rw [List.nil_append] at hloop
  convert hloop

theorem nodup_registeredTargets (cargoToml : List Char) : (registeredTargets cargoToml).Nodup := by
  rw [registeredTargets_eq_uniq]
  exact List.nodup_uniq [] _

theorem mem_registeredTargets {cargoToml target : List Char} :
    target ∈ registeredTargets cargoToml ↔ target ∈ scan binNameRe (readText cargoToml) := by
  rw [registeredTargets_eq_uniq, List.mem_uniq]
  exact and_iff_left List.not_mem_nil

theorem isFuzzName_of_mem_registeredTargets {cargoToml target : List Char}
    (h : target ∈ registeredTargets cargoToml) : IsFuzzName target :=
  isFuzzName_of_mem_scan (mem_registeredTargets.mp h)

/-- The inventory gate lists the first registration of each target. -/
theorem registeredTargets_eq (cargoToml : List Char) :
    registeredTargets cargoToml = List.uniq [] ((registrations cargoToml).map Prod.fst) := by
  rw [registrations, map_fst_scan_registrationRe, registeredTargets_eq_uniq]

theorem grepOnly_eq_scan (cargoToml : TextFile) :
    grepOnly cargoToml = scan grepRe (readText cargoToml.chars) := by
  -- no matched line holds a line break, so reading and splitting lines lose none
  rw [grepOnly, readText, scan_translateNewlines grepRe_spells (fun _ _ => LiteralWord.ne_nil)
    (fun _ _ => LiteralWord.noBreak)]
  rw [← flatMap_scan_splitOn grepRe_spells (fun _ _ => LiteralWord.ne_nil)
    (x := '\n') (fun _ _ hw => hw.noBreak.1)]
  exact congrArg (List.flatMap · _) (funext findAll_grepRe)

/-- The pipelines list the first registration of each target among those they match. -/
theorem targetPipeline_eq (cargoToml : TextFile) :
    targetPipeline cargoToml =
      List.uniq [] (List.flagged (registrations cargoToml.chars)) := by
  rw [targetPipeline, grepOnly_eq_scan, registrations, flagged_scan_registrationRe]

theorem isFuzzName_of_mem_targetPipeline {cargoToml : TextFile} {target : List Char}
    (h : target ∈ targetPipeline cargoToml) : IsFuzzName target := by
  rw [targetPipeline_eq, List.mem_uniq, List.flagged] at h
  obtain ⟨r, hr, rfl⟩ := List.mem_map.mp h.1
  refine isFuzzName_of_mem_scan (s := readText cargoToml.chars) ?_
  rw [← map_fst_scan_registrationRe]
  exact List.mem_map_of_mem (List.mem_of_mem_filter hr)

/-! ## Printing and reading a list -/

theorem splitOn_printLines {lines : List (List Char)} (h : ∀ line ∈ lines, '\n' ∉ line) :
    (printLines lines).splitOn '\n' = lines ++ [[]] := by
  induction lines with
  | nil => rfl
  | cons line lines ih =>
    obtain ⟨hline, hlines⟩ := List.forall_mem_cons.mp h
    have hprint : printLines (line :: lines) = line ++ '\n' :: printLines lines := by
      rw [printLines, List.flatMap_cons, List.append_assoc]
      rfl
    rw [hprint, List.splitOn_append_cons_self_of_not_mem hline, ih hlines, List.cons_append]

/-- Both scripts read the list that the pipeline prints. -/
theorem resolveTargets_eq (cargoToml : TextFile) :
    resolveTargets cargoToml = targetPipeline cargoToml := by
  have hname : ∀ target ∈ targetPipeline cargoToml, IsFuzzName target := fun _ =>
    isFuzzName_of_mem_targetPipeline
  rw [resolveTargets, jqSplit, splitOn_printLines fun t ht => (hname t ht).noBreak.1,
    -- the text behind the last newline is empty and is filtered out
    List.filter_append, List.filter_eq_self.mpr]
  · exact List.append_nil _
  · intro target ht
    exact decide_eq_true (List.length_pos_of_ne_nil (hname target ht).ne_nil)

theorem mutantsTargets_eq (cargoToml : TextFile) :
    mutantsTargets cargoToml = targetPipeline cargoToml := by
  have hname : ∀ target ∈ targetPipeline cargoToml, IsFuzzName target := fun _ =>
    isFuzzName_of_mem_targetPipeline
  rw [mutantsTargets, readLoop, splitOn_printLines fun t ht => (hname t ht).noBreak.1,
    List.dropLast_concat, List.filter_eq_self.mpr]
  intro target ht
  exact decide_eq_true (hname target ht).ne_nil

/-! ## Agreement -/

/-- The three parsers list the same targets, in the same order and each once. -/
def ParsersAgree (cargoToml : TextFile) : Prop :=
  resolveTargets cargoToml = registeredTargets cargoToml.chars ∧
    mutantsTargets cargoToml = registeredTargets cargoToml.chars ∧
    (registeredTargets cargoToml.chars).Nodup

/-- Where a target is first registered in a spelling that the pipelines do not match, they
    match a later registration of it, and none of a new target in between. -/
def RespelledInTurn (cargoToml : List Char) : Prop :=
  ∀ pre target post, registrations cargoToml = pre ++ (target, false) :: post →
    target ∉ pre.map Prod.fst →
    ∃ between rest, (post.filter Prod.snd).map Prod.fst = between ++ target :: rest ∧
      ∀ name ∈ between, name ∈ pre.map Prod.fst

theorem respelledInTurn_iff {cargoToml : List Char} :
    RespelledInTurn cargoToml ↔ List.FlaggedInOrder [] (registrations cargoToml) := by
  refine forall_congr' fun pre => forall_congr' fun target => forall_congr' fun post =>
    imp_congr_right fun _ => ?_
  simp only [List.find?_eq_some_iff_append, List.flagged, List.not_mem_nil, not_false_eq_true,
    true_and, forall_const, decide_eq_true_eq, Bool.not_eq_true', decide_eq_false_iff_not, not_not]
  exact forall_congr' fun htarget => (and_iff_right htarget).symm

/-- The parsers agree on a manifest exactly when each target whose first registration the
    pipelines miss is registered again, so that they match it, before they come to another
    new target. -/
theorem parsersAgree_iff (cargoToml : TextFile) :
    ParsersAgree cargoToml ↔ RespelledInTurn cargoToml.chars := by
  rw [ParsersAgree, resolveTargets_eq, mutantsTargets_eq, targetPipeline_eq, respelledInTurn_iff,
    ← List.uniq_filter_eq_iff, ← registeredTargets_eq]
  constructor
  · intro h
    exact h.1.symm
  · intro h
    exact ⟨h.symm, h.symm, nodup_registeredTargets cargoToml.chars⟩

/-- A manifest that registers a target without spaces around the equals sign. -/
def tightManifest : TextFile where
  chars := "[[bin]]\nname=\"fuzz_a\"\n".toList
  noNul := by decide

/-- The inventory gate counts its target as registered, and the pipelines do not list it. -/
theorem parsersDisagree_tightManifest : ¬ ParsersAgree tightManifest := by
  unfold ParsersAgree
  decide +kernel

end LezFuzzing.Spec
