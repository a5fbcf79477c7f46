import LezFuzzing.Spec.TargetListsCorrect

/-!
# The documentation drift gate

`check_target_inventory.py` asks of every consumer document that it mentions every registered
target by name. It tests whether the name is somewhere in the text, so the name of a longer
target mentions every name inside of it too. The gate is right exactly when no document
holds a registered name only inside of longer ones.

## Key results

- `checkTargetInventory_of_missing`, `checkTargetInventory_of_complete`: how the gate ends
- `gateCorrect_iff`: the texts on which the gate is sound and complete
-/

namespace LezFuzzing.Spec

open Matcher LezFuzzing.Native

/-! ## Mentions -/

/-- The name occurs by itself: no character of a name stands next to it. -/
def Mentions (target doc : List Char) : Prop :=
  ∃ pre post, doc = pre ++ target ++ post ∧
    (∀ c, pre.getLast? = some c → isTargetChar c = false) ∧
    (∀ c, post.head? = some c → isTargetChar c = false)

theorem Mentions.occurs {target doc : List Char} (h : Mentions target doc) :
    target <:+: doc := by
  obtain ⟨pre, post, rfl, -, -⟩ := h
  exact ⟨pre, post, rfl⟩

/-- Every registered target is mentioned in every consumer document. -/
def Documented (texts : String → List Char) : Prop :=
  ∀ rel ∈ consumers, ∀ target ∈ registeredTargets (texts "fuzz/Cargo.toml"),
    Mentions target (texts rel)

/-! ## The pairs that the gate misses -/

/-- The pairs of a document and a target that does not occur in its text. -/
def missingPairs (texts : String → List Char) : List String → List (String × List Char) :=
  List.flatMap fun rel =>
    ((registeredTargets (texts "fuzz/Cargo.toml")).filter
      fun target => ¬ target <:+: texts rel).map (Prod.mk rel)

theorem mem_missingPairs {texts : String → List Char} {rels : List String}
    {entry : String × List Char} :
    entry ∈ missingPairs texts rels ↔ entry.1 ∈ rels ∧
      entry.2 ∈ registeredTargets (texts "fuzz/Cargo.toml") ∧
      ¬ entry.2 <:+: texts entry.1 := by
  simp only [missingPairs, List.mem_flatMap, List.mem_map, List.mem_filter, decide_eq_true_eq]
  constructor
  · intro h
    obtain ⟨rel, hrel, target, htarget, rfl⟩ := h
    exact ⟨hrel, htarget⟩
  · intro h
    obtain ⟨hrel, htarget⟩ := h
    exact ⟨entry.1, hrel, entry.2, htarget, rfl⟩

theorem nodup_missingPairs (texts : String → List Char) {rels : List String}
    (h : rels.Nodup) : (missingPairs texts rels).Nodup := by
  induction rels with
  | nil => exact List.nodup_nil
  | cons rel rels ih =>
    obtain ⟨hrel, hrels⟩ := List.nodup_cons.mp h
    rw [missingPairs, List.flatMap_cons, List.nodup_append']
    refine ⟨?_, ih hrels, ?_⟩
    · exact ((nodup_registeredTargets _).filter _).map (Prod.mk_right_injective rel)
    · -- the pairs of other documents are others
      intro entry hhead htail
      obtain ⟨target, -, rfl⟩ := List.mem_map.mp hhead
      exact hrel (mem_missingPairs.mp htail).1

/-- Where all documents exist, the loop collects the pairs that it misses. -/
theorem collectMissing_eq (texts : String → List Char) (rels : List String) :
    collectMissing (fun path => some (texts path))
      (registeredTargets (texts "fuzz/Cargo.toml")) rels = .ok (missingPairs texts rels) := by
  induction rels with
  | nil => rfl
  | cons rel rels ih =>
    -- a name stands in the text read where it stands in the file
    have hfilter : (registeredTargets (texts "fuzz/Cargo.toml")).filter
          (fun target => ¬ target <:+: readText (texts rel)) =
        (registeredTargets (texts "fuzz/Cargo.toml")).filter
          (fun target => ¬ target <:+: texts rel) := by
      refine List.filter_congr fun target htarget => ?_
      have hname := isFuzzName_of_mem_registeredTargets htarget
      exact decide_eq_decide.mpr (not_congr
        (infix_translateNewlines hname.noBreak hname.ne_nil false (texts rel)))
    rw [collectMissing]
    simp only [ih, hfilter]
    rfl

/-! ## The gate -/

section

variable (cargoToml : String) (texts : String → List Char)

theorem checkTargetInventory_of_nil (h : registeredTargets (texts "fuzz/Cargo.toml") = []) :
    (checkTargetInventory cargoToml fun path => some (texts path)).exit = 1 := by
  simp [checkTargetInventory, h]

theorem checkTargetInventory_of_complete
    (h : registeredTargets (texts "fuzz/Cargo.toml") ≠ [])
    (hmissing : missingPairs texts consumers = []) :
    (checkTargetInventory cargoToml fun path => some (texts path)).exit = 0 := by
  simp [checkTargetInventory, h, collectMissing_eq, hmissing]

theorem checkTargetInventory_of_missing
    (h : registeredTargets (texts "fuzz/Cargo.toml") ≠ [])
    (hmissing : missingPairs texts consumers ≠ []) :
    checkTargetInventory cargoToml (fun path => some (texts path)) =
      ⟨1, [], driftReport (registeredTargets (texts "fuzz/Cargo.toml")).length
        (missingPairs texts consumers)⟩ := by
  simp [checkTargetInventory, h, collectMissing_eq, hmissing]

/-- The gate passes exactly when a target is registered and all are documented; it fails with
    exit code 1 otherwise, and reports drift by the missing pairs, each once. -/
def GateCorrect : Prop :=
  let targets := registeredTargets (texts "fuzz/Cargo.toml")
  let run := checkTargetInventory cargoToml fun path => some (texts path)
  (targets ≠ [] ∧ Documented texts → run.exit = 0) ∧
    (¬ (targets ≠ [] ∧ Documented texts) → run.exit = 1) ∧
    (targets ≠ [] → ¬ Documented texts → ∃ missing : List (String × List Char),
      missing.Nodup ∧
      (∀ entry, entry ∈ missing ↔ entry.1 ∈ consumers ∧ entry.2 ∈ targets ∧
        ¬ Mentions entry.2 (texts entry.1)) ∧
      run.stderr = driftReport targets.length missing)

/-- No document holds the name of a registered target only inside of longer names. -/
def OccursByItself : Prop :=
  ∀ rel ∈ consumers, ∀ target ∈ registeredTargets (texts "fuzz/Cargo.toml"),
    target <:+: texts rel → Mentions target (texts rel)

theorem length_driftReport (count : Nat) (missing : List (String × List Char)) :
    (driftReport count missing).length = missing.length + 2 := by
  simp [driftReport]

/-- Equal reports name the same pairs, where one is known to name all pairs of the other. -/
theorem perm_of_driftReport_eq {count : Nat} {reported missing : List (String × List Char)}
    (h : driftReport count reported = driftReport count missing) (hnd : reported.Nodup)
    (hsub : reported ⊆ missing) : reported.Perm missing := by
  have hlen := congrArg List.length h
  rw [length_driftReport, length_driftReport] at hlen
  exact (hnd.subperm hsub).perm_of_length_le (by omega)

variable {texts} in
/-- Where names occur by themselves, the pairs that the gate misses are those without a
    mention. -/
theorem mem_missingPairs_of_occursByItself (h : OccursByItself texts)
    (entry : String × List Char) :
    entry ∈ missingPairs texts consumers ↔ entry.1 ∈ consumers ∧
      entry.2 ∈ registeredTargets (texts "fuzz/Cargo.toml") ∧
      ¬ Mentions entry.2 (texts entry.1) := by
  rw [mem_missingPairs]
  refine and_congr_right fun hrel => and_congr_right fun htarget => not_congr ?_
  exact ⟨h entry.1 hrel entry.2 htarget, Mentions.occurs⟩

variable {texts} in
theorem missingPairs_eq_nil_iff (h : OccursByItself texts) :
    missingPairs texts consumers = [] ↔ Documented texts := by
  rw [List.eq_nil_iff_forall_not_mem]
  constructor
  · intro hnil rel hrel target htarget
    by_contra hmention
    exact hnil (rel, target)
      ((mem_missingPairs_of_occursByItself h (rel, target)).mpr ⟨hrel, htarget, hmention⟩)
  · intro hdoc entry hentry
    obtain ⟨hrel, htarget, hmention⟩ := (mem_missingPairs_of_occursByItself h entry).mp hentry
    exact hmention (hdoc entry.1 hrel entry.2 htarget)

/-- The gate is sound and complete exactly when each registered name that a document holds
    occurs there by itself. -/
theorem gateCorrect_iff : GateCorrect cargoToml texts ↔ OccursByItself texts := by
  unfold GateCorrect
  by_cases hreg : registeredTargets (texts "fuzz/Cargo.toml") = []
  · rw [hreg]
    simp [OccursByItself, hreg, checkTargetInventory_of_nil cargoToml texts hreg]
  · constructor
    · intro hgate rel hrel target htarget hocc
      obtain ⟨-, hfail, hdrift⟩ := hgate
      by_contra hmention
      -- the name is a part of longer ones only, so the gate should report it
      have hdoc : ¬ Documented texts := fun hdoc => hmention (hdoc rel hrel target htarget)
      have hmissing : missingPairs texts consumers ≠ [] := by
        intro hnil
        have hexit := hfail fun h => hdoc h.2
        rw [checkTargetInventory_of_complete cargoToml texts hreg hnil] at hexit
        exact absurd hexit (by decide)
      obtain ⟨missing, -, hmem, hreport⟩ := hdrift hreg hdoc
      rw [checkTargetInventory_of_missing cargoToml texts hreg hmissing] at hreport
      -- what the gate reports is part of what is missing, so it would be all of it
      have hsub : missingPairs texts consumers ⊆ missing := by
        intro entry hentry
        obtain ⟨hdocument, hregistered, hnot⟩ := mem_missingPairs.mp hentry
        exact (hmem entry).mpr ⟨hdocument, hregistered, fun h => hnot h.occurs⟩
      have hperm := perm_of_driftReport_eq hreport (nodup_missingPairs texts (by decide)) hsub
      have hentry : (rel, target) ∈ missing := (hmem (rel, target)).mpr ⟨hrel, htarget, hmention⟩
      exact (mem_missingPairs.mp (hperm.mem_iff.mpr hentry)).2.2 hocc
    · intro hself
      have hdoc := missingPairs_eq_nil_iff hself
      by_cases hall : Documented texts
      · have hexit := checkTargetInventory_of_complete cargoToml texts hreg (hdoc.mpr hall)
        exact ⟨fun _ => hexit, fun h => absurd ⟨hreg, hall⟩ h, fun _ h => absurd hall h⟩
      · have hrun := checkTargetInventory_of_missing cargoToml texts hreg fun h =>
          hall (hdoc.mp h)
        refine ⟨fun h => absurd h.2 hall, fun _ => by rw [hrun], fun _ _ => ?_⟩
        exact ⟨missingPairs texts consumers, nodup_missingPairs texts (by decide),
          mem_missingPairs_of_occursByItself hself, by rw [hrun]⟩

end

/-- A manifest with one target, and documents that mention another one with a longer name. -/
def shadowedTexts (path : String) : List Char :=
  if path = "fuzz/Cargo.toml" then "[[bin]]\nname = \"fuzz_a\"\n".toList else "fuzz_ab".toList

/-- The gate passes although no document mentions the target. -/
theorem gate_passes_shadowedTexts : ¬ GateCorrect "fuzz/Cargo.toml" shadowedTexts := by
  intro hgate
  have hmention : ¬ Mentions "fuzz_a".toList (shadowedTexts "README.md") := by
    intro h
    obtain ⟨pre, post, heq, -, hpost⟩ := h
    cases pre with
    | nil =>
      -- the character behind the name is one of a name
      have hdoc : shadowedTexts "README.md" = "fuzz_a".toList ++ ['b'] := by decide +kernel
      have hb : post = ['b'] := (List.append_cancel_left (hdoc.symm.trans heq)).symm
      exact absurd (hpost 'b' (by rw [hb]; rfl)) (by decide)
    | cons c pre =>
      -- the document is one character longer than the name
      have hlen := congrArg List.length heq
      cases pre with
      | nil => exact absurd (List.cons.inj (List.cons.inj heq).2).1 (by decide)
      | cons d pre =>
        simp [shadowedTexts] at hlen
        omega
  have hexit := hgate.2.1 fun h =>
    hmention (h.2 "README.md" (by decide) "fuzz_a".toList (by decide +kernel))
  exact absurd hexit (by decide +kernel)

end LezFuzzing.Spec
