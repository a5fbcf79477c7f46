import LezFuzzing.Native.TargetInventory

/-!
# The words of the target expressions

Each expression of the scripts is described by the words it matches. A registration is a
word of `_BIN_NAME_RE`; the expression of the pipelines matches those of them that are
spelled `name = "…"` with one space on either side. None of these words overlap, and none
is changed by the newline translation of a text file that is read.

## Key results

- `binNameRe_spells`, `grepRe_spells`: the words of the two expressions
- `findAll_binNameRe`, `findAll_grepRe`: they are found wherever they start
- `sedLine_nameLine`: the name inside of a matched line
- `infix_translateNewlines`, `scan_translateNewlines`: searching the text read
-/

namespace LezFuzzing.Spec

open Matcher LezFuzzing.Native

/-! ## Names -/

/-- A name that the expressions capture: `fuzz_[a-z0-9_]+`. -/
def IsFuzzName (target : List Char) : Prop :=
  ∃ cs, cs ≠ [] ∧ (∀ c ∈ cs, isTargetChar c = true) ∧ target = fuzzPrefix ++ cs

theorem isTargetChar_fuzz : ∀ c ∈ fuzzPrefix, isTargetChar c = true := by
  simp [fuzzPrefix, isTargetChar, isLower]

theorem IsFuzzName.chars {target : List Char} (h : IsFuzzName target) :
    ∀ c ∈ target, isTargetChar c = true := by
  obtain ⟨cs, -, hcs, rfl⟩ := h
  exact List.forall_mem_append.mpr ⟨isTargetChar_fuzz, hcs⟩

theorem IsFuzzName.ne_nil {target : List Char} (h : IsFuzzName target) : target ≠ [] := by
  obtain ⟨cs, -, -, rfl⟩ := h
  exact List.append_ne_nil_of_left_ne_nil (List.cons_ne_nil _ _) cs

/-- A character outside of the class is not in a name. -/
theorem IsFuzzName.not_mem {target : List Char} (h : IsFuzzName target) {c : Char}
    (hc : isTargetChar c = false) : c ∉ target := by
  intro hmem
  rw [h.chars c hmem] at hc
  exact absurd hc (by decide)

/-- Where the rest of the expression does not start with a character of a name, a name is
    read to its end. -/
theorem fuzzName_eq_some_iff {β : Type} {k : List Char → List Char → Option β} {s : List Char}
    {b : β} (hstop : ∀ target x rest, isTargetChar x = true → k target (x :: rest) = none) :
    fuzzName k s = some b ↔
      ∃ target rest, IsFuzzName target ∧ s = target ++ rest ∧ k target rest = some b := by
  unfold fuzzName
  rw [lit_eq_some_iff]
  constructor
  · intro h
    obtain ⟨s₁, rfl, h₁⟩ := h
    obtain ⟨c, s₂, hc, rfl, h₂⟩ := one_eq_some_iff.mp h₁
    obtain ⟨cs, rest, hcs, rfl, h₃⟩ := many_sound h₂
    refine ⟨fuzzPrefix ++ c :: cs, rest, ⟨c :: cs, List.cons_ne_nil c cs, ?_, rfl⟩, ?_, h₃⟩
    · exact List.forall_mem_cons.mpr ⟨hc, hcs⟩
    · rw [List.append_assoc]
      rfl
  · intro h
    obtain ⟨target, rest, hname, rfl, hk⟩ := h
    obtain ⟨cs, hne, hcs, rfl⟩ := hname
    obtain ⟨c, cs, rfl⟩ := List.exists_cons_of_ne_nil hne
    obtain ⟨hc, hcs⟩ := List.forall_mem_cons.mp hcs
    refine ⟨c :: cs ++ rest, List.append_assoc _ _ _,
      one_eq_some_iff.mpr ⟨c, cs ++ rest, hc, rfl, ?_⟩⟩
    -- a name is handed on with its prefix
    have hstop' : ∀ run x rest, isTargetChar x = true →
        k (fuzzPrefix ++ c :: run) (x :: rest) = none := fun run x rest hx =>
      hstop (fuzzPrefix ++ c :: run) x rest hx
    exact (many_eq_some_iff_of_stop hstop').mpr ⟨cs, rest, hcs, rfl, hk⟩

/-- A name and the closing quote behind it. -/
theorem quotedName_eq_some_iff {β : Type} {f : List Char → List Char → β} {s : List Char}
    {b : β} :
    (fuzzName fun target => lit ['"'] fun rest => some (f target rest)) s = some b ↔
      ∃ target rest, IsFuzzName target ∧ s = target ++ '"' :: rest ∧ f target rest = b := by
  have hstop : ∀ (target : List Char) (x : Char) (rest : List Char), isTargetChar x = true →
      lit ['"'] (fun rest => some (f target rest)) (x :: rest) = none := by
    intro target x rest hx
    have hne : x ≠ '"' := by
      intro heq
      rw [heq] at hx
      exact absurd hx (by decide)
    show (if x = '"' then _ else none) = none
    rw [if_neg hne]
  rw [fuzzName_eq_some_iff hstop]
  constructor
  · intro h
    obtain ⟨target, s₁, hname, rfl, h₁⟩ := h
    obtain ⟨rest, rfl, h₂⟩ := lit_eq_some_iff.mp h₁
    exact ⟨target, rest, hname, rfl, Option.some.inj h₂⟩
  · intro h
    obtain ⟨target, rest, hname, rfl, rfl⟩ := h
    exact ⟨target, '"' :: rest, hname, rfl, lit_eq_some_iff.mpr ⟨rest, rfl, rfl⟩⟩

/-! ## Registrations -/

/-- A word of `_BIN_NAME_RE` that registers a target. -/
def BinWord (target w : List Char) : Prop :=
  ∃ sp₁ sp₂, (∀ c ∈ sp₁, isSpace c = true) ∧ (∀ c ∈ sp₂, isSpace c = true) ∧
    IsFuzzName target ∧
    w = ['n', 'a', 'm', 'e'] ++ (sp₁ ++ '=' :: (sp₂ ++ '"' :: (target ++ ['"'])))

/-- A line that the pipelines match. -/
def LiteralWord (line w : List Char) : Prop :=
  line = w ∧ ∃ target, IsFuzzName target ∧ w = nameLine target

theorem eq_not_space : isSpace '=' = false := by decide

theorem quote_not_space : isSpace '"' = false := by decide

/-- A character outside of the class ends a run of spaces. -/
theorem space_stop {β : Type} {d : Char} (hd : isSpace d = false) {k : List Char → Option β}
    (x : Char) (rest : List Char) (hx : isSpace x = true) : lit [d] k (x :: rest) = none := by
  have hne : x ≠ d := by
    intro heq
    rw [heq, hd] at hx
    exact absurd hx (by decide)
  show (if x = d then _ else none) = none
  rw [if_neg hne]

theorem binNameRe_spells : Spells binNameRe BinWord := by
  intro s target rest
  unfold binNameRe BinWord
  rw [lit_eq_some_iff]
  constructor
  · intro h
    -- read the parts off, one after the other
    obtain ⟨s₁, rfl, h₁⟩ := h
    obtain ⟨sp₁, s₂, hsp₁, rfl, h₂⟩ := many_sound h₁
    obtain ⟨s₃, rfl, h₃⟩ := lit_eq_some_iff.mp h₂
    obtain ⟨sp₂, s₄, hsp₂, rfl, h₄⟩ := many_sound h₃
    obtain ⟨s₅, rfl, h₅⟩ := lit_eq_some_iff.mp h₄
    obtain ⟨t, s₆, hname, rfl, h₆⟩ := quotedName_eq_some_iff.mp h₅
    obtain ⟨rfl, rfl⟩ := Prod.mk.inj h₆
    exact ⟨_, ⟨sp₁, sp₂, hsp₁, hsp₂, hname, rfl⟩, by simp⟩
  · intro h
    obtain ⟨w, hw, rfl⟩ := h
    obtain ⟨sp₁, sp₂, hsp₁, hsp₂, hname, rfl⟩ := hw
    -- no part starts with a character of the run in front of it
    refine ⟨sp₁ ++ '=' :: (sp₂ ++ '"' :: (target ++ '"' :: rest)), by simp, ?_⟩
    refine (many_eq_some_iff_of_stop fun _ => space_stop eq_not_space).mpr
      ⟨sp₁, _, hsp₁, rfl, lit_eq_some_iff.mpr ⟨_, rfl, ?_⟩⟩
    refine (many_eq_some_iff_of_stop fun _ => space_stop quote_not_space).mpr
      ⟨sp₂, _, hsp₂, rfl, lit_eq_some_iff.mpr ⟨_, rfl, ?_⟩⟩
    exact quotedName_eq_some_iff.mpr ⟨target, rest, hname, rfl, rfl⟩

theorem grepRe_eq_some_iff {s line rest : List Char} :
    grepRe s = some (line, rest) ↔
      ∃ target, IsFuzzName target ∧ line = nameLine target ∧ s = nameLine target ++ rest := by
  unfold grepRe
  rw [lit_eq_some_iff]
  constructor
  · intro h
    obtain ⟨s₁, rfl, h₁⟩ := h
    obtain ⟨target, s₂, hname, rfl, h₂⟩ :=
      (quotedName_eq_some_iff (f := fun target rest => (nameLine target, rest))).mp h₁
    obtain ⟨rfl, rfl⟩ := Prod.mk.inj h₂
    exact ⟨target, hname, rfl, by simp [nameLine]⟩
  · intro h
    obtain ⟨target, hname, rfl, rfl⟩ := h
    refine ⟨target ++ '"' :: rest, by simp [nameLine], ?_⟩
    exact (quotedName_eq_some_iff (f := fun target rest => (nameLine target, rest))).mpr
      ⟨target, rest, hname, rfl, rfl⟩

theorem grepRe_spells : Spells grepRe LiteralWord := by
  intro s line rest
  rw [grepRe_eq_some_iff]
  constructor
  · intro h
    obtain ⟨target, hname, rfl, rfl⟩ := h
    exact ⟨nameLine target, ⟨rfl, target, hname, rfl⟩, rfl⟩
  · intro h
    obtain ⟨w, hw, rfl⟩ := h
    obtain ⟨rfl, target, hname, rfl⟩ := hw
    exact ⟨target, hname, rfl, rfl⟩

theorem BinWord.ne_nil {target w : List Char} (h : BinWord target w) : w ≠ [] := by
  obtain ⟨sp₁, sp₂, -, -, -, rfl⟩ := h
  exact List.append_ne_nil_of_left_ne_nil (List.cons_ne_nil _ _) _

/-- A matched line registers the target it names. -/
theorem binWord_nameLine {target : List Char} (h : IsFuzzName target) :
    BinWord target (nameLine target) := by
  have hspace : ∀ c ∈ [' '], isSpace c = true := List.forall_mem_singleton.mpr (by decide)
  refine ⟨[' '], [' '], hspace, hspace, h, ?_⟩
  simp [nameLine]

theorem LiteralWord.ne_nil {line w : List Char} (h : LiteralWord line w) : w ≠ [] := by
  obtain ⟨-, target, hname, rfl⟩ := h
  exact (binWord_nameLine hname).ne_nil

/-- Where the pipelines match a line, `_BIN_NAME_RE` matches too. -/
theorem binNameRe_of_grepRe {s line rest : List Char} (h : grepRe s = some (line, rest)) :
    ∃ target, IsFuzzName target ∧ line = nameLine target ∧
      binNameRe s = some (target, rest) := by
  obtain ⟨target, hname, rfl, rfl⟩ := grepRe_eq_some_iff.mp h
  exact ⟨target, hname, rfl,
    (binNameRe_spells _ _ _).mpr ⟨nameLine target, binWord_nameLine hname, rfl⟩⟩

/-! ## No two words overlap -/

theorem isTargetChar_of_isSpace {c : Char} (h : isSpace c = true) : isTargetChar c = false := by
  by_contra hc
  simp only [isTargetChar, isLower, Bool.not_eq_false, Bool.or_eq_true, Bool.and_eq_true,
    decide_eq_true_eq, beq_iff_eq, Char.le_def, UInt32.le_iff_toNat_le] at hc
  simp only [isSpace, Bool.or_eq_true, Bool.and_eq_true, decide_eq_true_eq, beq_iff_eq] at h
  -- the codes of the characters that bound the classes
  have hcode : c.toNat = c.val.toNat := rfl
  have ha : 'a'.val.toNat = 97 := rfl
  have hz : 'z'.val.toNat = 122 := rfl
  have h0 : '0'.val.toNat = 48 := rfl
  have h9 : '9'.val.toNat = 57 := rfl
  cases hc with
  | inl hc => omega
  | inr hc =>
    subst hc
    exact absurd h (by decide)

/-- No registration starts inside of a name: a closing quote follows, but behind `name` there
    would have to be an equals sign. -/
theorem binNameRe_inside_name {cs rest : List Char} (hcs : ∀ c ∈ cs, isTargetChar c = true) :
    binNameRe (cs ++ '"' :: rest) = none := by
  cases h : binNameRe (cs ++ '"' :: rest) with
  | none => rfl
  | some r =>
    obtain ⟨target, rest'⟩ := r
    obtain ⟨w, hw, heq⟩ := (binNameRe_spells _ target rest').mp h
    obtain ⟨sp₁, sp₂, hsp₁, -, -, rfl⟩ := hw
    -- compare the first characters that are not of a name
    have hleft : (cs ++ '"' :: rest).dropWhile isTargetChar = '"' :: rest := by
      rw [List.dropWhile_append_of_pos hcs]
      rfl
    rw [heq, List.append_assoc, List.dropWhile_append_of_pos (by simp [isTargetChar, isLower])]
      at hleft
    cases sp₁ with
    | nil => exact absurd (List.cons.inj hleft).1 (by decide)
    | cons c sp₁ =>
      have hc := hsp₁ c List.mem_cons_self
      rw [List.cons_append, List.cons_append,
        List.dropWhile_cons_of_neg (by rw [isTargetChar_of_isSpace hc]; decide)] at hleft
      rw [(List.cons.inj hleft).1] at hc
      exact absurd hc (by decide)

theorem noOverlap_binNameRe : NoOverlap binNameRe BinWord := by
  intro target x w v rest hw hv hne
  cases h : binNameRe (v ++ rest) with
  | none => rfl
  | some r =>
    obtain ⟨target', rest'⟩ := r
    obtain ⟨w', hw', heq⟩ := (binNameRe_spells _ target' rest').mp h
    obtain ⟨sp₁', sp₂', -, -, -, rfl⟩ := hw'
    obtain ⟨c, v, rfl⟩ := List.exists_cons_of_ne_nil hne
    have hc : c = 'n' := (List.cons.inj heq).1
    subst hc
    -- behind its first character, a word has an `n` only in its name
    obtain ⟨sp₁, sp₂, hsp₁, hsp₂, hname, hword⟩ := hw
    obtain ⟨cs, -, hcs, rfl⟩ := hname
    obtain ⟨-, rfl⟩ := List.cons.inj hword
    have hsplit : ['a', 'm', 'e'] ++ (sp₁ ++ '=' :: (sp₂ ++ '"' :: (fuzzPrefix ++ cs ++ ['"']))) =
        (['a', 'm', 'e'] ++ sp₁ ++ ['='] ++ sp₂ ++ '"' :: fuzzPrefix) ++ (cs ++ ['"']) := by
      simp
    have hn : ∀ sp : List Char, (∀ c ∈ sp, isSpace c = true) → 'n' ∉ sp := fun sp hsp hmem =>
      absurd (hsp 'n' hmem) (by decide)
    have hv' : 'n' :: v <:+ cs ++ ['"'] := by
      refine suffix_right_of_not_mem (s := ['a', 'm', 'e'] ++ sp₁ ++ ['='] ++ sp₂ ++
        '"' :: fuzzPrefix) ?_ (by simp [fuzzPrefix, hn sp₁ hsp₁, hn sp₂ hsp₂])
      rw [← hsplit]
      exact hv
    cases List.suffix_concat_iff.mp hv' with
    | inl hnil => exact absurd hnil (List.cons_ne_nil 'n' v)
    | inr hsuf =>
      obtain ⟨cs₁, hcs₁, hsuf⟩ := hsuf
      rw [hcs₁, List.append_assoc, List.singleton_append,
        binNameRe_inside_name fun c hc => hcs c (hsuf.mem hc)] at h
      exact absurd h (Option.some_ne_none _).symm

theorem noOverlap_grepRe : NoOverlap grepRe LiteralWord := by
  intro line x w v rest hw hv hne
  cases h : grepRe (v ++ rest) with
  | none => rfl
  | some r =>
    obtain ⟨line', rest'⟩ := r
    -- a match of the pipelines is one of `_BIN_NAME_RE`, which has none here
    obtain ⟨-, target, hname, hword⟩ := hw
    obtain ⟨target', -, -, hbin⟩ := binNameRe_of_grepRe h
    rw [noOverlap_binNameRe target x w v rest (hword ▸ binWord_nameLine hname) hv hne] at hbin
    exact absurd hbin (Option.some_ne_none _).symm

/-- The search of `registered_targets` finds every registration. -/
theorem findAll_binNameRe (s : List Char) : findAll binNameRe s = scan binNameRe s :=
  findAll_eq_scan binNameRe_spells noOverlap_binNameRe (fun _ _ => BinWord.ne_nil) s

/-- `grep -o` finds every line that is spelled with single spaces. -/
theorem findAll_grepRe (s : List Char) : findAll grepRe s = scan grepRe s :=
  findAll_eq_scan grepRe_spells noOverlap_grepRe (fun _ _ => LiteralWord.ne_nil) s

/-- `sed` leaves the name of a matched line. -/
theorem sedLine_nameLine {target : List Char} (h : IsFuzzName target) :
    sedLine (nameLine target) = target := by
  have hquote : '"' ∉ target := h.not_mem (by decide)
  -- a quoted name behind any start of the line is the name at its end
  have hend : ∀ pre t rest, IsFuzzName t → nameLine target = pre ++ '"' :: (t ++ '"' :: rest) →
      t = target ∧ rest = [] := by
    intro pre t rest ht heq
    have hsuf : '"' :: (t ++ '"' :: rest) <:+
        ['n', 'a', 'm', 'e', ' ', '=', ' '] ++ '"' :: (target ++ ['"']) := by
      refine ⟨pre, heq.symm.trans ?_⟩
      simp [nameLine]
    cases List.suffix_cons_iff.mp (suffix_right_of_not_mem hsuf (by decide)) with
    | inl heq =>
      have htail := (List.cons.inj heq).2
      obtain ⟨rfl, -, rfl⟩ :=
        (List.append_cons_inj_of_notMem hquote List.not_mem_nil).mp htail.symm
      exact ⟨rfl, rfl⟩
    | inr hsuf =>
      have hlen := (suffix_right_of_not_mem hsuf hquote).length_le
      simp at hlen
  have hsed : sedRe (nameLine target) = some (target, []) := by
    unfold sedRe
    refine (many_eq_some_iff ?_).mpr ?_
    · intro run rest run' rest' a a' _ _ heq heq' hk hk'
      obtain ⟨s₁, rfl, h₁⟩ := lit_eq_some_iff.mp hk
      obtain ⟨t, r, ht, rfl, rfl⟩ := quotedName_eq_some_iff.mp h₁
      obtain ⟨s₁', rfl, h₁'⟩ := lit_eq_some_iff.mp hk'
      obtain ⟨t', r', ht', rfl, rfl⟩ := quotedName_eq_some_iff.mp h₁'
      obtain ⟨rfl, rfl⟩ := hend run t r ht heq
      obtain ⟨rfl, rfl⟩ := hend run' t' r' ht' heq'
      rfl
    · refine ⟨['n', 'a', 'm', 'e', ' ', '=', ' '], '"' :: (target ++ ['"']), by simp,
        by simp [nameLine], lit_eq_some_iff.mpr ⟨target ++ ['"'], rfl, ?_⟩⟩
      exact quotedName_eq_some_iff.mpr ⟨target, [], h, rfl, rfl⟩
  rw [sedLine, hsed]
  exact List.append_nil target

/-! ## The text that is read -/

/-- A text within a line. -/
def NoBreak (w : List Char) : Prop :=
  '\n' ∉ w ∧ '\r' ∉ w

theorem IsFuzzName.noBreak {target : List Char} (h : IsFuzzName target) : NoBreak target :=
  ⟨h.not_mem (by decide), h.not_mem (by decide)⟩

theorem noBreak_nameLine {target : List Char} (h : NoBreak target) :
    NoBreak (nameLine target) := by
  obtain ⟨hn, hr⟩ := h
  exact ⟨by simp [nameLine, hn], by simp [nameLine, hr]⟩

theorem LiteralWord.noBreak {line w : List Char} (h : LiteralWord line w) : NoBreak w := by
  obtain ⟨-, target, hname, rfl⟩ := h
  exact noBreak_nameLine hname.noBreak

/-- What becomes of one character: a carriage return is a newline, a newline behind one is
    dropped, and every other character stays. -/
theorem translateNewlines_cons_cases (cr : Bool) (c : Char) (s : List Char) :
    (c = '\r' ∧ translateNewlines cr (c :: s) = '\n' :: translateNewlines true s) ∨
    (c = '\n' ∧ translateNewlines cr (c :: s) = translateNewlines false s) ∨
    (c ≠ '\r' ∧ translateNewlines cr (c :: s) = c :: translateNewlines false s) := by
  rw [translateNewlines]
  by_cases hr : c = '\r'
  · exact .inl ⟨hr, if_pos hr⟩
  · rw [if_neg hr]
    by_cases hn : c = '\n' ∧ cr = true
    · exact .inr (.inl ⟨hn.1, if_pos hn⟩)
    · exact .inr (.inr ⟨hr, if_neg hn⟩)

theorem translateNewlines_cons {c : Char} (s : List Char) (hr : c ≠ '\r') :
    translateNewlines false (c :: s) = c :: translateNewlines false s := by
  rw [translateNewlines, if_neg hr, if_neg (by simp)]

/-- A text within a line stands in the text read where it stands in the file. -/
theorem translateNewlines_eq_append_iff {w s rest : List Char} (hw : NoBreak w) :
    translateNewlines false s = w ++ rest ↔
      ∃ rest', s = w ++ rest' ∧ translateNewlines false rest' = rest := by
  induction w generalizing s with
  | nil => simp
  | cons x w ih =>
    obtain ⟨hn, hr⟩ := hw
    rw [List.mem_cons, not_or] at hn hr
    cases s with
    | nil => simp [translateNewlines]
    | cons c s =>
      by_cases hc : c = '\r'
      · simp only [translateNewlines, if_pos hc, List.cons_append, List.cons.injEq]
        constructor
        · intro h
          exact absurd h.1 hn.1
        · intro h
          obtain ⟨rest', hhead, -⟩ := h
          exact absurd (hc.symm.trans hhead.1) hr.1
      · rw [translateNewlines_cons s hc, List.cons_append, List.cons.injEq, ih ⟨hn.2, hr.2⟩]
        constructor
        · intro h
          obtain ⟨rfl, rest', rfl, hrest⟩ := h
          exact ⟨rest', rfl, hrest⟩
        · intro h
          obtain ⟨rest', heq, hrest⟩ := h
          obtain ⟨rfl, rfl⟩ := List.cons.inj heq
          exact ⟨rfl, rest', rfl, hrest⟩

/-- Searching the text read for a text within a line is searching the file. -/
theorem infix_translateNewlines {w : List Char} (hw : NoBreak w) (hne : w ≠ []) (cr : Bool)
    (s : List Char) : w <:+: translateNewlines cr s ↔ w <:+: s := by
  have hpre : ∀ s, w <+: translateNewlines false s ↔ w <+: s := by
    intro s
    constructor
    · intro h
      obtain ⟨rest, heq⟩ := h
      obtain ⟨rest', rfl, -⟩ := (translateNewlines_eq_append_iff hw).mp heq.symm
      exact List.prefix_append w rest'
    · intro h
      obtain ⟨rest, rfl⟩ := h
      exact ⟨_, ((translateNewlines_eq_append_iff hw).mpr ⟨rest, rfl, rfl⟩).symm⟩
  -- a line break starts no occurrence, read or not
  have hbreak : ∀ c s, c = '\n' ∨ c = '\r' → ¬ w <+: c :: s := by
    intro c s hc hpre
    obtain ⟨x, w, rfl⟩ := List.exists_cons_of_ne_nil hne
    have hx := (List.cons_prefix_cons.mp hpre).1
    cases hc with
    | inl hc => exact hw.1 (hc ▸ hx ▸ List.mem_cons_self)
    | inr hc => exact hw.2 (hc ▸ hx ▸ List.mem_cons_self)
  induction s generalizing cr with
  | nil => rfl
  | cons c s ih =>
    have hfile : w <:+: c :: s ↔ w <+: c :: s ∨ w <:+: s := List.infix_cons_iff
    rw [hfile]
    obtain ⟨hc, hread⟩ | ⟨hc, hread⟩ | ⟨hc, hread⟩ := translateNewlines_cons_cases cr c s
    · rw [hread, List.infix_cons_iff, or_iff_right (hbreak _ _ (.inl rfl)),
        or_iff_right (hbreak _ _ (.inr hc))]
      exact ih true
    · rw [hread, or_iff_right (hbreak _ _ (.inl hc))]
      exact ih false
    · rw [hread, List.infix_cons_iff, ← translateNewlines_cons s hc, hpre]
      exact or_congr Iff.rfl (ih false)

/-- An expression whose words stand within lines finds the same in the text read as in the
    file. -/
theorem scan_translateNewlines {β : Type} {m : List Char → Option (β × List Char)}
    {W : β → List Char → Prop} (hm : Spells m W) (hne : ∀ b w, W b w → w ≠ [])
    (hW : ∀ b w, W b w → NoBreak w) (cr : Bool) (s : List Char) :
    scan m (translateNewlines cr s) = scan m s := by
  have hmatch : ∀ s, (m (translateNewlines false s)).map Prod.fst = (m s).map Prod.fst := by
    intro s
    ext b
    simp only [Option.map_eq_some_iff, Prod.exists, exists_and_right,
      exists_eq_right]
    constructor
    · intro h
      obtain ⟨rest, h⟩ := h
      obtain ⟨w, hw, heq⟩ := (hm _ b rest).mp h
      obtain ⟨rest', rfl, -⟩ := (translateNewlines_eq_append_iff (hW b w hw)).mp heq
      exact ⟨rest', (hm _ b rest').mpr ⟨w, hw, rfl⟩⟩
    · intro h
      obtain ⟨rest, h⟩ := h
      obtain ⟨w, hw, rfl⟩ := (hm _ b rest).mp h
      exact ⟨_, (hm _ b _).mpr
        ⟨w, hw, (translateNewlines_eq_append_iff (hW b w hw)).mpr ⟨rest, rfl, rfl⟩⟩⟩
  -- nor does it start a match
  have hlf : ∀ s, scan m ('\n' :: s) = scan m s := fun s =>
    scan_cons_none (hm.eq_none hne (fun b w hw => (hW b w hw).1) s)
  have hcr : ∀ s, scan m ('\r' :: s) = scan m s := fun s =>
    scan_cons_none (hm.eq_none hne (fun b w hw => (hW b w hw).2) s)
  induction s generalizing cr with
  | nil => rfl
  | cons c s ih =>
    obtain ⟨hc, hread⟩ | ⟨hc, hread⟩ | ⟨hc, hread⟩ := translateNewlines_cons_cases cr c s
    · rw [hread, hlf, ih, hc, hcr]
    · rw [hread, ih, hc, hlf]
    · rw [hread, scan_cons, scan_cons, ih, ← translateNewlines_cons s hc, hmatch]

end LezFuzzing.Spec
