import LezFuzzing.ForStd.Matcher
import LezFuzzing.ForStd.Uniq

/-!
# The registered targets and the scripts that read them

`fuzz/Cargo.toml` registers each fuzz target. Three scripts parse its list of targets:
`scripts/check_target_inventory.py` with one search over the whole text, and the
`resolve-targets` action and `scripts/mutants-corpus-test.sh` with a `grep | sed | awk`
pipeline. The first one also checks that the documents mention every target, and
`scripts/add_fuzz_target.py` appends a new entry to the manifest.

A file is the list of its characters, as its bytes decode.
-/

namespace LezFuzzing.Native

open Matcher

/-! ## Text files -/

/-- A text file has no NUL character: `grep` reports any other file as binary. -/
structure TextFile where
  chars : List Char
  noNul : Char.ofNat 0 ∉ chars

/-- Newline translation of a file opened in text mode; `cr` says that the character before
    was a carriage return, which a line feed belongs to. -/
def translateNewlines (cr : Bool) : List Char → List Char
  | [] => []
  | c :: s =>
    -- `\r` and `\r\n` are both one newline
    if c = '\r' then '\n' :: translateNewlines true s
    else if c = '\n' ∧ cr = true then translateNewlines false s
    else c :: translateNewlines false s

/-- `Path.read_text` -/
def readText (file : List Char) : List Char :=
  translateNewlines false file

/-- `str.rstrip("\n")` -/
def rstripNewlines (s : List Char) : List Char :=
  s.rdropWhile (· == '\n')

/-! ## The expressions -/

/-- The class `\s`: the characters of `str.isspace`. -/
def isSpace (c : Char) : Bool :=
  let n := c.toNat
  (0x09 ≤ n && n ≤ 0x0d) || (0x1c ≤ n && n ≤ 0x20) || n == 0x85 || n == 0xa0 || n == 0x1680 ||
    (0x2000 ≤ n && n ≤ 0x200a) || n == 0x2028 || n == 0x2029 || n == 0x202f || n == 0x205f ||
    n == 0x3000

/-- The class `[a-z]`. -/
def isLower (c : Char) : Bool :=
  'a' ≤ c && c ≤ 'z'

/-- The class `[a-z0-9_]`. -/
def isTargetChar (c : Char) : Bool :=
  isLower c || ('0' ≤ c && c ≤ '9') || c == '_'

/-- The text `fuzz_`. -/
def fuzzPrefix : List Char := ['f', 'u', 'z', 'z', '_']

/-- `fuzz_[a-z0-9_]+`, handed on with its text. -/
def fuzzName {β : Type} (k : List Char → List Char → Option β) : List Char → Option β :=
  lit fuzzPrefix <| one isTargetChar fun c => many isTargetChar fun cs =>
    k (fuzzPrefix ++ c :: cs)

/-- `_BIN_NAME_RE = name\s*=\s*"(fuzz_[a-z0-9_]+)"`, with the group it captures. -/
def binNameRe : List Char → Option (List Char × List Char) :=
  lit ['n', 'a', 'm', 'e'] <| many isSpace fun _ => lit ['='] <| many isSpace fun _ =>
    lit ['"'] <| fuzzName fun target => lit ['"'] fun rest => some (target, rest)

/-- The entry of a target as `add_fuzz_target.py` spells it. -/
def nameLine (target : List Char) : List Char :=
  ['n', 'a', 'm', 'e', ' ', '=', ' ', '"'] ++ target ++ ['"']

/-- `name = "fuzz_[a-z0-9_]+"`, with the text that matched. -/
def grepRe : List Char → Option (List Char × List Char) :=
  lit ['n', 'a', 'm', 'e', ' ', '=', ' ', '"'] <| fuzzName fun target => lit ['"'] fun rest =>
    some (nameLine target, rest)

/-- `.*"(fuzz_[a-z0-9_]+)"`, with the group it captures. -/
def sedRe : List Char → Option (List Char × List Char) :=
  many (fun _ => true) fun _ => lit ['"'] <| fuzzName fun target =>
    lit ['"'] fun rest => some (target, rest)

/-- `_TARGET_RE = ^fuzz_[a-z][a-z0-9_]*$`; the end of a pattern also matches in front of a
    newline that ends the text. -/
def targetRe (target : List Char) : Bool :=
  Option.isSome <|
    (lit fuzzPrefix <| one isLower fun _ => many isTargetChar fun _ rest =>
      -- `$`
      if rest = [] ∨ rest = ['\n'] then some () else none) target

/-! ## The three parsers -/

/-- `registered_targets` -/
def registeredTargets (cargoToml : List Char) : List (List Char) :=
  let names := findAll binNameRe (readText cargoToml)
  -- preserve order, drop duplicates
  (names.foldl
    (fun (st : List (List Char) × List (List Char)) n =>
      if n ∉ st.1 then (n :: st.1, st.2 ++ [n]) else st)
    ([], [])).2

/-- `grep -oE`: the matches of each line, one a line. -/
def grepOnly (file : TextFile) : List (List Char) :=
  (file.chars.splitOn '\n').flatMap (findAll grepRe)

/-- `sed -E 's/.*"(fuzz_[a-z0-9_]+)"/\1/'`, on one line. -/
def sedLine (line : List Char) : List Char :=
  match sedRe line with
  | some (target, rest) => target ++ rest
  | none => line

/-- `grep | sed | awk '!seen[$0]++'` -/
def targetPipeline (cargoToml : TextFile) : List (List Char) :=
  List.uniq [] ((grepOnly cargoToml).map sedLine)

/-- The text that prints some lines. -/
def printLines (lines : List (List Char)) : List Char :=
  lines.flatMap (· ++ ['\n'])

/-- `jq -R -s -c 'split("\n") | map(select(length > 0))'` -/
def jqSplit (text : List Char) : List (List Char) :=
  (text.splitOn '\n').filter (0 < ·.length)

/-- `while IFS= read -r _target; do [ -n "${_target}" ] && targets+=(…); done`: the loop ends
    at the text behind the last newline. -/
def readLoop (text : List Char) : List (List Char) :=
  (text.splitOn '\n').dropLast.filter (· ≠ [])

/-- The targets of the `resolve-targets` action. -/
def resolveTargets (cargoToml : TextFile) : List (List Char) :=
  jqSplit (printLines (targetPipeline cargoToml))

/-- The targets of `mutants-corpus-test.sh`. -/
def mutantsTargets (cargoToml : TextFile) : List (List Char) :=
  readLoop (printLines (targetPipeline cargoToml))

/-! ## The drift gate -/

/-- What a script leaves: its exit code and what it prints, one text a call of `print`. -/
structure ScriptRun where
  exit : Nat
  stdout : List String
  stderr : List String

/-- `CONSUMERS` -/
def consumers : List String := ["README.md", "docs/fuzzing.md"]

/-- The loop over the consumers: the pairs of a document and a target that its text lacks. -/
def collectMissing (files : String → Option (List Char)) (targets : List (List Char)) :
    List String → Except String (List (String × List Char))
  | [] => .ok []
  | rel :: rels =>
    match files rel with
    | none => .error s!"ERROR: consumer file not found: {rel}"
    | some doc => do
      let text := readText doc
      let missing ← collectMissing files targets rels
      return (targets.filter fun target => ¬ target <:+: text).map (Prod.mk rel) ++ missing

/-- The report of the missing pairs. -/
def driftReport (count : Nat) (missing : List (String × List Char)) : List String :=
  (s!"Target-inventory drift: {count} targets registered in fuzz/Cargo.toml, " ++
      "but some consumers are missing entries:\n") ::
    missing.map (fun entry => s!"  MISSING  {entry.1}  ->  {String.ofList entry.2}") ++
    ["\nAdd the target(s) above to each listed file " ++
      "(see scripts/add_fuzz_target.py for the canonical insertion points)."]

/-- `main` of `check_target_inventory.py`. The files are read by their path below the root;
    `cargoToml` is the path of the manifest as it is printed. -/
def checkTargetInventory (cargoToml : String) (files : String → Option (List Char)) :
    ScriptRun :=
  match files "fuzz/Cargo.toml" with
  | none => ⟨1, [], [s!"ERROR: {cargoToml} not found"]⟩
  | some manifest =>
    let targets := registeredTargets manifest
    -- an inventory without targets is an error of its own
    if targets = [] then ⟨1, [], [s!"ERROR: no [[bin]] targets found in {cargoToml}"]⟩
    else
      match collectMissing files targets consumers with
      | .error message => ⟨1, [], [message]⟩
      | .ok missing =>
        if missing ≠ [] then ⟨1, [], driftReport targets.length missing⟩
        else
          ⟨0, [s!"OK: all {consumers.length} consumers list every one of the " ++
            s!"{targets.length} registered targets."], []⟩

/-! ## Registering a target -/

/-- The head of an entry. -/
def binHeader : List Char := "\n[[bin]]\n".toList

/-- The text between the name of a target and the name of its file. -/
def pathHeader : List Char := "\npath = \"fuzz_targets/".toList

/-- The text behind the name of the file. -/
def entryEnd : List Char := ".rs\"\ntest = false\nbench = false\n".toList

/-- The entry that is appended to the manifest. -/
def binEntry (target : List Char) : List Char :=
  binHeader ++ nameLine target ++ pathHeader ++ target ++ entryEnd

/-- `append_cargo_bin`: the manifest afterwards and what is printed. `repr` is `repr` of a
    string. -/
def appendCargoBin (repr : List Char → String) (target cargoToml : List Char) :
    List Char × List String :=
  let content := readText cargoToml
  -- present in the spelling of the script; any other spelling goes unnoticed
  if nameLine target <:+: content then
    (cargoToml, [s!"  SKIP fuzz/Cargo.toml — [[bin]] {repr target} already present"])
  else
    (rstripNewlines content ++ '\n' :: binEntry target,
      [s!"  [+] fuzz/Cargo.toml  — added [[bin]] {repr target}"])

/-- The build instructions. -/
def nextSteps (target : String) : List String :=
  ["",
    "Registration complete!  Next steps:",
    "",
    "  1. Implement the harness body in:",
    s!"       fuzz/fuzz_targets/{target}.rs",
    "",
    "  2. Verify the libFuzzer (cargo-fuzz) build:",
    s!"       RISC0_DEV_MODE=1 cargo fuzz build {target}",
    "",
    "  3. Verify the AFL++ build (single shared fuzz/Cargo.toml):",
    "       cd fuzz && cargo afl build \\",
    "         --no-default-features --features fuzzer-afl \\",
    s!"         --release --bin {target}",
    "",
    s!"  4. Run with libFuzzer:  just fuzz-one {target}",
    s!"     Run with AFL++:      just fuzz-afl {target}",
    "",
    "  5. Every workflow and script derives its target list from",
    "     fuzz/Cargo.toml, so no CI edits are needed. Only add a prose row",
    "     to the two doc tables, then verify with:",
    "       python3 scripts/check_target_inventory.py",
    "     (the same check runs in CI and will fail the build on drift):",
    "       README.md, docs/fuzzing.md"]

/-- `main` of `add_fuzz_target.py`, on the arguments behind the name of the script: how it
    ends, and the manifest afterwards. -/
def addFuzzTarget (repr : List Char → String) (script cargoToml : String)
    (args : List (List Char)) (file : Option (List Char)) : ScriptRun × Option (List Char) :=
  match args with
  | [target] =>
    if targetRe target = false then
      (⟨1, [], ["ERROR: target name must match fuzz_[a-z][a-z0-9_]*, " ++
        s!"got: {repr target}"]⟩, file)
    else
      match file with
      | none => (⟨1, [], [s!"ERROR: {cargoToml} not found"]⟩, none)
      | some manifest =>
        let (after, printed) := appendCargoBin repr target manifest
        (⟨0, printed ++ nextSteps (String.ofList target), []⟩, some after)
  | _ => (⟨1, [], [s!"Usage: {script} <TARGET_NAME>"]⟩, file)

end LezFuzzing.Native
