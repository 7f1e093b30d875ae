import CodeIndex.Proofs.CommandLine.Spelling
import CodeIndex.Proofs.Text.Integer

/-!
# Reading what was written

Each word of a written command line is understood whatever came before it. When the words for some
arguments have been read, these arguments are what the command line has so far, but for one that
may still be pending: this is what each further argument preserves.

* `CommandLine.only` : some of the arguments of a command line;
* `Reading.token_long`, `Reading.token_joined`, `Reading.token_letter`, `Reading.token_plain` : the
  words there are;
* `CommandLine.Reached` : what has been read when some arguments are done;
* `Reached.step`, `Reached.run` : one more argument, and all of them;
* `CommandLine.read_written` : every written command line is read back.
-/

namespace CodeIndex.CommandLine

variable {line : CommandLine} {as : List Argument} {o : ValueOption} {f : Flag} {value : String}

/-! ## Some of the arguments -/

/-- The command line with some of its arguments only. -/
def only (line : CommandLine) (as : List Argument) : CommandLine where
  project := if .project ∈ as then line.project else none
  analyzer := if .option .analyzer ∈ as then line.analyzer else none
  outputDir := if .option .outputDir ∈ as then line.outputDir else none
  jsonOutput := if .option .jsonOutput ∈ as then line.jsonOutput else none
  keepCopy := if .flag .keepCopy ∈ as then line.keepCopy else false
  checkTools := if .flag .checkTools ∈ as then line.checkTools else false
  timeout := if .option .timeout ∈ as then line.timeout else none
  json := if .flag .json ∈ as then line.json else false
  printConfig := if .flag .printConfig ∈ as then line.printConfig else false
  completions := if .option .completions ∈ as then line.completions else none
  quiet := if .flag .quiet ∈ as then line.quiet else false
  noColor := if .flag .noColor ∈ as then line.noColor else false
  verbose := if .flag .verbose ∈ as then line.verbose else false

/-- All that a command line gives is all of it. -/
theorem only_eq (h : ∀ a, line.gives a = true → a ∈ as) : line.only as = line := by
  have hoption : ∀ {α : Type} {x : Option α} {a : Argument}, line.gives a = x.isSome →
      (if a ∈ as then x else none) = x := by
    intro α x a hgives
    split
    · rfl
    · next hmem =>
      cases x with
      | none => rfl
      | some x => exact absurd (h a hgives) hmem
  have hflag : ∀ {b : Bool} {a : Argument}, line.gives a = b → (if a ∈ as then b else false) = b := by
    intro b a hgives
    split
    · rfl
    · next hmem =>
      cases b with
      | false => rfl
      | true => exact absurd (h a hgives) hmem
  unfold only
  rw [hoption (x := line.project) rfl, hoption (x := line.analyzer) rfl,
    hoption (x := line.outputDir) rfl, hoption (x := line.jsonOutput) rfl,
    hoption (x := line.timeout) rfl, hoption (x := line.completions) rfl,
    hflag (a := .flag .keepCopy) (b := line.keepCopy) rfl, hflag (a := .flag .checkTools) (b := line.checkTools) rfl,
    hflag (a := .flag .json) (b := line.json) rfl, hflag (a := .flag .printConfig) (b := line.printConfig) rfl,
    hflag (a := .flag .quiet) (b := line.quiet) rfl, hflag (a := .flag .noColor) (b := line.noColor) rfl,
    hflag (a := .flag .verbose) (b := line.verbose) rfl]

theorem only_flag (set : line.has f = true) :
    (line.only as).withFlag f = line.only (as ++ [.flag f]) := by
  cases f <;> simp only [has] at set <;> simp [only, withFlag, set]

theorem only_project {p : Path} (given : line.project = some p) :
    { line.only as with project := some ⟨p.text⟩ } = line.only (as ++ [.project]) := by
  simp [only, given]

theorem ofName?_of_names {kind : Analyzer} {name : String} (named : name ∈ kind.names) :
    Analyzer.ofName? name = some kind ∧ name ≠ "" := by
  cases kind <;> simp only [Analyzer.names, List.mem_cons, List.not_mem_nil, or_false] at named <;>
    rcases named with rfl | rfl | rfl <;> decide

theorem ofName?_name (shell : CompletionShell) :
    CompletionShell.ofName? shell.name = some shell ∧ shell.name ≠ "" := by
  cases shell <;> decide

theorem readUnsigned_numeral (plus : Bool) (zeros : Nat) {n : Nat}
    (h : n ≤ Text.maxUnsigned) :
    Text.readUnsigned (numeral plus zeros n) = .ok n := by
  have hdigits : ∀ c ∈ List.replicate zeros '0' ++ Nat.toDigits 10 n, c.isDigit = true := by
    intro c hc
    obtain hc | hc := List.mem_append.mp hc
    · rw [List.eq_of_mem_replicate hc]
      rfl
    · exact Nat.isDigit_of_mem_toDigits (by decide) (by decide) hc
  have hne : List.replicate zeros '0' ++ Nat.toDigits 10 n ≠ [] := by simp
  have hvalue : Nat.ofDigitChars 10 (List.replicate zeros '0' ++ Nat.toDigits 10 n) 0 = n := by
    rw [Nat.ofDigitChars_append, Nat.ofDigitChars_replicate_zero, Nat.mul_zero]
    exact Nat.ofDigitChars_toDigits (by decide) (by decide)
  have hread := Text.readUnsigned_digits plus hdigits hne (by rwa [hvalue])
  rwa [hvalue, ← List.append_assoc] at hread

/-- A text for a value of the command line is taken for this value. -/
theorem withValue_only (proper : line.Proper) (meant : line.Says o value) :
    (line.only as).withValue o value = .ok (line.only (as ++ [.option o])) := by
  have hfull : ∀ {s : String}, s ≠ "" → ¬ s.isEmpty = true := fun hs h =>
    hs (String.isEmpty_iff.mp h)
  cases meant with
  | analyzer given named =>
    obtain ⟨hname, hne⟩ := ofName?_of_names named
    refine (if_neg (hfull hne)).trans ?_
    simp [hname, only, given]
  | outputDir given =>
    refine (if_neg (hfull (proper.outputDir _ given))).trans ?_
    simp [only, given]
  | jsonOutput given =>
    refine (if_neg (hfull (proper.jsonOutput _ given))).trans ?_
    simp [only, given]
  | @timeout n given plus zeros =>
    have hread := readUnsigned_numeral plus zeros (proper.timeout n given)
    unfold withValue
    rw [hread]
    simp [only, given]
  | @completions shell given =>
    obtain ⟨hname, hne⟩ := ofName?_name shell
    refine (if_neg (hfull hne)).trans ?_
    simp [hname, only, given]

/-! ## Words -/

namespace Reading

variable {r : Reading}

theorem splitEquals_of_not_mem {name : List Char} (h : '=' ∉ name) :
    splitEquals name = (name, none) ∧
      ∀ value, splitEquals (name ++ '=' :: value) = (name, some value) := by
  induction name with
  | nil => exact ⟨rfl, fun _ => rfl⟩
  | cons c name ih =>
    have hc : c ≠ '=' := fun hc => h (hc ▸ List.mem_cons_self)
    obtain ⟨hnone, hsome⟩ := ih fun hmem => h (List.mem_cons_of_mem c hmem)
    constructor
    · rw [splitEquals, hnone]
      exact hc
    · intro value
      rw [List.cons_append, splitEquals, hsome]
      exact hc

/-- A word that begins with two hyphens and goes on is split at its first equals sign. -/
theorem token_hyphens (leading : r.trailing = false) {cs : List Char} (h : cs ≠ []) :
    r.token (String.ofList ('-' :: '-' :: cs)) =
      r.takeLong (String.ofList (splitEquals cs).1) ((splitEquals cs).2.map String.ofList) := by
  obtain ⟨c, cs, rfl⟩ := List.exists_cons_of_ne_nil h
  rw [token, leading, String.toList_ofList]
  rfl

theorem token_long (leading : r.trailing = false) {name : String} (hne : name ≠ "")
    (h : '=' ∉ name.toList) : r.token ("--" ++ name) = r.takeLong name none := by
  have hword : "--" ++ name = String.ofList ('-' :: '-' :: name.toList) := by
    rw [← String.toList_inj]
    simp
  rw [hword, token_hyphens leading (by simpa using hne), (splitEquals_of_not_mem h).1,
    String.ofList_toList]
  rfl

theorem token_joined (leading : r.trailing = false) {name : String}
    (h : '=' ∉ name.toList) (value : String) :
    r.token ("--" ++ name ++ "=" ++ value) = r.takeLong name (some value) := by
  have hword : "--" ++ name ++ "=" ++ value =
      String.ofList ('-' :: '-' :: (name.toList ++ '=' :: value.toList)) := by
    rw [← String.toList_inj]
    simp
  rw [hword, token_hyphens leading (by simp), (splitEquals_of_not_mem h).2,
    String.ofList_toList, Option.map_some, String.ofList_toList]

theorem token_letter (leading : r.trailing = false) {c : Char} (hc : c ≠ '-') :
    r.token (String.ofList ['-', c]) = r.takeLetters [c] := by
  rw [token, leading, String.toList_ofList]
  simp [hc]

theorem token_plain (leading : r.trailing = false) (plain : IsPlain value) :
    r.token value = r.takeWord value := by
  rw [token, leading, if_neg Bool.false_ne_true]
  unfold IsPlain at plain
  split
  · next h => exact absurd (by rw [h]; rfl) plain
  · next h => exact absurd (by rw [h]; rfl) plain
  · next h => exact absurd (by rw [h]; rfl) plain
  · rfl

theorem token_trailing (behind : r.trailing = true) : r.token value = r.takePositional value := by
  rw [token, behind]
  rfl

/-- The long names of options have no equals sign and belong to one option each. -/
theorem long_spec {a : Argument} (h : a ∈ Argument.options) :
    a.long ≠ "" ∧ '=' ∉ a.long.toList ∧ Argument.ofLong? a.long = some a := by
  revert a
  decide

theorem short_spec {a : Argument} (h : a ∈ Argument.options) {c : Char} (letter : a.short? = some c) :
    c ≠ '-' ∧ Argument.ofShort? c = some a := by
  have hall : ∀ a ∈ Argument.options,
      (a.short?.all fun c => c ≠ '-' && Argument.ofShort? c = some a) = true := by decide
  have hthis := hall a h
  rw [letter] at hthis
  simpa using hthis

theorem mem_options_flag (f : Flag) : .flag f ∈ Argument.options := by
  cases f <;> decide

theorem mem_options_option (o : ValueOption) : .option o ∈ Argument.options := by
  cases o <;> decide

theorem token_flag (leading : r.trailing = false) {word : String} (h : SpelledFlag f word) :
    r.token word = r.takeFlag f := by
  cases h with
  | long =>
    obtain ⟨hne, hequals, hname⟩ := long_spec (mem_options_flag f)
    rw [token_long leading hne hequals]
    simp only [takeLong, hname]
  | short letter =>
    obtain ⟨hhyphen, hname⟩ := short_spec (mem_options_flag f) letter
    rw [token_letter leading hhyphen, takeLetters, hname]
    exact bind_pure _

theorem token_value (o : ValueOption) (value : String) (leading : r.trailing = false) :
    r.token ("--" ++ (Argument.option o).long ++ "=" ++ value) = r.attached o value ∧
    r.token ("--" ++ (Argument.option o).long) = r.expect o ∧
    ∀ c, (Argument.option o).short? = some c → r.token (String.ofList ['-', c]) = r.expect o := by
  obtain ⟨hne, hequals, hname⟩ := long_spec (mem_options_option o)
  refine ⟨?_, ?_, fun c letter => ?_⟩
  · rw [token_joined leading hequals]
    simp only [takeLong, hname]
  · rw [token_long leading hne hequals]
    simp only [takeLong, hname]
  · obtain ⟨hhyphen, hletter⟩ := short_spec (mem_options_option o) letter
    rw [token_letter leading hhyphen, takeLetters, hletter]

end Reading

/-! ## What has been read -/

open Reading

/-- What has been read of a command line when some arguments are done: they are in it, but for the
last one, which may be pending. -/
inductive Reached (line : CommandLine) (trailing : Bool) : List Argument → Reading → Prop
  | settled (as : List Argument) :
      Reached line trailing as { line := line.only as, used := as, trailing }
  | value {as : List Argument} {o : ValueOption} {value : String} (fresh : .option o ∉ as)
      (meant : line.Says o value) : Reached line trailing (as ++ [.option o])
        { line := line.only as, used := as, pending := some (.given o value), trailing }
  | project {as : List Argument} {p : Path} (given : line.project = some p) :
      Reached line trailing (as ++ [.project])
        { line := line.only as, used := as, pending := some (.project p.text), trailing }

theorem takeValue_only (proper : line.Proper) (fresh : .option o ∉ as) (meant : line.Says o value)
    (trailing : Bool) : Reading.takeValue { line := line.only as, used := as, trailing } o value =
      .ok { line := line.only (as ++ [.option o]), used := as ++ [.option o], trailing } := by
  simp [Reading.takeValue, fresh, withValue_only proper meant]

namespace Reached

variable {trailing : Bool} {r : Reading} {a : Argument} {words : List String}

theorem trailing_eq (h : Reached line trailing as r) : r.trailing = trailing := by
  cases h <;> rfl

/-- What is pending can be taken up. -/
theorem settle (proper : line.Proper) (h : Reached line trailing as r) :
    r.settle = .ok { line := line.only as, used := as, trailing } := by
  cases h with
  | settled => rfl
  | value fresh meant => exact takeValue_only proper fresh meant trailing
  | project given =>
    have hne := proper.project _ given
    simp [Reading.settle, hne, ← only_project given]

/-- Where the project is not done, a word is taken for it. -/
theorem takePositional (proper : line.Proper) (h : Reached line trailing as r)
    (fresh : .project ∉ as) (value : String) : r.takePositional value =
      .ok { line := line.only as, used := as, pending := some (.project value), trailing } := by
  unfold Reading.takePositional
  refine (if_neg ?_).trans ?_
  · cases h with
    | settled => simp [only, fresh]
    | value =>
      simp only [List.mem_append, not_or] at fresh
      simp [only, fresh.1]
    | project given => simp at fresh
  · rw [h.settle proper]
    rfl

/-- A word that is no option goes to the project, for no option waits for a value. -/
theorem takeWord (h : Reached line trailing as r) (value : String) :
    r.takeWord value = r.takePositional value := by
  cases h <;> rfl

/-- After two hyphens alone, everything is a value. -/
theorem trail (h : Reached line false as r) : r.token "--" = .ok { r with trailing := true } ∧
    Reached line true as { r with trailing := true } := by
  refine ⟨?_, ?_⟩
  · rw [Reading.token, h.trailing_eq]
    rfl
  · cases h with
    | settled => exact .settled as
    | value fresh meant => exact .value fresh meant
    | project given => exact .project given

/-- One more argument can be read. -/
theorem step (proper : line.Proper) (h : Reached line false as r) (fresh : a ∉ as)
    (spelled : line.Spelled a words) :
    ∃ r', words.foldlM Reading.token r = .ok r' ∧ Reached line false (as ++ [a]) r' := by
  have hleading := h.trailing_eq
  have hsettle := h.settle proper
  cases spelled with
  | @flag f word set spelled =>
    refine ⟨_, ?_, .settled (as ++ [.flag f])⟩
    simp [token_flag hleading spelled, Reading.takeFlag, hsettle, fresh, only_flag set, bind,
      Except.bind, pure, Except.pure]
  | @option o value words meant spelled =>
    obtain ⟨hjoined, hlong, hshort⟩ := token_value o value hleading
    -- in two words, the value is kept until the next argument is understood
    have happart : ∀ word, r.token word = r.expect o → IsPlain value →
        [word, value].foldlM Reading.token r =
          .ok { line := line.only as, used := as, pending := some (.given o value) } := by
      intro word hword plain
      simp [hword, Reading.expect, hsettle, token_plain _ plain, Reading.takeWord, bind,
        Except.bind, pure, Except.pure]
    cases spelled with
    | joined =>
      refine ⟨_, ?_, .settled (as ++ [.option o])⟩
      simp [hjoined, Reading.attached, hsettle, takeValue_only proper fresh meant, bind,
        Except.bind, pure, Except.pure]
    | apart plain => exact ⟨_, happart _ hlong plain, .value fresh meant⟩
    | short letter plain => exact ⟨_, happart _ (hshort _ letter) plain, .value fresh meant⟩
  | @project p given plain =>
    refine ⟨_, ?_, .project given⟩
    simp [token_plain hleading plain, h.takeWord, h.takePositional proper fresh, bind,
      Except.bind, pure, Except.pure]

/-- The words for any arguments can be read one after the other. -/
theorem run (proper : line.Proper) {parts : List (Argument × List String)}
    (h : Reached line false as r) (once : (as ++ parts.map Prod.fst).Nodup)
    (spelled : ∀ part ∈ parts, line.Spelled part.1 part.2) :
    ∃ r', (parts.flatMap Prod.snd).foldlM Reading.token r = .ok r' ∧
      Reached line false (as ++ parts.map Prod.fst) r' := by
  induction parts generalizing as r with
  | nil => exact ⟨r, rfl, by simpa using h⟩
  | cons part parts ih =>
    obtain ⟨a, words⟩ := part
    have hfresh : a ∉ as := by
      intro hmem
      exact (List.nodup_append.mp once).2.2 a hmem a (by simp) rfl
    obtain ⟨r₁, hread, hreached⟩ := h.step proper hfresh (spelled _ List.mem_cons_self)
    have hassoc : as ++ ((a, words) :: parts).map Prod.fst = as ++ [a] ++ parts.map Prod.fst := by
      simp
    rw [hassoc] at once ⊢
    obtain ⟨r₂, hrest, hreached⟩ := ih hreached once
      fun part hpart => spelled part (List.mem_cons_of_mem _ hpart)
    refine ⟨r₂, ?_, hreached⟩
    rw [List.flatMap_cons, List.foldlM_append, hread]
    exact hrest

/-- At the end only the project may be missing. -/
theorem finish (proper : line.Proper) (h : Reached line trailing as r)
    (all : ∀ a, line.gives a = true → a ∈ as) : r.finish =
      if line.project.isNone && !line.standsAlone then .error (.misuse (.noProject as))
      else .ok line := by
  rw [Reading.finish, h.settle proper]
  show (if (line.only as).project.isNone && !(line.only as).standsAlone then refuse _
    else Except.ok (line.only as)) = _
  rw [only_eq all]
  rfl

end Reached

/-- All words of a written command line are read, to all of its arguments. -/
theorem exists_reached (proper : line.Proper) {words : List String} (writes : line.Writes words) :
    ∃ trailing as r, words.foldlM Reading.token {} = .ok r ∧ line.Reached trailing as r ∧
      ∀ a, line.gives a = true → a ∈ as := by
  have hstart : line.Reached false [] {} := .settled []
  cases writes with
  | among arranged =>
    obtain ⟨r, hread, hreached⟩ := hstart.run proper arranged.once arranged.spelled
    exact ⟨false, _, r, hread, hreached, fun a ha => (arranged.all a).mpr ha⟩
  | @behind parts p given arranged =>
    obtain ⟨r, hread, hreached⟩ := hstart.run proper arranged.once arranged.spelled
    have hfresh : Argument.project ∉ [] ++ parts.map Prod.fst := by
      intro hmem
      exact ((arranged.all _).mp hmem).2 rfl
    obtain ⟨htoken, hreached⟩ := hreached.trail
    refine ⟨true, [] ++ parts.map Prod.fst ++ [.project], _, ?_, .project given, fun a ha => ?_⟩
    · rw [List.foldlM_append, hread]
      have hproject := hreached.takePositional proper hfresh p.text
      show (r.token "--" >>= fun r => r.token p.text >>= pure) = _
      rw [htoken]
      show (Reading.token _ p.text >>= pure) = _
      rw [token_trailing rfl, hproject]
      rfl
    · by_cases hproject : a = .project
      · simp [hproject]
      · have hmem := (arranged.all a).mpr ⟨ha, hproject⟩
        simp only [List.nil_append, List.mem_append]
        exact .inl hmem

/-- Every command line can be written, and however it is written it is read back, if it has a
project or asks for something that needs none. One that has neither is refused for want of a
project, however it is written. -/
theorem read_written {line : CommandLine} (proper : line.Proper) :
    (∃ words, line.Writes words) ∧ ∀ words, line.Writes words →
      (line.project.isSome = true ∨ line.standsAlone = true → read words = .ok line) ∧
      (line.project = none → line.standsAlone = false →
        ∃ used, read words = .error (.misuse (.noProject used))) := by
  refine ⟨exists_writes line, fun words writes => ?_⟩
  obtain ⟨trailing, as, r, hread, hreached, hall⟩ := exists_reached proper writes
  have hfinish : read words = r.finish := by
    rw [read, hread]
    rfl
  rw [hfinish, hreached.finish proper hall]
  refine ⟨fun h => if_neg ?_, fun hproject halone => ⟨as, if_pos ?_⟩⟩
  · rcases h with h | h
    · rw [Option.isNone_eq_false_iff.mpr h]
      simp
    · simp [h]
  · simp [hproject, halone]

/-- A project with a hyphen and a directory with an equals sign in front, and a long timeout. -/
def dashedLine : CommandLine :=
  { project := some ⟨"-p"⟩, analyzer := some .secondary, outputDir := some ⟨"=x y"⟩
    keepCopy := true, timeout := some 18446744073709551615 }

/-- Words for all of it but the project. -/
def dashedParts : List (Argument × List String) :=
  [(.option .outputDir, ["--output-dir==x y"]), (.flag .keepCopy, ["-k"]),
    (.option .analyzer, ["-a", "rust-analyzer"]),
    (.option .timeout, ["--timeout", "+0018446744073709551615"])]

theorem writes_dashed : dashedLine.Writes ["--output-dir==x y", "-k", "-a", "rust-analyzer",
    "--timeout", "+0018446744073709551615", "--", "-p"] := by
  have harranged : dashedLine.Arranged (fun a => dashedLine.gives a = true ∧ a ≠ .project)
      dashedParts := by
    refine ⟨by decide, fun a => ?_, fun part hpart => ?_⟩
    · cases a with
      | option o => cases o <;> decide
      | flag f => cases f <;> decide
      | _ => decide
    · simp only [dashedParts, List.mem_cons, List.not_mem_nil, or_false] at hpart
      rcases hpart with rfl | rfl | rfl | rfl
      · exact .option (.outputDir rfl) .joined
      · exact .flag rfl (.short rfl)
      · exact .option (.analyzer rfl (by decide)) (.short rfl (by decide))
      · exact .option (.timeout rfl true 2) (.apart (by decide))
  exact .behind rfl harranged

/-- A report to a file for nothing. -/
def projectlessLine : CommandLine := { jsonOutput := some ⟨"out"⟩, json := true }

theorem writes_projectless : projectlessLine.Writes ["--json", "-j", "out"] := by
  have harranged : projectlessLine.Arranged (fun a => projectlessLine.gives a = true)
      [(.flag .json, ["--json"]), (.option .jsonOutput, ["-j", "out"])] := by
    refine ⟨by decide, fun a => ?_, fun part hpart => ?_⟩
    · cases a with
      | option o => cases o <;> decide
      | flag f => cases f <;> decide
      | _ => decide
    · simp only [List.mem_cons, List.not_mem_nil, or_false] at hpart
      rcases hpart with rfl | rfl
      · exact .flag rfl .long
      · exact .option (.jsonOutput rfl) (.short rfl (by decide))
  exact .among harranged

/-- The project is read though it has a hyphen, and words without a project are refused. -/
theorem dashed_project_read :
    read ["--output-dir==x y", "-k", "-a", "rust-analyzer", "--timeout", "+0018446744073709551615",
      "--", "-p"] = .ok dashedLine ∧
    ∃ used, read ["--json", "-j", "out"] = .error (.misuse (.noProject used)) := by
  have hdashed : dashedLine.Proper := by
    refine ⟨?_, ?_, nofun, ?_⟩ <;>
    · rintro x ⟨⟩
      decide
  have hprojectless : projectlessLine.Proper := by
    refine ⟨nofun, nofun, ?_, nofun⟩
    rintro p ⟨⟩
    decide
  exact ⟨((read_written hdashed).2 _ writes_dashed).1 (.inl rfl),
    ((read_written hprojectless).2 _ writes_projectless).2 rfl rfl⟩

end CodeIndex.CommandLine
