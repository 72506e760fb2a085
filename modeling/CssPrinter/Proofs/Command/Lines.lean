import CssPrinter.Proofs.Command.Printing

/-!
# Results as lines

A written JSON value has no control characters (`visible_value`). So a result in JSON is one line
that is read back on its own, whatever its texts hold, and the output of a run is split at its line
feeds into the results of the inputs (`FileTree.run_lines`, `run_prints_lines`).
-/

namespace CssPrinter

/-! ### Written values have no control characters -/

namespace Json

def Visible (s : List Char) : Prop := ∀ c ∈ s, 0x20 ≤ c.toNat

@[simp] theorem visible_append {s t : List Char} : Visible (s ++ t) ↔ Visible s ∧ Visible t :=
  List.forall_mem_append

@[simp] theorem visible_cons {c : Char} {s : List Char} :
    Visible (c :: s) ↔ 0x20 ≤ c.toNat ∧ Visible s :=
  List.forall_mem_cons

@[simp] theorem visible_nil : Visible [] := nofun

theorem Visible.feed_not_mem {s : List Char} (visible : Visible s) : '\n' ∉ s :=
  fun member => absurd (visible '\n' member) (by decide)

theorem visible_hexDigit (n : Nat) : 0x20 ≤ (hexDigit n).toNat := by
  have all : ∀ k < 16, 0x20 ≤ (Nat.digitChar k).toNat := by decide
  exact all (n % 16) (Nat.mod_lt n (by decide))

theorem visible_escaped (c : Char) : Visible (escaped c) := by
  rcases escaped_cases c with ⟨e, letter, -, text⟩ | ⟨-, text⟩ | ⟨-, -, visible, text⟩
  · have letters : Visible ['"', '\\', 'b', 'f', 'n', 'r', 't'] := by simp [Visible]
    rw [text, visible_cons]
    exact ⟨by decide, fun d member => letters d (List.mem_singleton.mp member ▸ letter)⟩
  · rw [text]
    simp [visible_hexDigit]
  · rw [text, visible_cons]
    exact ⟨Nat.le_of_not_lt visible, visible_nil⟩

theorem visible_quoted (s : String) : Visible (quoted s) := by
  have inside : Visible (s.toList.flatMap escaped) := by
    intro c member
    obtain ⟨d, -, written⟩ := List.mem_flatMap.mp member
    exact visible_escaped d c written
  simp [quoted, inside]

theorem visible_commaSeparated {texts : List (List Char)} (each : ∀ t ∈ texts, Visible t) :
    Visible (commaSeparated texts) := by
  fun_induction commaSeparated texts with
  | case1 => exact visible_nil
  | case2 t => exact each t List.mem_cons_self
  | case3 t rest _ ih =>
    obtain ⟨first, others⟩ := List.forall_mem_cons.mp each
    simp [first, ih others]

theorem le_toNat_of_isDigit {c : Char} (digit : c.isDigit = true) : 0x20 ≤ c.toNat := by
  simp only [Char.isDigit, Bool.and_eq_true, decide_eq_true_eq] at digit
  have zero : ('0' : Char).val.toNat ≤ c.val.toNat := UInt32.le_iff_toNat_le.mp digit.1
  exact Nat.le_trans (by decide) zero

mutual

theorem visible_value : (v : Value) → v.Exact → Visible v.chars
  | .null, _ => by simp [Value.chars]
  | .bool true, _ => by simp [Value.chars]
  | .bool false, _ => by simp [Value.chars]
  | .number (.natural n), _ => by
    intro c member
    exact le_toNat_of_isDigit (Nat.isDigit_of_mem_toDigits (by decide) (by decide) member)
  | .string s, _ => visible_quoted s
  | .array items, exact => by
    simp [Value.chars, visible_commaSeparated (visible_items items exact)]
  | .object members, exact => by
    simp [Value.chars, visible_commaSeparated (visible_members members exact)]

theorem visible_items : (items : List Value) → ExactItems items → ∀ t ∈ itemTexts items, Visible t
  | [], _ => nofun
  | v :: rest, exact =>
    List.forall_mem_cons.mpr ⟨visible_value v exact.1, visible_items rest exact.2⟩

theorem visible_members : (members : List (String × Value)) → ExactMembers members →
    ∀ t ∈ memberTexts members, Visible t
  | [], _ => nofun
  | (key, v) :: rest, exact => by
    refine List.forall_mem_cons.mpr ⟨?_, visible_members rest exact.2⟩
    simp [visible_quoted key, visible_value v exact.1]

end

end Json

open Json

/-! ### One result -/

/-- A JSON text that says exactly this about an input: its path, the CSS, and the map if there is
one. -/
def Tells (text input css : String) (map : Option String) : Prop :=
  Value.parse text = .ok (.object (("input", .string input) :: ("css", .string css) ::
    (map.map fun map => ("map", .string map)).toList))

/-- A text that is one line, without control characters but for the line feed at its end. -/
def OneLine (text : String) : Prop :=
  ∃ line, text.toList = line ++ ['\n'] ∧ Visible line

namespace Result

variable (r : Result)

theorem json_eq : r.json = .object (("input", .string r.input) :: ("css", .string r.css) ::
    (r.map.map fun map => ("map", Value.string map)).toList) := by
  unfold json
  cases r.map <;> rfl

theorem exact_json : r.json.Exact := by
  unfold json
  cases r.map <;> simp [Value.Exact, ExactMembers]

theorem depth_json : r.json.depth = 1 := by
  unfold json
  cases r.map <;> simp [Value.depth, membersDepth]

theorem tells_text : Tells r.json.text r.input r.css r.map := by
  rw [Tells, ← json_eq]
  exact Value.parse_text r.exact_json (by rw [depth_json]; decide)

theorem tells_format : Tells (r.format .json) r.input r.css r.map := by
  rw [Tells, ← json_eq]
  exact Value.parse_padded r.exact_json (by rw [depth_json]; decide) (by simp [Json.isBlank])

theorem toList_format_json : (r.format .json).toList = r.json.chars ++ ['\n'] := by
  simp [format, Value.text]

theorem oneLine_format : OneLine (r.format .json) :=
  ⟨r.json.chars, r.toList_format_json, visible_value _ r.exact_json⟩

end Result

/-! ### All results of a run -/

/-- The inputs that can be printed, in order. -/
def FileTree.successes (t : FileTree) (a : Arguments) : List (Path × Printed) :=
  (t.collected a.inputs).filterMap fun p => (t.printed (t.optionsOf a) p).toOption.map (p, ·)

namespace Report

variable (result : Path → Except RunError Printed) (files : List Path)

theorem toList_output_ofFiles :
    (ofFiles .json result files).output.toList =
      ((files.filterMap fun p => (result p).toOption.map (p, ·)).map fun x =>
        (x.2.result x.1).json.chars).flatMap (· ++ ['\n']) := by
  have formatted : (files.filterMap fun p => (result p).toOption.map (·.format .json p)) =
      (files.filterMap fun p => (result p).toOption.map (p, ·)).map fun x =>
        x.2.format .json x.1 := by
    rw [List.map_filterMap]
    simp only [Option.map_map, Function.comp_def]
  rw [ofFiles, formatted, String.toList_join, List.flatMap_map, List.flatMap_map]
  simp only [Printed.format, Result.toList_format_json]

theorem succeeded_ofFiles (f : Format) :
    (ofFiles f result files).succeeded =
      (files.filterMap fun p => (result p).toOption.map (p, ·)).length := by
  have same : ∀ p, ((result p).toOption.map (p, ·)).isSome = (result p).isOk := by
    intro p
    cases result p <;> rfl
  rw [List.length_filterMap_eq_countP]
  simp only [same]
  exact List.countP_eq_length_filter.symm

end Report

/-- A run that prints results in JSON prints one line for each input that can be printed. -/
theorem FileTree.run_lines (t : FileTree) {a : Arguments} (json : a.output = .json)
    (unset : a.outDir = none) (filled : t.collected a.inputs ≠ []) :
    ∃ report, (run a : StateM FileTree _).run t = (.ok report, t) ∧
      report.succeeded = (t.successes a).length ∧
      splitAt '\n' report.output.toList =
        ((t.successes a).map fun x => (x.2.result x.1).json.chars) ++ [[]] := by
  refine ⟨_, t.run_of_none unset filled, Report.succeeded_ofFiles _ _ _, ?_⟩
  rw [json, Report.toList_output_ofFiles, splitAt_flatMap]
  · rfl
  · intro line member
    obtain ⟨x, -, rfl⟩ := List.mem_map.mp member
    exact (visible_value _ (Result.exact_json _)).feed_not_mem

/-- In JSON a result is one line without control characters, and reading it gives back what is told
about the input and nothing else, whatever its texts hold. What is told of a print are the path of
its input, its CSS and the text of its map. So the lines of a run are its prints in order. -/
theorem run_prints_lines :
    (∀ (input css : String) (map : Option String),
      Tells ((Result.mk input css map).format .json) input css map ∧
      OneLine ((Result.mk input css map).format .json)) ∧
    (∀ (input : Path) (p : Printed),
      Tells (p.format .json input) input.text p.css (p.map.map SourceMap.text) ∧
      OneLine (p.format .json input)) ∧
    ∀ (t : FileTree) (a : Arguments), a.output = .json → a.outDir = none →
      (t.collected a.inputs = [] ∧
        (run a : StateM FileTree _).run t = (.error .noInputs, t)) ∨
      ∃ report lines, (run a : StateM FileTree _).run t = (.ok report, t) ∧
        splitAt '\n' report.output.toList = lines ++ [[]] ∧
        lines.length = report.succeeded ∧
        List.Forall₂ (fun x line =>
            Tells (String.ofList line) x.1.text x.2.css (x.2.map.map SourceMap.text))
          (t.successes a) lines := by
  refine ⟨?_, ?_, ?_⟩
  · intro input css map
    exact ⟨(Result.mk input css map).tells_format, (Result.mk input css map).oneLine_format⟩
  · intro input p
    exact ⟨(p.result input).tells_format, (p.result input).oneLine_format⟩
  · intro t a json unset
    by_cases filled : t.collected a.inputs = []
    · left
      refine ⟨filled, ?_⟩
      rw [FileTree.run_eq, if_pos filled]
    · right
      obtain ⟨report, ran, count, split⟩ := t.run_lines json unset filled
      refine ⟨report, _, ran, split, by rw [List.length_map, count], ?_⟩
      rw [List.forall₂_map_right_iff, List.forall₂_same]
      intro x _
      exact (x.2.result x.1).tells_text

/-- Texts with quotes, backslashes and control characters, and a map that is JSON itself. -/
def thornyResult : Result where
  input := "a\"\\b.json"
  css := "a \x7b\n\t/* \x01\x7f */ \x7d\r\n"
  map := some "\x7b\"names\":[\"\\n\"]\x7d"

/-- Of two inputs one is printed, on one line. -/
theorem run_prints_lines_mixedDisk :
    Tells (thornyResult.format .json) "a\"\\b.json" "a \x7b\n\t/* \x01\x7f */ \x7d\r\n"
        (some "\x7b\"names\":[\"\\n\"]\x7d") ∧
      ∃ report line,
        (run { inputs := [⟨"a.json"⟩, ⟨"c.json"⟩], output := .json } : StateM FileTree _).run
          mixedDisk = (.ok report, mixedDisk) ∧
        report.succeeded = 1 ∧ splitAt '\n' report.output.toList = [line, []] := by
  obtain ⟨results, -, runs⟩ := run_prints_lines
  refine ⟨(results _ _ _).1, ?_⟩
  have collected : mixedDisk.collected [⟨"a.json"⟩, ⟨"c.json"⟩] = [⟨"a.json"⟩, ⟨"c.json"⟩] := by
    rw [FileTree.collected_eq]
    exact Path.sorted_of_ascending (by decide)
  rcases runs mixedDisk { inputs := [⟨"a.json"⟩, ⟨"c.json"⟩], output := .json } rfl rfl with
    ⟨empty, -⟩ | ⟨report, lines, ran, split, count, said⟩
  · rw [collected] at empty
    cases empty
  · have options : mixedDisk.optionsOf
        { inputs := [⟨"a.json"⟩, ⟨"c.json"⟩], output := .json } = {} := rfl
    obtain ⟨good, bad⟩ := isOk_printed_mixedDisk
    have one : lines.length = 1 := by
      rw [← said.length_eq, FileTree.successes, ← Report.succeeded_ofFiles _ _ .json, collected,
        options]
      simp [Report.ofFiles, good, bad]
    obtain ⟨line, rfl⟩ := List.length_eq_one_iff.mp one
    exact ⟨report, line, ran, count.symm.trans one, split⟩

end CssPrinter
