import CssPrinter.Command.Run
import CssPrinter.Disk.FileTree

/-!
# A run in one equation

A run first reads: the configuration, the inputs and the files they stand for. Files whose paths are
no text are passed over (`FileTree.filterMap_filesBelow`). Reading leaves a disk as it is, so every
file is printed from the same disk. Then the results are put out in order (`run_eq`).
-/

namespace CssPrinter

/-! ### Programs on a disk -/

section

variable {α β : Type} {t u : FileTree}

theorem run_bind_of {x : StateM FileTree α} {f : α → StateM FileTree β} {a : α}
    (first : x.run t = (a, u)) : (x >>= f).run t = (f a).run u := by
  rw [StateT.run_bind, first]
  rfl

theorem run_mapM_of {f : α → StateM FileTree β} {g : α → β} {xs : List α}
    (each : ∀ x ∈ xs, (f x).run t = (g x, t)) : (xs.mapM f).run t = (xs.map g, t) := by
  induction xs with
  | nil => rfl
  | cons x xs ih =>
    have others := ih fun y member => each y (List.mem_cons_of_mem _ member)
    rw [List.mapM_cons, run_bind_of (each x List.mem_cons_self), run_bind_of others]
    rfl

end

/-! ### Paths that are text -/

theorem Path.path?_raw (p : Path) : p.raw.path? = some p := by
  unfold Path.raw RawPath.path? String.fromUTF8?
  rw [String.toUTF8_eq_toByteArray, dif_pos p.text.isValidUTF8]
  rfl

/-- Bytes behind a text make a text only if they are one. -/
theorem isValidUTF8_of_append (s : String) {rest : ByteArray}
    (valid : (s.toByteArray ++ rest).IsValidUTF8) : rest.IsValidUTF8 := by
  rw [← String.ofList_toList (s := s), String.toByteArray_ofList] at valid
  generalize s.toList = cs at valid
  induction cs with
  | nil => simpa using valid
  | cons c cs ih =>
    rw [List.utf8Encode_cons, ByteArray.append_assoc] at valid
    exact ih (ByteArray.isValidUTF8_utf8Encode_singleton_append_iff.mp valid)

theorem Stray.path?_rawIn (s : Stray) (dir : Path) : (s.rawIn dir).path? = none := by
  unfold Stray.rawIn RawPath.path? String.fromUTF8?
  rw [String.toUTF8_eq_toByteArray, dif_neg fun valid => s.notText (isValidUTF8_of_append _ valid)]
  rfl

namespace FileTree

variable (t : FileTree)

theorem run_isPresent (p : Path) :
    (Disk.isPresent p : StateM FileTree _).run t = (t.isPresent p, t) := rfl

theorem run_isDirectory (p : Path) :
    (Disk.isDirectory p : StateM FileTree _).run t = (t.isDirectory p, t) := rfl

theorem run_readText (p : Path) :
    (Disk.readText p : StateM FileTree _).run t = (t.readText p, t) := rfl

/-! ### What is read -/

def expanded (input : Path) : List Path := ((expand input : StateM FileTree _).run t).1

/-- The files that the inputs stand for. -/
def collected (inputs : List Path) : List Path := ((collect inputs : StateM FileTree _).run t).1

/-- What printing a file leads to. -/
def printed (options : Options) (path : Path) : Except RunError Printed :=
  ((printFile options path : StateM FileTree _).run t).1

def configOf (a : Arguments) : Config := ((a.loadConfig : StateM FileTree _).run t).1.config

/-- The options of a run: those of the command line, then those of the configuration. -/
def optionsOf (a : Arguments) : Options := a.options (t.configOf a)

/-- What printing an input of a run leads to. -/
def resultOf (a : Arguments) (path : Path) : Except RunError Printed :=
  t.printed (optionsFor (t.optionsOf a) a.outDir path) path

theorem run_filesBelow (p : Path) :
    (Disk.filesBelow p : StateM FileTree _).run t = (t.filesBelow p, t) := rfl

/-- Of the files below a directory those remain whose paths are text. -/
theorem filterMap_filesBelow (p : Path) :
    (t.filesBelow p).filterMap RawPath.path? = t.pathsBelow p := by
  have strays : (t.straysBelow p).filterMap RawPath.path? = [] := by
    unfold straysBelow
    split
    · rw [List.filterMap_map, List.filterMap_eq_nil_iff]
      exact fun s _ => s.path?_rawIn _
    · rfl
  rw [filesBelow, List.filterMap_append, strays, List.append_nil, List.filterMap_map]
  have same : RawPath.path? ∘ Path.raw = some := funext Path.path?_raw
  rw [same, List.filterMap_some]

theorem run_expand (input : Path) :
    (expand input : StateM FileTree _).run t =
      (if t.isDirectory input then (t.pathsBelow input).filter isTreeFile else [input], t) := by
  rw [expand, run_bind_of (t.run_isDirectory input)]
  cases t.isDirectory input with
  | false => rfl
  | true =>
    rw [if_pos rfl, run_bind_of (t.run_filesBelow input), filterMap_filesBelow]
    rfl

theorem expanded_eq (input : Path) :
    t.expanded input =
      if t.isDirectory input then (t.pathsBelow input).filter isTreeFile else [input] := by
  rw [expanded, run_expand]

theorem expanded_of_single {t : FileTree} {p : Path} (single : t.isDirectory p = false) :
    t.expanded p = [p] := by
  rw [expanded_eq, single]
  rfl

theorem expanded_of_directory {t : FileTree} {dir : Path} (directory : t.isDirectory dir = true) :
    t.expanded dir = (t.pathsBelow dir).filter isTreeFile := by
  rw [expanded_eq, directory]
  rfl

theorem run_collect (inputs : List Path) :
    (collect inputs : StateM FileTree _).run t =
      (Path.sorted (inputs.flatMap t.expanded), t) := by
  have each : ∀ input ∈ inputs,
      (expand input : StateM FileTree _).run t = (t.expanded input, t) := by
    intro input _
    rw [expanded, run_expand]
  rw [collect, run_bind_of (run_mapM_of each)]
  rfl

theorem collected_eq (inputs : List Path) :
    t.collected inputs = Path.sorted (inputs.flatMap t.expanded) := by
  rw [collected, run_collect]

theorem run_printFile (options : Options) (path : Path) :
    (printFile options path : StateM FileTree _).run t =
      (match t.readText path with
        | .error e => .error (.read path e)
        | .ok text =>
          match Document.parse text with
          | .error e => .error (.parse path e)
          | .ok d => (d.print options).mapError (.print path), t) := by
  rw [printFile, run_bind_of (t.run_readText path)]
  cases t.readText path with
  | error e => rfl
  | ok text =>
    dsimp only
    cases Document.parse text <;> rfl

theorem printed_eq (options : Options) (path : Path) :
    t.printed options path =
      match t.readText path with
      | .error e => .error (.read path e)
      | .ok text =>
        match Document.parse text with
        | .error e => .error (.parse path e)
        | .ok d => (d.print options).mapError (.print path) := by
  rw [printed, run_printFile]

theorem printed_of_parse (options : Options) {path : Path} {text : String} {d : Document}
    (read : t.readText path = .ok text) (parsed : Document.parse text = .ok d) :
    t.printed options path = (d.print options).mapError (.print path) := by
  rw [printed_eq, read]
  dsimp only
  rw [parsed]

theorem printed_of_unreadable (options : Options) {path : Path} {e : DiskError}
    (read : t.readText path = .error e) :
    t.printed options path = .error (.read path e) := by
  rw [printed_eq, read]

/-- Printing a file fails where it is read, where it is parsed or where the tree is printed. -/
theorem printed_cases (options : Options) (path : Path) :
    (∃ e, t.readText path = .error e ∧ t.printed options path = .error (.read path e)) ∨
      ∃ text, t.readText path = .ok text ∧
        ((∃ e, Document.parse text = .error e ∧
            t.printed options path = .error (.parse path e)) ∨
          ∃ d, Document.parse text = .ok d ∧
            ((∃ e, d.print options = .error e ∧ t.printed options path = .error (.print path e)) ∨
              ∃ p, d.print options = .ok p ∧ t.printed options path = .ok p)) := by
  rw [printed_eq]
  cases t.readText path with
  | error e => exact Or.inl ⟨e, rfl, rfl⟩
  | ok text =>
    refine Or.inr ⟨text, rfl, ?_⟩
    dsimp only
    cases Document.parse text with
    | error e => exact Or.inl ⟨e, rfl, rfl⟩
    | ok d =>
      refine Or.inr ⟨d, rfl, ?_⟩
      dsimp only
      cases d.print options with
      | error e => exact Or.inl ⟨e, rfl, rfl⟩
      | ok p => exact Or.inr ⟨p, rfl, rfl⟩

theorem print_of_printed {t : FileTree} {options : Options} {path : Path} {p : Printed}
    (h : t.printed options path = .ok p) : ∃ d : Document, d.print options = .ok p := by
  rcases t.printed_cases options path with ⟨e, -, failed⟩ | ⟨text, -, ⟨e, -, failed⟩ |
    ⟨d, -, ⟨e, -, failed⟩ | ⟨q, succeeds, result⟩⟩⟩
  · cases failed.symm.trans h
  · cases failed.symm.trans h
  · cases failed.symm.trans h
  · obtain rfl := Except.ok.inj (result.symm.trans h)
    exact ⟨d, succeeds⟩

theorem run_loadFile (path : Path) :
    ((Config.loadFile path : StateM FileTree _).run t).2 = t := by
  rw [Config.loadFile, run_bind_of (t.run_isPresent path)]
  cases t.isPresent path with
  | false => rfl
  | true =>
    rw [if_pos rfl, run_bind_of (t.run_readText path)]
    cases t.readText path with
    | error e => rfl
    | ok text =>
      dsimp only
      cases Config.parse text <;> rfl

theorem run_loadConfig (a : Arguments) : ((a.loadConfig : StateM FileTree _).run t).2 = t := by
  unfold Arguments.loadConfig
  cases a.config with
  | none => exact t.run_loadFile _
  | some path => exact t.run_loadFile path

/-! ### What is put out -/

def emitAll (a : Arguments) (files : List Path) (r : Report) : StateM FileTree Report :=
  files.foldlM (fun r path => r.add a (path, t.resultOf a path)) r

theorem run_runWith (a : Arguments) :
    (runWith a (t.configOf a) : StateM FileTree _).run t =
      if t.collected a.inputs = [] then (.error .noInputs, t)
      else
        (.ok ((t.emitAll a (t.collected a.inputs) {}).run t).1,
          ((t.emitAll a (t.collected a.inputs) {}).run t).2) := by
  have collects : (collect a.inputs : StateM FileTree _).run t = (t.collected a.inputs, t) := by
    rw [collected, run_collect]
  have prints : ∀ file ∈ t.collected a.inputs,
      (printFile (optionsFor (a.options (t.configOf a)) a.outDir file) file :
        StateM FileTree _).run t = (t.resultOf a file, t) := by
    intro file _
    rw [resultOf, optionsOf, printed, run_printFile]
  rw [runWith, run_bind_of collects]
  cases files : t.collected a.inputs with
  | nil => rfl
  | cons file rest =>
    rw [files] at prints
    rw [if_neg (by simp), if_neg (by simp), run_bind_of (run_mapM_of prints),
      ← List.map_prod_left_eq_zip, List.foldlM_map]
    rfl

/-- All files are read before anything is put out. -/
theorem run_eq (a : Arguments) :
    (run a : StateM FileTree _).run t =
      if t.collected a.inputs = [] then (.error .noInputs, t)
      else
        (.ok ((t.emitAll a (t.collected a.inputs) {}).run t).1,
          ((t.emitAll a (t.collected a.inputs) {}).run t).2) := by
  have loads : (a.loadConfig : StateM FileTree _).run t =
      (((a.loadConfig : StateM FileTree _).run t).1, t) :=
    Prod.ext rfl (t.run_loadConfig a)
  rw [run, run_bind_of loads]
  exact t.run_runWith a

end FileTree

end CssPrinter
