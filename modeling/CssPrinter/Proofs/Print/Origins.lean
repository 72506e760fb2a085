import CssPrinter.Proofs.Print.Recording

/-!
# Where mapped rules come from

A map that was printed has one entry for each rule with a position, in document order. What an entry
says about the source depends on the rule's position and, of the options, on the original file
alone.
-/

namespace CssPrinter

/-- What an entry says about the source. -/
structure Origin where
  line : Nat
  column : Nat
  source : String
  name : Option String
deriving DecidableEq

def MapEntry.origin (e : MapEntry) : Origin :=
  ⟨e.sourceLine, e.sourceColumn, e.source, e.name⟩

/-- Where something at a position comes from. Its file is the first that is named, by the start, by
the range or by `original`. -/
def Position.origin (p : Position) (original : Option String) : Origin where
  line := p.start.line.toNat - 1
  column := p.start.column.toNat - 1
  source := ([p.start.file, p.source, original].findSome? nonEmpty).getD "?"
  name := nonEmpty p.start.name

theorem Options.sourceOf_eq (o : Options) (p : Position) :
    o.sourceOf p = ([p.start.file, p.source, o.original].findSome? nonEmpty).getD "?" := by
  unfold Options.sourceOf Position.file
  simp only [List.findSome?_cons, List.findSome?_nil]
  cases nonEmpty p.start.file <;> cases nonEmpty p.source <;> cases nonEmpty o.original <;> rfl

theorem origin_mappingAt (options : Options) (place : Place) (p : Position) :
    (Printer.mappingAt options place p).entry.origin = p.origin options.original := by
  simp [Mapping.entry, MapEntry.origin, Printer.mappingAt, Position.origin, Options.sourceOf_eq,
    nonEmpty]

theorem origin_mappingsOf (options : Options) (xs : List (Place × Rule)) :
    (mappingsOf options xs).map (fun x => x.entry.origin) =
      ((xs.map Prod.snd).filterMap Rule.position).map (·.origin options.original) := by
  induction xs with
  | nil => rfl
  | cons x xs ih =>
    cases position : x.2.position with
    | none => simpa [mappingsOf, position] using ih
    | some p => simpa [mappingsOf, position, origin_mappingAt] using ih

theorem Document.origins_of_print {d : Document} {options : Options} {printed : Printed}
    (wanted : options.wantsMap = true) (h : d.print options = .ok printed) :
    ∃ map entries, printed.map = some map ∧ map.entries = some entries ∧
      entries.map MapEntry.origin = d.positions.map (·.origin options.original) := by
  obtain ⟨map, mapped, entries⟩ := Document.entries_of_print wanted h
  refine ⟨map, _, mapped, entries, ?_⟩
  have origins := origin_mappingsOf options (marks Place.start (d.fragments options))
  rw [map_snd_marks_fragments] at origins
  rw [List.map_map]
  exact origins

/-- The entries of a printed map are the positioned rules in document order. Any other options with
a map and the same original file print the document too, with a map that has the same origins. -/
theorem Document.print_origins (d : Document) (options : Options) (printed : Printed)
    (wanted : options.wantsMap = true) (h : d.print options = .ok printed) :
    (∀ p ∈ d.positions, p.Valid) ∧
      ∃ map entries, printed.map = some map ∧ map.entries = some entries ∧
        entries.map MapEntry.origin = d.positions.map (·.origin options.original) ∧
        ∀ other : Options, other.wantsMap = true → other.original = options.original →
          ∃ reprinted map' entries', d.print other = .ok reprinted ∧
            reprinted.map = some map' ∧ map'.entries = some entries' ∧
            entries'.map MapEntry.origin = entries.map MapEntry.origin := by
  obtain ⟨filled, valid, -⟩ := (Document.print_eq_ok_iff wanted).mp h
  obtain ⟨map, entries, mapped, said, origins⟩ := Document.origins_of_print wanted h
  refine ⟨valid, map, entries, mapped, said, origins, ?_⟩
  intro other wanted' same
  have h' : d.print other = .ok ⟨_, _⟩ :=
    (Document.print_eq_ok_iff wanted').mpr ⟨filled, valid, rfl, rfl⟩
  obtain ⟨map', entries', mapped', said', origins'⟩ := Document.origins_of_print wanted' h'
  refine ⟨_, map', entries', h', mapped', said', ?_⟩
  rw [origins', origins, same]

/-- Rules with and without positions, and other things with positions. -/
def sourcedSheet : Document where
  nodes := [
    .media "print" [
      .rule {
        selectors := ["a"]
        declarations := [.property ⟨"color", "red", some (.ofStart 9 9)⟩]
        position := some {
          start := { line := 2, column := 3, file := some "", name := some "n" }
          source := some "p.css" } },
      .rule { selectors := ["b"] }],
    .rule { selectors := ["c"], position := some (.ofStart 1 1) }]

theorem print_origins_sourcedSheet :
    ∃ printed map entries, sourcedSheet.print { map := true, original := some "o.css" } = .ok printed ∧
      printed.map = some map ∧ map.entries = some entries ∧
      entries.map MapEntry.origin = [⟨1, 2, "p.css", some "n"⟩, ⟨0, 0, "o.css", none⟩] ∧
      ∃ reprinted map' entries',
        sourcedSheet.print
          { compress := true, mapUrl := some "m", original := some "o.css" } = .ok reprinted ∧
        reprinted.map = some map' ∧ map'.entries = some entries' ∧
        entries'.map MapEntry.origin = entries.map MapEntry.origin := by
  have h : sourcedSheet.print { map := true, original := some "o.css" } = .ok ⟨_, _⟩ :=
    (Document.print_eq_ok_iff rfl).mpr ⟨by decide, by decide, rfl, rfl⟩
  obtain ⟨-, map, entries, mapped, said, origins, others⟩ :=
    Document.print_origins sourcedSheet _ _ rfl h
  exact ⟨_, map, entries, h, mapped, said, origins.trans (by decide), others _ rfl rfl⟩

end CssPrinter
