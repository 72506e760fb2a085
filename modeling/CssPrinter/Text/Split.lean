/-!
# Splitting a text at a mark
-/

namespace CssPrinter

/-- The parts of a text between the places where `mark` stands. There is always at least one. -/
def splitAt (mark : Char) : List Char → List (List Char)
  | [] => [[]]
  | c :: rest =>
    if c = mark then [] :: splitAt mark rest
    else
      match splitAt mark rest with
      | [] => [[c]]
      | part :: parts => (c :: part) :: parts

theorem splitAt_of_not_mem {mark : Char} {s : List Char} (absent : mark ∉ s) :
    splitAt mark s = [s] := by
  induction s with
  | nil => rfl
  | cons c s ih =>
    rw [List.mem_cons, not_or] at absent
    rw [splitAt, if_neg (Ne.symm absent.1), ih absent.2]

theorem splitAt_ne_nil (mark : Char) (s : List Char) : splitAt mark s ≠ [] := by
  cases s with
  | nil => exact List.cons_ne_nil _ _
  | cons c s =>
    rw [splitAt]
    split
    · exact List.cons_ne_nil _ _
    · split <;> exact List.cons_ne_nil _ _

theorem splitAt_append (mark : Char) (s t : List Char) :
    splitAt mark (s ++ mark :: t) = splitAt mark s ++ splitAt mark t := by
  induction s with
  | nil => simp [splitAt]
  | cons c s ih =>
    rw [List.cons_append, splitAt, splitAt, ih]
    by_cases same : c = mark
    · simp [same]
    · rw [if_neg same, if_neg same]
      cases parts : splitAt mark s with
      | nil => exact absurd parts (splitAt_ne_nil mark s)
      | cons part parts => rfl

/-- Lines that each end in `mark` are split again. Nothing stands behind the last one. -/
theorem splitAt_flatMap {mark : Char} {lines : List (List Char)}
    (absent : ∀ line ∈ lines, mark ∉ line) :
    splitAt mark (lines.flatMap (· ++ [mark])) = lines ++ [[]] := by
  induction lines with
  | nil => rfl
  | cons line lines ih =>
    obtain ⟨first, others⟩ := List.forall_mem_cons.mp absent
    rw [List.flatMap_cons, List.append_assoc, List.singleton_append, splitAt_append,
      splitAt_of_not_mem first, ih others]
    rfl

theorem not_mem_of_mem_splitAt {mark : Char} {s part : List Char} (member : part ∈ splitAt mark s) :
    mark ∉ part := by
  induction s generalizing part with
  | nil =>
    obtain rfl := List.mem_singleton.mp member
    exact List.not_mem_nil
  | cons c s ih =>
    rw [splitAt] at member
    split at member
    · rcases List.mem_cons.mp member with rfl | member
      · exact List.not_mem_nil
      · exact ih member
    · rename_i other
      cases parts : splitAt mark s with
      | nil => exact absurd parts (splitAt_ne_nil mark s)
      | cons first rest =>
        rw [parts] at member ih
        rcases List.mem_cons.mp member with rfl | member
        · rw [List.mem_cons, not_or]
          exact ⟨Ne.symm other, ih List.mem_cons_self⟩
        · exact ih (List.mem_cons_of_mem _ member)

/-- The text before the first `mark`, and the text behind it if there is one. -/
def cutAt (mark : Char) : List Char → List Char × Option (List Char)
  | [] => ([], none)
  | c :: rest =>
    if c = mark then ([], some rest)
    else (c :: (cutAt mark rest).1, (cutAt mark rest).2)

theorem mem_of_mem_cutAt_snd {mark c : Char} {s rest : List Char}
    (cut : (cutAt mark s).2 = some rest) (member : c ∈ rest) : c ∈ s := by
  induction s with
  | nil => cases cut
  | cons d s ih =>
    rw [cutAt] at cut
    split at cut
    · obtain rfl := Option.some.inj cut
      exact List.mem_cons_of_mem _ member
    · exact List.mem_cons_of_mem _ (ih cut)

end CssPrinter
