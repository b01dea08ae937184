import FormSchema.Text.Split
import Mathlib.Data.List.Forall2

/-!
# Lines that are written one after the other

A text that consists of lines, each with a line feed behind it, has exactly those lines.

In general a text spells lines: each of them ends with a line feed, or with a carriage return and a
line feed, and the last one need not end.  A carriage return before a line feed may therefore be
taken for a part of the line, or of its end.  The lines that are found are one way to spell the
text, and differ from any other way in carriage returns at the end of lines only.
-/

namespace FormSchema.Text

/-- A text that is found again as a line: nothing in it ends a line, and its last character is not
taken for a part of the line end. -/
structure IsLine (line : List Char) : Prop where
  unbroken : '\n' ∉ line
  unreturned : line.getLast? ≠ some '\r'

theorem splitOn_flatMap {written : List (List Char)} (areLines : ∀ line ∈ written, IsLine line) :
    (written.flatMap (· ++ ['\n'])).splitOn '\n' = written ++ [[]] := by
  induction written with
  | nil => rfl
  | cons line rest inductionHypothesis =>
      rw [List.flatMap_cons, List.append_assoc, List.singleton_append,
        List.splitOn_append_cons_self_of_not_mem (areLines line List.mem_cons_self).unbroken,
        inductionHypothesis fun other isLater => areLines other (List.mem_cons_of_mem _ isLater),
        List.cons_append]

/-- Lines with a line feed behind each of them are found again. -/
theorem lines_flatMap {written : List (List Char)} (areLines : ∀ line ∈ written, IsLine line) :
    lines (written.flatMap (· ++ ['\n'])) = written := by
  have unchanged : written.map withoutReturn = written := by
    refine (List.map_congr_left fun line isLine => ?_).trans (List.map_id written)
    rw [withoutReturn, if_neg (areLines line isLine).unreturned, id_eq]
  simp only [lines, splitOn_flatMap areLines, List.dropLast_concat, List.getLast?_concat, unchanged,
    List.append_nil]

/-! ## Texts that spell lines -/

/-- The lines can be read off the text, whatever ends they have. -/
inductive Spells : List Char → List (List Char) → Prop
  | nil : Spells [] []
  /-- The last line need not end. -/
  | last {line : List Char} (unbroken : '\n' ∉ line) (notEmpty : line ≠ []) : Spells line [line]
  | lineFeed {line rest : List Char} {lines : List (List Char)} (unbroken : '\n' ∉ line)
      (spells : Spells rest lines) : Spells (line ++ '\n' :: rest) (line :: lines)
  | returnLineFeed {line rest : List Char} {lines : List (List Char)} (unbroken : '\n' ∉ line)
      (spells : Spells rest lines) : Spells (line ++ '\r' :: '\n' :: rest) (line :: lines)

/-- Two lines that differ at most in a carriage return behind the first one. -/
def SameButReturn (found line : List Char) : Prop :=
  line = found ∨ line = found ++ ['\r']

theorem sameButReturn_withoutReturn (line : List Char) :
    SameButReturn (withoutReturn line) line := by
  rw [withoutReturn]
  split
  · rename_i isReturn
    obtain ⟨before, rfl⟩ := List.getLast?_eq_some_iff.mp isReturn
    rw [List.dropLast_concat]
    exact .inr rfl
  · exact .inl rfl

theorem withoutReturn_concat (line : List Char) : withoutReturn (line ++ ['\r']) = line := by
  rw [withoutReturn, List.getLast?_concat, if_pos rfl, List.dropLast_concat]

theorem lines_of_not_mem {line : List Char} (unbroken : '\n' ∉ line) (notEmpty : line ≠ []) :
    lines line = [line] := by
  obtain ⟨c, rest, rfl⟩ := List.exists_cons_of_ne_nil notEmpty
  rw [lines, List.splitOn_eq_singleton unbroken]
  rfl

theorem lines_append {line : List Char} (unbroken : '\n' ∉ line) (rest : List Char) :
    lines (line ++ '\n' :: rest) = withoutReturn line :: lines rest := by
  obtain ⟨piece, pieces, isRest⟩ := List.exists_cons_of_ne_nil (List.splitOn_ne_nil '\n' rest)
  simp only [lines, List.splitOn_append_cons_self_of_not_mem unbroken, isRest,
    List.dropLast_cons_cons, List.map_cons, List.getLast?_cons_cons, List.cons_append]

/-- However a text spells lines, the same lines are found, but for carriage returns. -/
theorem Spells.forall₂_lines {text : List Char} {spelled : List (List Char)}
    (spells : Spells text spelled) : List.Forall₂ SameButReturn (lines text) spelled := by
  induction spells with
  | nil => exact .nil
  | last unbroken notEmpty =>
      rw [lines_of_not_mem unbroken notEmpty]
      exact .cons (.inl rfl) .nil
  | lineFeed unbroken _ inductionHypothesis =>
      rw [lines_append unbroken]
      exact .cons (sameButReturn_withoutReturn _) inductionHypothesis
  | @returnLineFeed line rest _ unbroken _ inductionHypothesis =>
      have unbroken : '\n' ∉ line ++ ['\r'] := by simpa using unbroken
      have split : line ++ '\r' :: '\n' :: rest = (line ++ ['\r']) ++ '\n' :: rest := by simp
      rw [split, lines_append unbroken, withoutReturn_concat]
      exact .cons (.inl rfl) inductionHypothesis

/-- Every text spells the lines that are found in it. -/
theorem spells_lines (text : List Char) : Spells text (lines text) := by
  by_cases broken : '\n' ∈ text
  · obtain ⟨line, rest, isText, unbroken⟩ := List.eq_append_cons_of_mem broken
    have shorter : rest.length < text.length := by
      rw [isText, List.length_append, List.length_cons]
      omega
    have inductionHypothesis := spells_lines rest
    rw [isText, lines_append unbroken]
    obtain same | same := sameButReturn_withoutReturn line
    · rw [← same]
      exact .lineFeed unbroken inductionHypothesis
    · have isReturn : line ++ '\n' :: rest = withoutReturn line ++ '\r' :: '\n' :: rest := by
        rw [same, withoutReturn_concat, List.append_assoc]
        rfl
      rw [isReturn]
      refine .returnLineFeed (fun isInside => unbroken ?_) inductionHypothesis
      rw [same]
      exact List.mem_append_left _ isInside
  · by_cases isEmpty : text = []
    · rw [isEmpty]
      exact .nil
    · rw [lines_of_not_mem broken isEmpty]
      exact .last broken isEmpty
termination_by text.length

end FormSchema.Text
