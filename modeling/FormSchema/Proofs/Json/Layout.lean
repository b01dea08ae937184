import FormSchema.Decoding.Cursor
import FormSchema.Json.Printer
import FormSchema.Proofs.Json.Pointer
import Mathlib.Tactic.SplitIfs

/-!
# Layouts of written values

The two ways of writing a value differ in the blanks between its parts only.  A `Layout` says what
those blanks are, so what holds of every layout holds of the compact and of the indented form.
-/

namespace FormSchema

/-- The blanks between the parts of a written value. -/
structure Layout where
  /-- What stands in front of items and members on a level, and in front of the closing character
  of a container on it. -/
  gap : Nat → List Char
  /-- What stands behind a colon. -/
  space : List Char
  gapBlank : ∀ level, ∀ c ∈ gap level, Reader.isBlank c = true
  spaceBlank : ∀ c ∈ space, Reader.isBlank c = true

namespace Layout

/-- No blanks at all. -/
def compact : Layout where
  gap _ := []
  space := []
  gapBlank := nofun
  spaceBlank := nofun

/-- Every item and every member on a line of its own. -/
def indented : Layout where
  gap := Json.newLine
  space := [' ']
  gapBlank := by
    intro level c isGap
    obtain rfl | isSpace := List.mem_cons.mp isGap
    · rfl
    · rw [List.eq_of_mem_replicate isSpace]
      rfl
  spaceBlank := by
    intro c isSpace
    rw [List.mem_singleton.mp isSpace]
    rfl

variable (layout : Layout)

mutual

/-- The characters of a value that stands on a level. -/
def chars (level : Nat) : Json → List Char
  | .array [] => ['[', ']']
  | .array (first :: rest) =>
      '[' :: (layout.gap (level + 1) ++ chars (level + 1) first ++ items (level + 1) rest ++
        layout.gap level ++ [']'])
  | .object [] => ['\x7b', '\x7d']
  | .object ((name, value) :: rest) =>
      '\x7b' :: (layout.gap (level + 1) ++ Json.quoted name ++ ':' :: layout.space ++
        chars (level + 1) value ++ members (level + 1) rest ++ layout.gap level ++ ['\x7d'])
  | scalar => Json.scalarText scalar

/-- Each item behind a comma. -/
def items (level : Nat) : List Json → List Char
  | [] => []
  | item :: rest => ',' :: (layout.gap level ++ chars level item ++ items level rest)

/-- Each member behind a comma. -/
def members (level : Nat) : List (String × Json) → List Char
  | [] => []
  | (name, value) :: rest =>
      ',' :: (layout.gap level ++ Json.quoted name ++ ':' :: layout.space ++ chars level value ++
        members level rest)

end

end Layout

namespace Json

mutual

theorem compactChars_eq (level : Nat) (value : Json) :
    value.compactChars = Layout.compact.chars level value := by
  match value with
  | .null | .bool _ | .number _ | .string _ | .array [] | .object [] =>
      rw [compactChars, Layout.chars] <;> exact nofun
  | .array (first :: rest) =>
      rw [compactChars, Layout.chars, compactChars_eq (level + 1) first,
        compactItems_eq (level + 1) rest]
      simp [Layout.compact]
  | .object ((name, inner) :: rest) =>
      rw [compactChars, Layout.chars, compactChars_eq (level + 1) inner,
        compactMembers_eq (level + 1) rest]
      simp [Layout.compact]

theorem compactItems_eq (level : Nat) (items : List Json) :
    compactItems items = Layout.compact.items level items := by
  match items with
  | [] => rw [compactItems, Layout.items]
  | item :: rest =>
      rw [compactItems, Layout.items, compactChars_eq level item, compactItems_eq level rest]
      simp [Layout.compact]

theorem compactMembers_eq (level : Nat) (members : List (String × Json)) :
    compactMembers members = Layout.compact.members level members := by
  match members with
  | [] => rw [compactMembers, Layout.members]
  | (name, inner) :: rest =>
      rw [compactMembers, Layout.members, compactChars_eq level inner,
        compactMembers_eq level rest]
      simp [Layout.compact]

end

mutual

theorem prettyChars_eq (level : Nat) (value : Json) :
    value.prettyChars level = Layout.indented.chars level value := by
  match value with
  | .null | .bool _ | .number _ | .string _ | .array [] | .object [] =>
      rw [prettyChars, Layout.chars] <;> exact nofun
  | .array (first :: rest) =>
      rw [prettyChars, Layout.chars, prettyChars_eq (level + 1) first,
        prettyItems_eq (level + 1) rest]
      simp [Layout.indented]
  | .object ((name, inner) :: rest) =>
      rw [prettyChars, Layout.chars, prettyChars_eq (level + 1) inner,
        prettyMembers_eq (level + 1) rest]
      simp [Layout.indented]

theorem prettyItems_eq (level : Nat) (items : List Json) :
    prettyItems level items = Layout.indented.items level items := by
  match items with
  | [] => rw [prettyItems, Layout.items]
  | item :: rest =>
      rw [prettyItems, Layout.items, prettyChars_eq level item, prettyItems_eq level rest]
      simp [Layout.indented]

theorem prettyMembers_eq (level : Nat) (members : List (String × Json)) :
    prettyMembers level members = Layout.indented.members level members := by
  match members with
  | [] => rw [prettyMembers, Layout.members]
  | (name, inner) :: rest =>
      rw [prettyMembers, Layout.members, prettyChars_eq level inner,
        prettyMembers_eq level rest]
      simp [Layout.indented]

end

end Json

/-! ## No control characters -/

/-- There is no control character below the blank, and so no end of a line. -/
def Printable (text : List Char) : Prop :=
  ∀ c ∈ text, 32 ≤ c.toNat

section Printable

variable {c : Char} {text more : List Char}

@[simp]
theorem printable_nil : Printable [] :=
  nofun

@[simp]
theorem printable_cons : Printable (c :: text) ↔ 32 ≤ c.toNat ∧ Printable text :=
  List.forall_mem_cons

@[simp]
theorem printable_append : Printable (text ++ more) ↔ Printable text ∧ Printable more :=
  List.forall_mem_append

@[simp]
theorem printable_replicate {count : Nat} :
    Printable (List.replicate count c) ↔ count = 0 ∨ 32 ≤ c.toNat := by
  by_cases isZero : count = 0 <;> simp [Printable, List.mem_replicate, isZero]

theorem Printable.of_subset (isPrintable : Printable text) (subset : ∀ c ∈ more, c ∈ text) :
    Printable more :=
  fun c isInside => isPrintable c (subset c isInside)

@[simp]
theorem printable_toDigits (number : Nat) : Printable (Nat.toDigits 10 number) := by
  intro c isInside
  have isDigit := Nat.isDigit_of_mem_toDigits (by decide) (by decide) isInside
  rw [Char.isDigit, Bool.and_eq_true, decide_eq_true_iff] at isDigit
  exact Nat.le_trans (by decide) (UInt32.le_iff_toNat_le.mp isDigit.1)

end Printable

/-- A numeral is printable if its digits are. -/
theorem Numeral.printable_chars {numeral : Numeral} (whole : Printable numeral.whole)
    (fraction : ∀ digits, numeral.fraction = some digits → Printable digits)
    (exponent : ∀ exponent, numeral.exponent = some exponent → Printable exponent.digits) :
    Printable numeral.chars := by
  obtain ⟨negative, digits, fraction_, exponent_⟩ := numeral
  simp only [chars, printable_append]
  refine ⟨⟨⟨?sign, whole⟩, ?fraction⟩, ?exponent⟩
  case sign => cases negative <;> simp
  case fraction =>
    cases fraction_ with
    | none => exact printable_nil
    | some digits => simpa using fraction digits rfl
  case exponent =>
    cases exponent_ with
    | none => exact printable_nil
    | some exponent_ =>
        simp only [Exponent.chars, printable_cons]
        exact ⟨by decide, by cases exponent_.negative <;> decide, exponent exponent_ rfl⟩

theorem Binary64.Decimal.printable_numeral (negative : Bool) (decimal : Decimal) :
    Printable (decimal.numeral negative).chars := by
  have digits : Printable (toString decimal.digits).toList := by simp
  unfold Decimal.numeral
  split
  · split
    · refine Numeral.printable_chars (by simp) ?_ nofun
      rintro _ ⟨⟩
      simp
    · have padded (count : Nat) :
          Printable ((toString decimal.digits).toList ++ List.replicate count '0') := by simp
      refine Numeral.printable_chars ((padded _).of_subset fun c => List.mem_of_mem_take) ?_ nofun
      rintro _ ⟨⟩
      split
      · simp
      · exact (padded _).of_subset fun c => List.mem_of_mem_drop
  · refine Numeral.printable_chars (digits.of_subset fun c => List.mem_of_mem_take) ?_ ?_
    · intro fraction isFraction
      dsimp only at isFraction
      split at isFraction
      · cases isFraction
      · cases isFraction
        exact digits.of_subset fun c => List.mem_of_mem_drop
    · rintro _ ⟨⟩
      simp

theorem Number.printable_text (number : Number) : Printable number.text.toList := by
  match number with
  | .integer (.ofNat value) =>
      have written : (Number.integer (.ofNat value)).text = toString value := rfl
      rw [written]
      simp
  | .integer (.negSucc value) =>
      have written : (Number.integer (.negSucc value)).text = "-" ++ toString (value + 1) := rfl
      rw [written]
      simp
  | .double value =>
      rw [Number.text, Binary64.text, String.toList_ofList, Binary64.numeral]
      split
      · refine Numeral.printable_chars (by simp) ?_ nofun
        rintro _ ⟨⟩
        simp
      · exact Binary64.Decimal.printable_numeral _ _

namespace Json

theorem printable_escapedChar (c : Char) : Printable (escapedChar c) := by
  have digit : ∀ value < 16, 32 ≤ (hexDigit value).toNat := by decide
  unfold escapedChar
  split_ifs with _ _ _ _ _ _ _ isControl
  iterate 7 · simp
  · have high := digit (c.toNat / 16) (by omega)
    have low := digit (c.toNat % 16) (by omega)
    simp [high, low]
  · simpa using isControl

@[simp]
theorem printable_quoted (value : String) : Printable (quoted value) := by
  have inside : Printable (value.toList.flatMap escapedChar) := by
    intro c isInside
    obtain ⟨other, -, isEscaped⟩ := List.mem_flatMap.mp isInside
    exact printable_escapedChar other c isEscaped
  simp [quoted, inside]

theorem printable_scalarText (value : Json) : Printable (scalarText value) := by
  match value with
  | .null | .bool true | .bool false | .array _ | .object _ => simp [scalarText]
  | .number value => exact value.printable_text
  | .string value => exact printable_quoted value

mutual

/-- The compact form has no control character. -/
theorem printable_compactChars (value : Json) : Printable value.compactChars := by
  match value with
  | .null | .bool _ | .number _ | .string _ =>
      rw [compactChars]
      · exact printable_scalarText _
      all_goals exact nofun
  | .array [] | .object [] => simp [compactChars]
  | .array (first :: rest) =>
      simp [compactChars, printable_compactChars first, printable_compactItems rest]
  | .object ((name, inner) :: rest) =>
      simp [compactChars, printable_compactChars inner, printable_compactMembers rest]

theorem printable_compactItems (items : List Json) : Printable (compactItems items) := by
  match items with
  | [] => exact printable_nil
  | item :: rest =>
      simp [compactItems, printable_compactChars item, printable_compactItems rest]

theorem printable_compactMembers (members : List (String × Json)) :
    Printable (compactMembers members) := by
  match members with
  | [] => exact printable_nil
  | (name, inner) :: rest =>
      simp [compactMembers, printable_compactChars inner, printable_compactMembers rest]

end

end Json

end FormSchema
