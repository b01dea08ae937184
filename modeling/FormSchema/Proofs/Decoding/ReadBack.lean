import FormSchema.Proofs.Decoding.Skipping
import FormSchema.Proofs.Json.Layout

/-!
# What is written can be read

A value that is written in some layout and read again is the same value.  The theorem is about
values whose numbers are integers that fit a machine word, and whose containers are nested no
deeper than readers allow.

A written value is read from the middle of a text.  Whatever follows it must not go on with a
number, since the end of a number is only found by looking at the next character.
-/

namespace FormSchema

/-- Values that are written exactly: integers that fit a machine word are their only numbers, and
containers are nested at most so many levels deep. -/
inductive Json.Legible : Nat → Json → Prop
  | null {levels : Nat} : Legible levels .null
  | bool {levels : Nat} (value : Bool) : Legible levels (.bool value)
  | integer {levels : Nat} {value : Int} (least : -Nat.pow 2 63 ≤ value)
      (greatest : value ≤ Numeral.wordMax) : Legible levels (.number (.integer value))
  | string {levels : Nat} (value : String) : Legible levels (.string value)
  | array {levels : Nat} {items : List Json} (each : ∀ item ∈ items, Legible levels item) :
      Legible (levels + 1) (.array items)
  | object {levels : Nat} {members : List (String × Json)}
      (each : ∀ name value, (name, value) ∈ members → Legible levels value) :
      Legible (levels + 1) (.object members)

theorem Json.legible_ofStrings {levels : Nat} (texts : List String) :
    (Json.ofStrings texts).Legible (levels + 1) := by
  refine .array fun item isItem => ?_
  obtain ⟨text, -, rfl⟩ := List.mem_map.mp isItem
  exact .string text

namespace Reader

variable {α : Type}

/-- Can the character stand inside a number? -/
def continuesNumber (c : Char) : Bool :=
  c.isDigit || c = '.' || c = 'e' || c = 'E'

/-- The text does not go on with a number. -/
def EndsNumber (rest : List Char) : Prop :=
  ∀ c ∈ rest.head?, continuesNumber c = false

/-- Wherever the text stands, it is read with the given result, and reading stops behind it. -/
def Reads (reader : Reader α) (text : List Char) (result : α) : Prop :=
  ∀ rest position, EndsNumber rest →
    ∃ reached, reader ⟨text ++ rest, position⟩ = .ok (result, ⟨rest, reached⟩)

/-! ## Blanks -/

section Blanks

variable {blanks rest : List Char} {c : Char}

theorem spanFrom_append {test : Char → Bool} {text rest : List Char}
    (passes : ∀ c ∈ text, test c = true) (stops : ∀ c ∈ rest.head?, test c = false)
    (position : Position) :
    Cursor.spanFrom test (text ++ rest) position =
      (text, ⟨rest, StringText.endOf position text⟩) := by
  induction text generalizing position with
  | nil =>
      cases rest with
      | nil => rfl
      | cons c rest =>
          rw [List.nil_append, Cursor.spanFrom, stops c rfl]
          rfl
  | cons c text inductionHypothesis =>
      rw [List.cons_append, Cursor.spanFrom, passes c List.mem_cons_self, if_pos rfl,
        inductionHypothesis fun other isLater => passes other (List.mem_cons_of_mem _ isLater)]
      rfl

theorem afterBlanks_append (areBlank : ∀ c ∈ blanks, isBlank c = true)
    (notBlank : isBlank c = false) (rest : List Char) (position : Position) :
    Cursor.afterBlanks ⟨blanks ++ c :: rest, position⟩ =
      ⟨c :: rest, StringText.endOf position blanks⟩ := by
  have stops : ∀ other ∈ (c :: rest).head?, isBlank other = false := by
    rintro _ ⟨⟩
    exact notBlank
  exact congrArg Prod.snd (spanFrom_append areBlank stops position)

theorem afterBlanks_cons (notBlank : isBlank c = false) (position : Position) :
    Cursor.afterBlanks ⟨c :: rest, position⟩ = ⟨c :: rest, position⟩ :=
  afterBlanks_append (List.forall_mem_nil _) notBlank rest position

theorem next_cons (position : Position) :
    Cursor.next ⟨c :: rest, position⟩ = ⟨rest, position.after c⟩ :=
  rfl

end Blanks

/-! ## Strings -/

section Strings

open StringText Json

theorem hexDigit?_hexDigit : ∀ value < 16, hexDigit? (hexDigit value) = some value := by
  decide

/-- The escape of a control character stands for its number. -/
theorem hexNumber?_hexDigit {value : Nat} (isControl : value < 32) :
    hexNumber? '0' '0' (hexDigit (value / 16)) (hexDigit (value % 16)) = some value := by
  have zero : hexDigit? '0' = some 0 := rfl
  have high := hexDigit?_hexDigit (value / 16) (by omega)
  have low := hexDigit?_hexDigit (value % 16) (by omega)
  simp only [hexNumber?, zero, high, low, Option.bind_eq_bind, Option.bind_some, Option.pure_def,
    Option.some.injEq]
  omega

/-- A character is read from its written form. -/
theorem quoted_escapedChar {c : Char} {text characters rest : List Char}
    (inside : ∀ position, ∃ reached, Quoted text position characters ⟨rest, reached⟩)
    (position : Position) :
    ∃ reached, Quoted (escapedChar c ++ text) position (c :: characters) ⟨rest, reached⟩ := by
  obtain ⟨behindSimple, isSimple⟩ := inside (columns position 2)
  unfold escapedChar
  split_ifs with isQuote isBackslash isBackspace isFeed isLine isReturn isTab isControl
  iterate 7
    · subst c
      exact ⟨behindSimple, .simple rfl isSimple⟩
  · obtain ⟨reached, isQuoted⟩ := inside (columns position 6)
    have notLow : ¬ isLowSurrogate c.toNat = true := by
      simp only [isLowSurrogate, Bool.and_eq_true, decide_eq_true_iff]
      omega
    have notHigh : ¬ isHighSurrogate c.toNat = true := by
      simp only [isHighSurrogate, Bool.and_eq_true, decide_eq_true_iff]
      omega
    have isUnit := Quoted.unit (hexNumber?_hexDigit isControl) notLow notHigh isQuoted
    rw [Char.ofNat_toNat] at isUnit
    exact ⟨reached, isUnit⟩
  · obtain ⟨reached, isQuoted⟩ := inside (position.after c)
    exact ⟨reached, .plain isQuote isBackslash isControl isQuoted⟩

theorem quoted_flatMap_escapedChar (characters rest : List Char) (position : Position) :
    ∃ reached, Quoted (characters.flatMap escapedChar ++ '"' :: rest) position characters
      ⟨rest, reached⟩ := by
  induction characters generalizing position with
  | nil => exact ⟨_, .close⟩
  | cons c characters inductionHypothesis =>
      rw [List.flatMap_cons, List.append_assoc]
      exact quoted_escapedChar inductionHypothesis position

/-- A string is read from its written form, behind the opening quote. -/
theorem string_quoted (value : String) (rest : List Char) (position : Position) :
    ∃ reached, string ⟨value.toList.flatMap escapedChar ++ '"' :: rest, position⟩ =
      .ok (value, ⟨rest, reached⟩) := by
  obtain ⟨reached, isQuoted⟩ := quoted_flatMap_escapedChar value.toList rest position
  refine ⟨reached, Attempt.bind_eq_ok_iff.mpr ⟨_, body_of_quoted isQuoted [], ?_⟩⟩
  exact congrArg (fun text => Except.ok (text, _)) String.ofList_toList

end Strings

/-! ## Integers -/

section Integers

variable {digits rest : List Char}

theorem gather_digits {significand : Nat}
    (fits : digits.foldl (fun value c => 10 * value + digitValue c) significand ≤
      Numeral.wordMax) :
    Numeral.gather significand digits =
      (digits.foldl (fun value c => 10 * value + digitValue c) significand, 0) := by
  induction digits generalizing significand with
  | nil => rfl
  | cons c digits inductionHypothesis =>
      have grows (text : List Char) (start : Nat) :
          start ≤ text.foldl (fun value c => 10 * value + digitValue c) start := by
        induction text generalizing start with
        | nil => exact Nat.le_refl _
        | cons c text inductionHypothesis =>
            exact Nat.le_trans (by omega) (inductionHypothesis (10 * start + digitValue c))
      rw [List.foldl_cons] at fits ⊢
      rw [Numeral.gather, if_pos (Nat.le_trans (grows digits _) fits), inductionHypothesis fits]

/-- The digits of an integer have its value if they fit a machine word. -/
theorem value?_toDigits (negative : Bool) {value : Nat} (fits : value ≤ Numeral.wordMax) :
    (Numeral.mk negative (Nat.toDigits 10 value) none none).value? =
      Numeral.wholeValue negative value := by
  have gathered : Numeral.gather 0 (Nat.toDigits 10 value) = (value, 0) := by
    have isValue := Pointer.digitsValue_toDigits value
    rw [digitsValue] at isValue
    rw [gather_digits (isValue.symm ▸ fits), isValue]
  simp [Numeral.value?, Numeral.significand, gathered]

/-- The digits of a number are read in full. -/
theorem wholeDigits_toDigits (value : Nat) (ends : EndsNumber rest) (position : Position) :
    ∃ reached, wholeDigits ⟨Nat.toDigits 10 value ++ rest, position⟩ =
      .ok (Nat.toDigits 10 value, ⟨rest, reached⟩) := by
  have notDigit : ∀ c ∈ rest.head?, c.isDigit = false := by
    intro c isNext
    have stops := ends c isNext
    simp only [continuesNumber, Bool.or_eq_false_iff] at stops
    exact stops.1.1.1
  obtain rfl | positive := Nat.eq_zero_or_pos value
  · have isZero : Nat.toDigits 10 0 = ['0'] := rfl
    rw [isZero, wholeDigits, peek_bind]
    refine ⟨position.after '0', ?_⟩
    cases rest with
    | nil => rfl
    | cons c rest =>
        simp only [List.cons_append, List.nil_append, List.head?_cons, advance_bind, peek_bind,
          next_cons, notDigit c rfl]
        rfl
  · obtain ⟨first, others, split, notZero⟩ := Pointer.toDigits_head_ne_zero positive
    have areDigits : ∀ c ∈ Nat.toDigits 10 value, c.isDigit = true := fun c isDigit =>
      Nat.isDigit_of_mem_toDigits (by decide) (by decide) isDigit
    have isFirst : (Nat.toDigits 10 value ++ rest).head? = some first := by
      rw [split, List.cons_append, List.head?_cons]
    have isDigit : first.isDigit = true := areDigits first (split ▸ List.mem_cons_self)
    refine ⟨StringText.endOf position (Nat.toDigits 10 value), ?_⟩
    rw [wholeDigits, peek_bind]
    generalize isNext : (Cursor.mk (Nat.toDigits 10 value ++ rest) position).rest.head? = next
    have isFirst := isFirst.symm.trans isNext
    split
    · cases isFirst
    · exact absurd (Option.some.inj isFirst) notZero
    · cases isFirst
      rw [if_pos isDigit]
      exact congrArg Except.ok (spanFrom_append areDigits notDigit position)

/-- The digits of an integer are read as its value, with the sign that was read before. -/
theorem number_toDigits (negative : Bool) {value : Nat} {number : Number}
    (fits : value ≤ Numeral.wordMax) (isValue : Numeral.wholeValue negative value = some number) :
    Reads (Reader.number negative) (Nat.toDigits 10 value) number := by
  intro rest position ends
  obtain ⟨reached, areRead⟩ := wholeDigits_toDigits value ends position
  refine ⟨reached, bind_eq_ok_iff.mpr ⟨_, _, areRead, ?_⟩⟩
  have noFraction : fractionDigits ⟨rest, reached⟩ = .ok (none, ⟨rest, reached⟩) := by
    rw [fractionDigits, peek_bind]
    generalize isNext : (Cursor.mk rest reached).rest.head? = next
    split
    · exact absurd (ends '.' isNext) (by decide)
    · rfl
  have noExponent : exponent ⟨rest, reached⟩ = .ok (none, ⟨rest, reached⟩) := by
    rw [exponent, peek_bind]
    split
    · rename_i isMark
      obtain isMark | isMark := isMark
      · exact absurd (ends 'e' isMark) (by decide)
      · exact absurd (ends 'E' isMark) (by decide)
    · rfl
  refine bind_eq_ok_iff.mpr ⟨_, _, noFraction, bind_eq_ok_iff.mpr ⟨_, _, noExponent, ?_⟩⟩
  simp only [Option.map_none, value?_toDigits negative fits, isValue]
  rfl

end Integers

/-! ## What follows a number -/

section EndsNumber

variable {c : Char} {blanks rest : List Char}

theorem endsNumber_nil : EndsNumber [] :=
  nofun

theorem endsNumber_cons (stops : continuesNumber c = false) : EndsNumber (c :: rest) := by
  rintro _ ⟨⟩
  exact stops

theorem continuesNumber_of_isBlank (blank : isBlank c = true) : continuesNumber c = false := by
  simp only [isBlank, Bool.or_eq_true, decide_eq_true_iff] at blank
  obtain ((rfl | rfl) | rfl) | rfl := blank <;> rfl

theorem EndsNumber.blanks_append (ends : EndsNumber rest)
    (areBlank : ∀ c ∈ blanks, isBlank c = true) : EndsNumber (blanks ++ rest) := by
  cases blanks with
  | nil => exact ends
  | cons c blanks =>
      exact endsNumber_cons (continuesNumber_of_isBlank (areBlank c List.mem_cons_self))

end EndsNumber

/-! ## Scalars -/

section Scalars

variable {levels : Nat} {c : Char} {text : List Char} {value : Json}

/-- The first character of a scalar says how to read it. -/
theorem reads_transcript_of_scalar (isFirst : text.head? = some c) (notBlank : isBlank c = false)
    (notBracket : c ≠ '[') (notBrace : c ≠ '\x7b') (isRead : Reads (scalar c) text value) :
    Reads (transcript levels) text value := by
  intro rest position ends
  obtain ⟨text, rfl⟩ := List.head?_eq_some_iff.mp isFirst
  obtain ⟨reached, isRead⟩ := isRead rest position ends
  have valueRead (listReader objectReader : Reader Json) :
      valueWith listReader objectReader ⟨c :: text ++ rest, position⟩ =
        .ok (value, ⟨rest, reached⟩) := by
    refine valueWith_eq_ok_iff.mpr ⟨c, ?_⟩
    rw [List.cons_append, afterBlanks_cons notBlank, if_neg notBracket, if_neg notBrace]
    exact ⟨rfl, isRead⟩
  refine ⟨reached, ?_⟩
  cases levels <;> exact valueRead _ _

theorem quoted_append (value : String) (rest : List Char) :
    Json.quoted value ++ rest =
      '"' :: (value.toList.flatMap Json.escapedChar ++ '"' :: rest) := by
  rw [Json.quoted, List.append_assoc, List.cons_append, List.singleton_append]

theorem reads_string (value : String) :
    Reads (transcript levels) (Json.quoted value) (.string value) := by
  refine reads_transcript_of_scalar (c := '"') rfl rfl (by decide) (by decide) ?_
  intro rest position _
  obtain ⟨reached, isString⟩ := string_quoted value rest (position.after '"')
  refine ⟨reached, ?_⟩
  rw [quoted_append]
  exact bind_eq_ok_iff.mpr ⟨_, _, rfl, bind_eq_ok_iff.mpr ⟨_, _, isString, rfl⟩⟩

/-- A character that can stand inside a number is no blank. -/
theorem isBlank_of_continuesNumber {c : Char} (continues : continuesNumber c = true) :
    isBlank c = false := by
  refine Bool.eq_false_iff.mpr fun blank => ?_
  cases (continuesNumber_of_isBlank blank).symm.trans continues

theorem exists_digits (value : Nat) :
    ∃ first others, (toString value).toList = first :: others ∧ first.isDigit = true := by
  obtain ⟨first, others, split⟩ :=
    List.exists_cons_of_ne_nil (Nat.toDigits_ne_nil (n := value) (b := 10))
  refine ⟨first, others, ?_, ?_⟩
  · rw [Nat.toString_eq_ofList_toDigits, String.toList_ofList, split]
  · exact Nat.isDigit_of_mem_toDigits (by decide) (by decide) (split ▸ List.mem_cons_self)

theorem reads_natural {value : Nat} (fits : value ≤ Numeral.wordMax) :
    Reads (transcript levels) (toString value).toList (.ofNat value) := by
  obtain ⟨first, others, split, isDigit⟩ := exists_digits value
  have notBlank := isBlank_of_continuesNumber (c := first) (by rw [continuesNumber, isDigit]; rfl)
  have isNot {c : Char} (notDigit : c.isDigit = false) : first ≠ c := by
    rintro rfl
    cases isDigit.symm.trans notDigit
  refine reads_transcript_of_scalar (by rw [split]; rfl) notBlank (isNot rfl) (isNot rfl) ?_
  intro rest position ends
  obtain ⟨reached, isRead⟩ := number_toDigits false fits rfl rest position ends
  refine ⟨reached, ?_⟩
  rw [Nat.toString_eq_ofList_toDigits, String.toList_ofList, scalar, if_neg (isNot rfl),
    if_neg (isNot rfl), if_neg (isNot rfl), if_neg (isNot rfl), if_pos isDigit]
  exact bind_eq_ok_iff.mpr ⟨_, _, isRead, rfl⟩

theorem reads_negative {value : Nat} (fits : value + 1 ≤ Nat.pow 2 63) :
    Reads (transcript levels) ('-' :: (toString (value + 1)).toList)
      (.number (.integer (.negSucc value))) := by
  refine reads_transcript_of_scalar (c := '-') rfl rfl (by decide) (by decide) ?_
  intro rest position ends
  have isValue : Numeral.wholeValue true (value + 1) = some (.integer (.negSucc value)) := by
    rw [Numeral.wholeValue, if_pos rfl, if_neg (by omega)]
    rfl
  have inWord : value + 1 ≤ Numeral.wordMax := Nat.le_trans fits (by decide)
  obtain ⟨reached, isRead⟩ := number_toDigits true inWord isValue rest (position.after '-') ends
  refine ⟨reached, ?_⟩
  rw [Nat.toString_eq_ofList_toDigits, String.toList_ofList]
  exact bind_eq_ok_iff.mpr ⟨_, _, rfl, bind_eq_ok_iff.mpr ⟨_, _, isRead, rfl⟩⟩

end Scalars

/-! ## Lists and objects -/

section Containers

variable {levels : Nat} {cursor : Cursor} {c : Char} {tail : List Char}

/-- The first item stands behind blanks. -/
theorem nextItem_first (cursor : Cursor) (isNext : cursor.afterBlanks.rest.head? = some c)
    (notClosing : c ≠ ']') :
    nextItem true cursor = .ok (true, cursor.afterBlanks) := by
  rw [nextItem, skipBlanks_bind, peek_bind]
  generalize isHead : cursor.afterBlanks.rest.head? = next
  have isNext := isNext.symm.trans isHead
  simp only [if_true]
  split
  · cases isNext
  · exact absurd (Option.some.inj isNext) notClosing
  · rfl

/-- The other items stand behind a comma. -/
theorem nextItem_comma (cursor : Cursor) (isComma : cursor.afterBlanks.rest.head? = some ',')
    (isNext : cursor.afterBlanks.next.afterBlanks.rest.head? = some c) (notClosing : c ≠ ']') :
    nextItem false cursor = .ok (true, cursor.afterBlanks.next.afterBlanks) := by
  rw [nextItem, skipBlanks_bind, peek_bind]
  generalize isHead : cursor.afterBlanks.rest.head? = next
  have isComma := isComma.symm.trans isHead
  simp only [Bool.false_eq_true, if_false]
  split
  · cases isComma
  · exact absurd (Option.some.inj isComma) (by decide)
  · cases isComma
    rw [if_pos rfl, advance_bind, skipBlanks_bind, peek_bind]
    generalize isHead : cursor.afterBlanks.next.afterBlanks.rest.head? = next
    have isNext := isNext.symm.trans isHead
    split
    · cases isNext
    · exact absurd (Option.some.inj isNext) notClosing
    · rfl

/-- There is no other item in front of the closing bracket. -/
theorem nextItem_closing (first : Bool) (cursor : Cursor)
    (isNext : cursor.afterBlanks.rest.head? = some ']') :
    nextItem first cursor = .ok (false, cursor.afterBlanks) := by
  rw [nextItem, skipBlanks_bind, peek_bind, isNext]
  rfl

theorem nextMember_first (cursor : Cursor) (isNext : cursor.afterBlanks.rest.head? = some '"') :
    nextMember true cursor = .ok (true, cursor.afterBlanks) := by
  rw [nextMember, skipBlanks_bind, peek_bind, isNext]
  rfl

theorem nextMember_comma (cursor : Cursor) (isComma : cursor.afterBlanks.rest.head? = some ',')
    (isNext : cursor.afterBlanks.next.afterBlanks.rest.head? = some '"') :
    nextMember false cursor = .ok (true, cursor.afterBlanks.next.afterBlanks) := by
  rw [nextMember, skipBlanks_bind, peek_bind]
  generalize isHead : cursor.afterBlanks.rest.head? = next
  have isComma := isComma.symm.trans isHead
  simp only [Bool.false_eq_true, if_false]
  split
  · cases isComma
  · exact absurd (Option.some.inj isComma) (by decide)
  · cases isComma
    rw [if_pos rfl, advance_bind, skipBlanks_bind, peek_bind, isNext]
    rfl

theorem nextMember_closing (first : Bool) (cursor : Cursor)
    (isNext : cursor.afterBlanks.rest.head? = some '\x7d') :
    nextMember first cursor = .ok (false, cursor.afterBlanks) := by
  rw [nextMember, skipBlanks_bind, peek_bind, isNext]
  rfl

/-- A value that is read from its written form, which shows in its first character that it is
there. -/
structure Writes (levels : Nat) (text : List Char) (value : Json) : Prop where
  begins : ∃ c, text.head? = some c ∧ isBlank c = false ∧ c ≠ ']'
  reads : Reads (transcript levels) text value

/-- What stands in front of an item or a member: blanks, and a comma unless it is the first. -/
def lead (first : Bool) (blanks : List Char) : List Char :=
  if first then blanks else ',' :: blanks

section Lead

variable {first : Bool} {blanks text rest : List Char} {levels : Nat} {value : Json}

theorem nextItem_lead (first : Bool) (areBlank : ∀ c ∈ blanks, isBlank c = true)
    (written : Writes levels text value) (rest : List Char) (position : Position) :
    ∃ reached, nextItem first ⟨lead first blanks ++ (text ++ rest), position⟩ =
      .ok (true, ⟨text ++ rest, reached⟩) := by
  obtain ⟨c, isFirst, notBlank, notClosing⟩ := written.begins
  obtain ⟨text, rfl⟩ := List.head?_eq_some_iff.mp isFirst
  have behind := afterBlanks_append areBlank notBlank (text ++ rest)
  cases first with
  | true =>
      have isNext := nextItem_first ⟨blanks ++ c :: (text ++ rest), position⟩
        (by rw [behind]; rfl) notClosing
      exact ⟨_, isNext.trans (by rw [behind]; rfl)⟩
  | false =>
      have comma : isBlank ',' = false := rfl
      have isNext := nextItem_comma ⟨',' :: (blanks ++ c :: (text ++ rest)), position⟩
        (by rw [afterBlanks_cons comma]; rfl)
        (by rw [afterBlanks_cons comma, next_cons, behind]; rfl) notClosing
      exact ⟨_, isNext.trans (by rw [afterBlanks_cons comma, next_cons, behind]; rfl)⟩

theorem nextName_lead (first : Bool) (areBlank : ∀ c ∈ blanks, isBlank c = true) (name : String)
    (rest : List Char) (position : Position) :
    ∃ reached, nextName first ⟨lead first blanks ++ (Json.quoted name ++ rest), position⟩ =
      .ok (some name, ⟨rest, reached⟩) := by
  rw [quoted_append]
  generalize isText : name.toList.flatMap Json.escapedChar ++ '"' :: rest = text
  have isQuote : ∃ opening, nextMember first ⟨lead first blanks ++ '"' :: text, position⟩ =
      .ok (true, ⟨'"' :: text, opening⟩) := by
    have behind := afterBlanks_append areBlank (rfl : isBlank '"' = false) text
    cases first with
    | true =>
        have isNext := nextMember_first ⟨blanks ++ '"' :: text, position⟩
          (by rw [behind]; rfl)
        exact ⟨_, isNext.trans (by rw [behind])⟩
    | false =>
        have comma : isBlank ',' = false := rfl
        have isNext := nextMember_comma ⟨',' :: (blanks ++ '"' :: text), position⟩
          (by rw [afterBlanks_cons comma]; rfl)
          (by rw [afterBlanks_cons comma, next_cons, behind]; rfl)
        exact ⟨_, isNext.trans (by rw [afterBlanks_cons comma, next_cons, behind])⟩
  obtain ⟨opening, isQuote⟩ := isQuote
  obtain ⟨reached, isString⟩ := string_quoted name rest (opening.after '"')
  refine ⟨reached, under_eq_ok_iff.mpr (bind_eq_ok_iff.mpr ⟨_, _, isQuote, ?_⟩)⟩
  rw [if_pos rfl, advance_bind, next_cons, ← isText]
  exact bind_eq_ok_iff.mpr ⟨_, _, isString, rfl⟩

theorem colon_cons (position : Position) :
    colon ⟨':' :: rest, position⟩ = .ok ((), ⟨rest, position.after ':'⟩) := by
  rw [colon, skipBlanks_bind, afterBlanks_cons rfl]
  rfl

/-- A value is also read from behind blanks. -/
theorem Writes.reads_behind (written : Writes levels text value)
    (areBlank : ∀ c ∈ blanks, isBlank c = true) (ends : EndsNumber rest) (position : Position) :
    ∃ reached, transcript levels ⟨blanks ++ (text ++ rest), position⟩ =
      .ok (value, ⟨rest, reached⟩) := by
  obtain ⟨c, isFirst, notBlank, -⟩ := written.begins
  obtain ⟨reached, isRead⟩ := written.reads rest (StringText.endOf position blanks) ends
  obtain ⟨text, rfl⟩ := List.head?_eq_some_iff.mp isFirst
  have same (listReader objectReader : Reader Json) :
      valueWith listReader objectReader ⟨blanks ++ (c :: text ++ rest), position⟩ =
        valueWith listReader objectReader
          ⟨c :: text ++ rest, StringText.endOf position blanks⟩ := by
    rw [valueWith, skipBlanks_bind, skipBlanks_bind, List.cons_append,
      afterBlanks_append areBlank notBlank, afterBlanks_cons notBlank]
  refine ⟨reached, Eq.trans ?_ isRead⟩
  cases levels <;> exact same _ _

end Lead

section Laid

variable {layout : Layout} {levels level limit : Nat} {first : Bool}
  {blanks text closing behind more : List Char} {value : Json}

/-! ### One after the other -/

theorem items_closing {reader : Reader Json} {position : Nat}
    (areBlank : ∀ c ∈ closing, isBlank c = true) (start : Position) :
    ∃ reached, Reader.items reader (limit + 1) position ⟨closing ++ ']' :: more, start⟩ =
      .ok ([], ⟨']' :: more, reached⟩) := by
  have behind := afterBlanks_append areBlank (rfl : isBlank ']' = false) more start
  have isClosing := nextItem_closing (decide (position = 0)) ⟨closing ++ ']' :: more, start⟩
    (by rw [behind]; rfl)
  rw [behind] at isClosing
  exact ⟨_, items_succ_eq_ok_iff.mpr (.inl ⟨isClosing, rfl⟩)⟩

theorem items_lead (first : Bool) {position : Nat} {others : List Json}
    (isFirst : decide (position = 0) = first)
    (areBlank : ∀ c ∈ blanks, isBlank c = true) (written : Writes levels text value)
    (ends : EndsNumber more)
    (areRead : ∀ start, ∃ reached, Reader.items (transcript levels) limit (position + 1)
      ⟨more, start⟩ = .ok (others, ⟨behind, reached⟩))
    (start : Position) :
    ∃ reached, Reader.items (transcript levels) (limit + 1) position
      ⟨lead first blanks ++ (text ++ more), start⟩ = .ok (value :: others, ⟨behind, reached⟩) := by
  obtain ⟨ahead, isNext⟩ := nextItem_lead first areBlank written more start
  obtain ⟨between, isRead⟩ := written.reads more ahead ends
  obtain ⟨reached, areRead⟩ := areRead between
  exact ⟨reached, items_succ_eq_ok_iff.mpr
    (.inr ⟨_, _, _, _, isFirst ▸ isNext, isRead, areRead, rfl⟩)⟩

theorem members_closing {gathered : List (String × Json)}
    (areBlank : ∀ c ∈ closing, isBlank c = true) (start : Position) :
    ∃ reached, Reader.members (keepMember (transcript levels)) (limit + 1) first gathered
      ⟨closing ++ '\x7d' :: more, start⟩ = .ok (gathered, ⟨'\x7d' :: more, reached⟩) := by
  have behind := afterBlanks_append areBlank (rfl : isBlank '\x7d' = false) more start
  have isClosing := nextMember_closing first ⟨closing ++ '\x7d' :: more, start⟩
    (by rw [behind]; rfl)
  rw [behind] at isClosing
  have isName : nextName first ⟨closing ++ '\x7d' :: more, start⟩ =
      .ok (none, ⟨'\x7d' :: more, _⟩) :=
    under_eq_ok_iff.mpr (bind_eq_ok_iff.mpr ⟨_, _, isClosing, rfl⟩)
  exact ⟨_, members_succ_eq_ok_iff.mpr (.inl ⟨isName, rfl⟩)⟩

theorem members_lead (first : Bool) {name : String} {gathered others : List (String × Json)}
    (areBlank : ∀ c ∈ blanks, isBlank c = true) {space : List Char}
    (spaceBlank : ∀ c ∈ space, isBlank c = true) (written : Writes levels text value)
    (ends : EndsNumber more)
    (areRead : ∀ start, ∃ reached, Reader.members (keepMember (transcript levels)) limit false
      (gathered ++ [(name, value)]) ⟨more, start⟩ = .ok (others, ⟨behind, reached⟩))
    (start : Position) :
    ∃ reached, Reader.members (keepMember (transcript levels)) (limit + 1) first gathered
      ⟨lead first blanks ++ (Json.quoted name ++ ':' :: (space ++ (text ++ more))), start⟩ =
        .ok (others, ⟨behind, reached⟩) := by
  obtain ⟨named, isName⟩ := nextName_lead first areBlank name
    (':' :: (space ++ (text ++ more))) start
  obtain ⟨between, isRead⟩ := written.reads_behind spaceBlank ends (named.after ':')
  obtain ⟨reached, areRead⟩ := areRead between
  exact ⟨reached, members_succ_eq_ok_iff.mpr (.inr ⟨_, _, _, _, _, isName, colon_cons named,
    keepMember_eq_ok_iff.mpr ⟨_, isRead, rfl⟩, areRead⟩)⟩

theorem endsNumber_items {items : List Json} (ends : EndsNumber more) :
    EndsNumber (layout.items level items ++ more) := by
  cases items with
  | nil => exact ends
  | cons item rest => exact endsNumber_cons rfl

theorem endsNumber_members {members : List (String × Json)} (ends : EndsNumber more) :
    EndsNumber (layout.members level members ++ more) := by
  cases members with
  | nil => exact ends
  | cons member rest => exact endsNumber_cons rfl

/-- Items that are written behind commas are read. -/
theorem items_laid {position : Nat} {items : List Json}
    (each : ∀ item ∈ items, Writes levels (layout.chars level item) item)
    (areBlank : ∀ c ∈ closing, isBlank c = true) (start : Position) :
    ∃ reached, Reader.items (transcript levels) (items.length + 1) (position + 1)
      ⟨layout.items level items ++ (closing ++ ']' :: more), start⟩ =
        .ok (items, ⟨']' :: more, reached⟩) := by
  induction items generalizing position start with
  | nil => exact items_closing areBlank start
  | cons item rest inductionHypothesis =>
      have ends : EndsNumber (layout.items level rest ++ (closing ++ ']' :: more)) :=
        endsNumber_items ((endsNumber_cons rfl).blanks_append areBlank)
      have isRead := items_lead false (rfl : decide (position + 1 = 0) = false)
        (layout.gapBlank level) (each item List.mem_cons_self) ends
        (inductionHypothesis fun other isLater => each other (List.mem_cons_of_mem _ isLater)) start
      simp only [Layout.items, List.append_assoc, List.cons_append]
      exact isRead

/-- Members that are written behind commas are read. -/
theorem members_laid {gathered members : List (String × Json)}
    (each : ∀ name value, (name, value) ∈ members →
      Writes levels (layout.chars level value) value)
    (areBlank : ∀ c ∈ closing, isBlank c = true) (start : Position) :
    ∃ reached, Reader.members (keepMember (transcript levels)) (members.length + 1) false gathered
      ⟨layout.members level members ++ (closing ++ '\x7d' :: more), start⟩ =
        .ok (gathered ++ members, ⟨'\x7d' :: more, reached⟩) := by
  induction members generalizing gathered start with
  | nil =>
      rw [List.append_nil]
      exact members_closing areBlank start
  | cons member rest inductionHypothesis =>
      obtain ⟨name, value⟩ := member
      have ends : EndsNumber (layout.members level rest ++ (closing ++ '\x7d' :: more)) :=
        endsNumber_members ((endsNumber_cons rfl).blanks_append areBlank)
      have isRead := members_lead false (layout.gapBlank level) layout.spaceBlank
        (each name value List.mem_cons_self) ends
        (@inductionHypothesis (gathered ++ [(name, value)])
          fun other inner isLater => each other inner (List.mem_cons_of_mem _ isLater)) start
      rw [List.append_assoc, List.singleton_append] at isRead
      simp only [Layout.members, List.append_assoc, List.cons_append]
      exact isRead

theorem length_le_items (items : List Json) :
    items.length ≤ (layout.items level items).length := by
  induction items with
  | nil => exact Nat.zero_le _
  | cons item rest inductionHypothesis =>
      simp only [Layout.items, List.length_cons, List.length_append]
      omega

theorem length_le_members (members : List (String × Json)) :
    members.length ≤ (layout.members level members).length := by
  induction members with
  | nil => exact Nat.zero_le _
  | cons member rest inductionHypothesis =>
      simp only [Layout.members, List.length_cons, List.length_append]
      omega

/-- A list is read from its written form. -/
theorem reads_array {items : List Json}
    (each : ∀ item ∈ items, Writes levels (layout.chars (level + 1) item) item) :
    Reads (transcript (levels + 1)) (layout.chars level (.array items)) (.array items) := by
  intro rest position _
  have isList : ∃ text reached, layout.chars level (.array items) ++ rest = '[' :: text ∧
      items.length ≤ text.length ∧
      Reader.items (transcript levels) (items.length + 1) 0 ⟨text, position.after '['⟩ =
        .ok (items, ⟨']' :: rest, reached⟩) := by
    cases items with
    | nil =>
        have areClosed : ∃ reached, Reader.items (transcript levels) 1 0
            ⟨[] ++ ']' :: rest, position.after '['⟩ = .ok ([], ⟨']' :: rest, reached⟩) :=
          items_closing (List.forall_mem_nil _) (position.after '[')
        obtain ⟨reached, areRead⟩ := areClosed
        exact ⟨_, reached, rfl, Nat.zero_le _, areRead⟩
    | cons item others =>
        have areLaid (start : Position) : ∃ reached, Reader.items (transcript levels)
            (others.length + 1) (0 + 1)
            ⟨layout.items (level + 1) others ++ (layout.gap level ++ ']' :: rest), start⟩ =
              .ok (others, ⟨']' :: rest, reached⟩) :=
          items_laid (fun other isLater => each other (List.mem_cons_of_mem _ isLater))
            (layout.gapBlank level) start
        have ends : EndsNumber
            (layout.items (level + 1) others ++ (layout.gap level ++ ']' :: rest)) :=
          endsNumber_items ((endsNumber_cons rfl).blanks_append (layout.gapBlank level))
        obtain ⟨reached, areRead⟩ := items_lead true (rfl : decide (0 = 0) = true)
          (layout.gapBlank (level + 1)) (each item List.mem_cons_self) ends areLaid
          (position.after '[')
        refine ⟨_, reached, ?_, ?_, areRead⟩
        · simp only [lead, Layout.chars, List.append_assoc, List.cons_append, List.nil_append,
            if_true]
        · have atLeast : others.length ≤ (layout.items (level + 1) others).length :=
            length_le_items others
          simp only [List.length_append, List.length_cons]
          omega
  obtain ⟨text, reached, split, short, areRead⟩ := isList
  refine ⟨reached.after ']', ?_⟩
  rw [split]
  refine valueWith_eq_ok_iff.mpr ⟨'[', ?_⟩
  rw [afterBlanks_cons rfl, if_pos rfl]
  exact ⟨rfl, bind_eq_ok_iff.mpr ⟨_, _, list_eq_ok_iff.mpr
    ⟨_, items_of_le (Nat.succ_le_succ short) areRead, rfl⟩, rfl⟩⟩

/-- An object is read from its written form. -/
theorem reads_object {members : List (String × Json)}
    (each : ∀ name value, (name, value) ∈ members →
      Writes levels (layout.chars (level + 1) value) value) :
    Reads (transcript (levels + 1)) (layout.chars level (.object members)) (.object members) := by
  intro rest position _
  have isObject : ∃ text reached, layout.chars level (.object members) ++ rest = '\x7b' :: text ∧
      members.length ≤ text.length ∧
      Reader.members (keepMember (transcript levels)) (members.length + 1) true []
        ⟨text, position.after '\x7b'⟩ = .ok (members, ⟨'\x7d' :: rest, reached⟩) := by
    cases members with
    | nil =>
        have areClosed : ∃ reached, Reader.members (keepMember (transcript levels)) 1 true []
            ⟨[] ++ '\x7d' :: rest, position.after '\x7b'⟩ = .ok ([], ⟨'\x7d' :: rest, reached⟩) :=
          members_closing (List.forall_mem_nil _) (position.after '\x7b')
        obtain ⟨reached, areRead⟩ := areClosed
        exact ⟨_, reached, rfl, Nat.zero_le _, areRead⟩
    | cons member others =>
        obtain ⟨name, value⟩ := member
        have areLaid (start : Position) : ∃ reached,
            Reader.members (keepMember (transcript levels)) (others.length + 1) false
              ([] ++ [(name, value)])
              ⟨layout.members (level + 1) others ++ (layout.gap level ++ '\x7d' :: rest), start⟩ =
                .ok ((name, value) :: others, ⟨'\x7d' :: rest, reached⟩) :=
          members_laid
            (fun other inner isLater => each other inner (List.mem_cons_of_mem _ isLater))
            (layout.gapBlank level) start
        have ends : EndsNumber
            (layout.members (level + 1) others ++ (layout.gap level ++ '\x7d' :: rest)) :=
          endsNumber_members ((endsNumber_cons rfl).blanks_append (layout.gapBlank level))
        obtain ⟨reached, areRead⟩ := members_lead true
          (layout.gapBlank (level + 1)) layout.spaceBlank (each name value List.mem_cons_self) ends
          areLaid (position.after '\x7b')
        refine ⟨_, reached, ?_, ?_, areRead⟩
        · simp only [lead, Layout.chars, List.append_assoc, List.cons_append, List.nil_append,
            if_true]
        · have atLeast : others.length ≤ (layout.members (level + 1) others).length :=
            length_le_members others
          simp only [List.length_append, List.length_cons]
          omega
  obtain ⟨text, reached, split, short, areRead⟩ := isObject
  refine ⟨reached.after '\x7d', ?_⟩
  rw [split]
  refine valueWith_eq_ok_iff.mpr ⟨'\x7b', ?_⟩
  rw [afterBlanks_cons rfl, if_neg (by decide), if_pos rfl]
  exact ⟨rfl, object_eq_ok_iff.mpr ⟨_, _, members_of_le (Nat.succ_le_succ short) areRead, rfl, rfl⟩⟩

end Laid

end Containers

/-! ## All values -/

section Values

variable {levels : Nat} {value : Json}

theorem writes_integer {value : Int} (least : -Nat.pow 2 63 ≤ value)
    (greatest : value ≤ Numeral.wordMax) :
    Writes levels (Number.integer value).text.toList (.number (.integer value)) := by
  cases value with
  | ofNat value =>
      obtain ⟨first, others, split, isDigit⟩ := exists_digits value
      refine ⟨⟨first, ?_, ?_, ?_⟩, reads_natural (Int.ofNat_le.mp greatest)⟩
      · exact congrArg List.head? split
      · exact isBlank_of_continuesNumber (by rw [continuesNumber, isDigit]; rfl)
      · rintro rfl
        cases isDigit
  | negSucc value =>
      have written : (Number.integer (.negSucc value)).text.toList =
          '-' :: (toString (value + 1)).toList := by
        have joined : (Number.integer (.negSucc value)).text = "-" ++ toString (value + 1) := rfl
        rw [joined, String.toList_append]
        rfl
      rw [written]
      exact ⟨⟨'-', rfl, rfl, by decide⟩, reads_negative (by omega)⟩

theorem reads_null : Reads (transcript levels) (Json.scalarText .null) .null :=
  reads_transcript_of_scalar (c := 'n') rfl rfl (by decide) (by decide) fun _ _ _ => ⟨_, rfl⟩

theorem reads_bool (value : Bool) :
    Reads (transcript levels) (Json.scalarText (.bool value)) (.bool value) := by
  cases value with
  | true =>
      exact reads_transcript_of_scalar (c := 't') rfl rfl (by decide) (by decide)
        fun _ _ _ => ⟨_, rfl⟩
  | false =>
      exact reads_transcript_of_scalar (c := 'f') rfl rfl (by decide) (by decide)
        fun _ _ _ => ⟨_, rfl⟩

/-- Every legible value is read from its written form, whatever the layout. -/
theorem writes_of_legible (legible : value.Legible levels) (layout : Layout) (level : Nat) :
    Writes levels (layout.chars level value) value := by
  induction legible generalizing level with
  | null => exact ⟨⟨'n', rfl, rfl, by decide⟩, reads_null⟩
  | bool value =>
      refine ⟨?_, reads_bool value⟩
      cases value
      · exact ⟨'f', rfl, rfl, by decide⟩
      · exact ⟨'t', rfl, rfl, by decide⟩
  | integer least greatest => exact writes_integer least greatest
  | string value => exact ⟨⟨'"', rfl, rfl, by decide⟩, reads_string value⟩
  | @array levels items each inductionHypothesis =>
      refine ⟨⟨'[', ?_, rfl, by decide⟩,
        reads_array fun item isItem => inductionHypothesis item isItem (level + 1)⟩
      cases items <;> rfl
  | @object levels members each inductionHypothesis =>
      refine ⟨⟨'\x7b', ?_, rfl, by decide⟩,
        reads_object fun name inner isMember => inductionHypothesis name inner isMember (level + 1)⟩
      cases members <;> rfl

end Values

end Reader

namespace Json

variable {value : Json}

/-- A text that consists of a value has the value as its transcript. -/
theorem transcript_of_reads {text : List Char}
    (reads : Reader.Reads (Reader.transcript Reader.nestingLimit) text value) :
    Json.transcript (String.ofList text) = .ok value := by
  obtain ⟨reached, isRead⟩ := reads [] ⟨1, 0⟩ Reader.endsNumber_nil
  rw [List.append_nil] at isRead
  rw [transcript_eq_ok_iff, Cursor.start_ofList]
  exact ⟨⟨[], reached⟩, isRead, ⟨[], reached⟩, rfl⟩

/-- A text that consists of a value is read as that value. -/
theorem read_of_reads {text : List Char}
    (reads : Reader.Reads (Reader.transcript Reader.nestingLimit) text value)
    (isProper : value.proper = true) : Json.read (String.ofList text) = .ok value := by
  rw [read_eq_merged, transcript_of_reads reads, Except.map, merged_of_proper isProper]

/-- The compact form of a value can be read, and is read as the same value. -/
theorem read_compact (legible : value.Legible Reader.nestingLimit)
    (isProper : value.proper = true) :
    Json.read value.compact = .ok value := by
  rw [compact, compactChars_eq 0]
  exact read_of_reads (Reader.writes_of_legible legible .compact 0).reads isProper

/-- The indented form of a value repeats the names that the value repeats, and no other. -/
theorem transcript_pretty (legible : value.Legible Reader.nestingLimit) :
    Json.transcript value.pretty = .ok value := by
  rw [pretty, prettyChars_eq 0]
  exact transcript_of_reads (Reader.writes_of_legible legible .indented 0).reads

/-- The indented form of a value can be read, and is read as the same value. -/
theorem read_pretty (legible : value.Legible Reader.nestingLimit) (isProper : value.proper = true) :
    Json.read value.pretty = .ok value := by
  rw [read_eq_merged, transcript_pretty legible, Except.map, merged_of_proper isProper]

end Json

end FormSchema
