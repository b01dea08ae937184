import FormSchema.Proofs.Decoding.Agreement
import FormSchema.Proofs.Schema.Grammar
import FormSchema.Schema.Text

/-!
# Reading a primitive straight from a text

A primitive is read from its name, or from an object with a single member that has the name and
null as its value.  Members that are repeated are never read, so the transcript and the value of
a primitive are the same.
-/

namespace FormSchema.Reader

variable {levels : Nat} {cursor behind : Cursor}

/-! ## Names and braces -/

theorem primitiveNamed_eq_ok_iff {name : String} {read : Primitive} :
    primitiveNamed name cursor = .ok (read, behind) ↔
      behind = cursor ∧ Decode.primitiveNamed name = .ok read := by
  rw [primitiveNamed, Decode.primitiveNamed]
  cases Primitive.ofName? name with
  | none =>
      refine iff_of_false (fun isRead => ?_) fun isRead => ?_
      · cases isRead
      · cases isRead.2
  | some primitive =>
      rw [pure_eq_ok_iff, Except.ok.injEq, and_comm, eq_comm (a := read)]

theorem primitiveName_eq_ok_iff {name : String} :
    primitiveName cursor = .ok (name, behind) ↔
      cursor.afterBlanks.rest.head? = some '"' ∧
        string cursor.afterBlanks.next = .ok (name, behind) := by
  rw [primitiveName, skipBlanks_bind, peek_bind]
  generalize cursor.afterBlanks.rest.head? = next
  split
  · exact iff_of_false nofun nofun
  · rw [advance_bind]
    exact (and_iff_right rfl).symm
  · exact iff_of_false nofun nofun
  · rename_i c notQuote _
    refine iff_of_false nofun ?_
    rintro ⟨⟨⟩, -⟩
    exact notQuote rfl

/-- The closing brace of an object with a single member, and the result behind it. -/
theorem closing_eq_ok_iff {α : Type} {value read : α} :
    (do
      skipBlanks
      match ← peek with
      | none => failHere (.malformed .endInObject)
      | some '\x7d' => do
          advance
          return value
      | some _ => failHere (.malformed .valueExpected) : Reader α) cursor = .ok (read, behind) ↔
      read = value ∧ cursor.afterBlanks.rest.head? = some '\x7d' ∧
        behind = cursor.afterBlanks.next := by
  rw [skipBlanks_bind, peek_bind]
  generalize cursor.afterBlanks.rest.head? = next
  split
  · exact iff_of_false nofun nofun
  · rw [advance_bind, pure_eq_ok_iff]
    exact and_congr_right fun _ => (and_iff_right rfl).symm
  · rename_i c notBrace
    refine iff_of_false nofun ?_
    rintro ⟨-, ⟨⟩, -⟩
    exact notBrace rfl

/-- An object that stands for a primitive has a single member, with null as its value. -/
theorem primitive_object_eq_ok_iff {read : Primitive}
    (isBrace : cursor.afterBlanks.rest.head? = some '\x7b') :
    primitive (levels + 1) cursor = .ok (read, behind) ↔
      ∃ name named pointed valued,
        primitiveName cursor.afterBlanks.next = .ok (name, named) ∧
        Decode.primitiveNamed name = .ok read ∧ colon named = .ok ((), pointed) ∧
        nullValue .unit pointed = .ok ((), valued) ∧
        valued.afterBlanks.rest.head? = some '\x7d' ∧ behind = valued.afterBlanks.next := by
  have unfolded : primitive (levels + 1) cursor =
      (do
        let name ← primitiveName
        let primitive ← primitiveNamed name
        colon
        under (.key name) (nullValue .unit)
        skipBlanks
        match ← peek with
        | none => failHere (.malformed .endInObject)
        | some '\x7d' => do
            advance
            return primitive
        | some _ => failHere (.malformed .valueExpected) : Reader Primitive)
        cursor.afterBlanks.next := by
    rw [primitive, skipBlanks_bind, peek_bind, isBrace]
    rfl
  rw [unfolded]
  constructor
  · intro isRead
    obtain ⟨name, named, isName, afterName⟩ := bind_eq_ok_iff.mp isRead
    obtain ⟨primitive, _, isPrimitive, afterPrimitive⟩ := bind_eq_ok_iff.mp afterName
    obtain ⟨rfl, isNamed⟩ := primitiveNamed_eq_ok_iff.mp isPrimitive
    obtain ⟨_, pointed, isColon, afterColon⟩ := bind_eq_ok_iff.mp afterPrimitive
    obtain ⟨_, valued, isNull, afterNull⟩ := bind_eq_ok_iff.mp afterColon
    obtain ⟨rfl, isClosing, isEnd⟩ := closing_eq_ok_iff.mp afterNull
    exact ⟨name, _, pointed, valued, isName, isNamed, isColon, under_eq_ok_iff.mp isNull,
      isClosing, isEnd⟩
  · rintro ⟨name, named, pointed, valued, isName, isPrimitive, isColon, isNull, isClosing, rfl⟩
    refine bind_eq_ok_iff.mpr ⟨name, named, isName, ?_⟩
    refine bind_eq_ok_iff.mpr ⟨read, named, primitiveNamed_eq_ok_iff.mpr ⟨rfl, isPrimitive⟩, ?_⟩
    refine bind_eq_ok_iff.mpr ⟨(), pointed, isColon, ?_⟩
    refine bind_eq_ok_iff.mpr ⟨(), valued, under_eq_ok_iff.mpr isNull, ?_⟩
    exact closing_eq_ok_iff.mpr ⟨rfl, isClosing, rfl⟩

/-! ## The members of an object, one by one -/

section Members

variable {reader : Reader Json} {limit : Nat} {before documents : List (String × Json)}
  {closing : Cursor}

/-- The members that are read come behind those that were there before. -/
theorem exists_added_of_members {first : Bool}
    (areRead : members (keepMember reader) limit first before cursor = .ok (documents, closing)) :
    ∃ added, documents = before ++ added := by
  induction limit generalizing first before cursor with
  | zero => cases areRead
  | succ limit inductionHypothesis =>
      obtain ⟨-, rfl⟩ | ⟨name, _, _, more, _, -, -, isStep, areRead⟩ :=
        members_succ_eq_ok_iff.mp areRead
      · exact ⟨[], (List.append_nil _).symm⟩
      · obtain ⟨document, -, rfl⟩ := keepMember_eq_ok_iff.mp isStep
        obtain ⟨added, rfl⟩ := inductionHypothesis areRead
        exact ⟨_, List.append_assoc _ _ _⟩

/-- An object ends directly behind its brace, or has a first member. -/
theorem first_member_cases
    (areRead : members (keepMember reader) (limit + 1) true [] cursor = .ok (documents, closing)) :
    (documents = [] ∧ cursor.afterBlanks.rest.head? = some '\x7d') ∨
    ∃ name named pointed document valued, cursor.afterBlanks.rest.head? = some '"' ∧
      string cursor.afterBlanks.next = .ok (name, named) ∧ colon named = .ok ((), pointed) ∧
      reader pointed = .ok (document, valued) ∧
      members (keepMember reader) limit false [(name, document)] valued =
        .ok (documents, closing) := by
  obtain ⟨isName, rfl⟩ | ⟨name, named, pointed, more, valued, isName, isColon, isStep, areRead⟩ :=
    members_succ_eq_ok_iff.mp areRead
  · obtain ⟨-, isNext⟩ | ⟨_, _, ⟨⟩, -⟩ := nextName_cases isName
    obtain ⟨-, rfl, isClosing⟩ | ⟨⟨⟩, -⟩ := nextMember_cases isNext
    exact .inl ⟨rfl, isClosing⟩
  · obtain ⟨⟨⟩, -⟩ | ⟨text, opening, ⟨⟩, isNext, isString⟩ := nextName_cases isName
    obtain ⟨⟨⟩, -⟩ | ⟨-, isQuote, ⟨-, rfl⟩ | ⟨⟨⟩, -⟩⟩ := nextMember_cases isNext
    obtain ⟨document, isDocument, rfl⟩ := keepMember_eq_ok_iff.mp isStep
    exact .inr ⟨name, named, pointed, document, valued, isQuote, isString, isColon, isDocument,
      areRead⟩

/-- Behind a member the object ends, or there are a comma and another member. -/
theorem later_member_cases
    (areRead : members (keepMember reader) limit false before cursor = .ok (documents, closing)) :
    (documents = before ∧ closing = cursor.afterBlanks ∧
      cursor.afterBlanks.rest.head? = some '\x7d') ∨
    (cursor.afterBlanks.rest.head? = some ',' ∧
      ∃ member others, documents = before ++ member :: others) := by
  cases limit with
  | zero => cases areRead
  | succ limit =>
      obtain ⟨isName, rfl⟩ | ⟨name, _, _, _, _, isName, -, isStep, areRead⟩ :=
        members_succ_eq_ok_iff.mp areRead
      · obtain ⟨-, isNext⟩ | ⟨_, _, ⟨⟩, -⟩ := nextName_cases isName
        obtain ⟨-, rfl, isClosing⟩ | ⟨⟨⟩, -⟩ := nextMember_cases isNext
        exact .inl ⟨rfl, rfl, isClosing⟩
      · obtain ⟨⟨⟩, -⟩ | ⟨_, _, -, isNext, -⟩ := nextName_cases isName
        obtain ⟨⟨⟩, -⟩ | ⟨-, -, ⟨⟨⟩, -⟩ | ⟨-, isComma, -⟩⟩ := nextMember_cases isNext
        obtain ⟨document, -, rfl⟩ := keepMember_eq_ok_iff.mp isStep
        obtain ⟨added, rfl⟩ := exists_added_of_members areRead
        exact .inr ⟨isComma, (name, document), added, List.append_assoc _ _ _⟩

end Members

/-! ## Objects that stand for primitives -/

/-- A primitive is read from an object exactly if that has a single member. -/
theorem primitive_object_agrees {documents : List (String × Json)} {closing : Cursor}
    (isBrace : cursor.afterBlanks.rest.head? = some '\x7b')
    (areRead : members (keepMember (transcript levels)) (cursor.afterBlanks.next.rest.length + 1)
      true [] cursor.afterBlanks.next = .ok (documents, closing)) {read : Primitive}
    {reached : Cursor} :
    primitive (levels + 1) cursor = .ok (read, reached) ↔
      reached = closing.next ∧ documents = [(read.name, .null)] := by
  rw [primitive_object_eq_ok_iff isBrace]
  simp only [primitiveName_eq_ok_iff, Decode.primitiveNamed_eq_ok_iff]
  obtain ⟨rfl, isClosing⟩ |
    ⟨name, named, pointed, document, valued, isQuote, isString, isColon, isDocument, areRead⟩ :=
    first_member_cases areRead
  · refine iff_of_false ?_ nofun
    rintro ⟨_, _, _, _, ⟨isQuote, -⟩, -⟩
    rw [isClosing] at isQuote
    cases isQuote
  · have described : (∃ text named pointed valued,
        (cursor.afterBlanks.next.afterBlanks.rest.head? = some '"' ∧
          string cursor.afterBlanks.next.afterBlanks.next = .ok (text, named)) ∧
        text = read.name ∧ colon named = .ok ((), pointed) ∧
        nullValue .unit pointed = .ok ((), valued) ∧
        valued.afterBlanks.rest.head? = some '\x7d' ∧ reached = valued.afterBlanks.next) ↔
        name = read.name ∧ document = .null ∧ valued.afterBlanks.rest.head? = some '\x7d' ∧
          reached = valued.afterBlanks.next := by
      constructor
      · rintro ⟨_, _, _, _, ⟨-, isText⟩, sameName, isPointed, isNull, isClosing, isEnd⟩
        rw [isString] at isText
        cases isText
        rw [isColon] at isPointed
        cases isPointed
        obtain ⟨rfl, rfl⟩ := (agrees_nullValue .unit _ _ _ isDocument _ _).mp isNull
        exact ⟨sameName, rfl, isClosing, isEnd⟩
      · rintro ⟨sameName, rfl, isClosing, isEnd⟩
        exact ⟨_, _, _, _, ⟨isQuote, isString⟩, sameName, isColon,
          (agrees_nullValue .unit _ _ _ isDocument _ _).mpr ⟨rfl, rfl⟩, isClosing, isEnd⟩
    rw [described]
    obtain ⟨rfl, rfl, isClosing⟩ | ⟨isComma, member, others, rfl⟩ := later_member_cases areRead
    · constructor
      · rintro ⟨rfl, rfl, -, rfl⟩
        exact ⟨rfl, rfl⟩
      · rintro ⟨rfl, same⟩
        cases same
        exact ⟨rfl, rfl, isClosing, rfl⟩
    · refine iff_of_false ?_ nofun
      rintro ⟨-, -, isClosing, -⟩
      rw [isComma] at isClosing
      cases isClosing

/-! ## All primitives -/

/-- Neither a string nor an object stands for a primitive unless it begins like one. -/
theorem primitive_ne_ok {c : Char} {read : Primitive}
    (isNext : cursor.afterBlanks.rest.head? = some c) (notQuote : c ≠ '"') (notBrace : c ≠ '\x7b') :
    primitive levels cursor ≠ .ok (read, behind) := by
  intro isRead
  rw [primitive, skipBlanks_bind, peek_bind] at isRead
  generalize cursor.afterBlanks.rest.head? = next at isNext isRead
  generalize (if levels = 0 then tooDeep else _ : Reader Primitive) = objectReader at isRead
  split at isRead
  · cases isRead
  · exact notQuote (Option.some.inj isNext).symm
  · exact notBrace (Option.some.inj isNext).symm
  · cases isRead

theorem agrees_primitive (levels : Nat) :
    Agrees levels (primitive levels) fun document read => Decode.primitive document = .ok read := by
  intro cursor document behind isRead read reached
  obtain ⟨c, isNext, begins⟩ := begins_of_transcript isRead
  cases begins with
  | string text =>
      obtain ⟨_, ⟨⟩, isString⟩ := string_of_transcript isNext isRead
      have unfolded : primitive levels cursor =
          (do primitiveNamed (← string) : Reader Primitive) cursor.afterBlanks.next := by
        rw [primitive, skipBlanks_bind, peek_bind, isNext]
        rfl
      rw [unfolded, bind_eq_ok_iff, isString]
      constructor
      · rintro ⟨_, _, ⟨⟩, isPrimitive⟩
        exact primitiveNamed_eq_ok_iff.mp isPrimitive
      · intro isPrimitive
        exact ⟨text, behind, rfl, primitiveNamed_eq_ok_iff.mpr isPrimitive⟩
  | object documents =>
      obtain ⟨lower, closing, rfl, isBrace, areRead, rfl⟩ := members_of_transcript isRead
      refine (primitive_object_agrees isBrace areRead).trans (and_congr_right fun _ => ?_)
      refine Iff.trans ?_ Decode.primitive_eq_ok_iff.symm
      rw [Json.object.injEq]
      exact (or_iff_right nofun).symm
  | null => exact iff_of_false (primitive_ne_ok isNext (by decide) (by decide)) nofun
  | true => exact iff_of_false (primitive_ne_ok isNext (by decide) (by decide)) nofun
  | false => exact iff_of_false (primitive_ne_ok isNext (by decide) (by decide)) nofun
  | array items => exact iff_of_false (primitive_ne_ok isNext (by decide) (by decide)) nofun
  | number isNumber value =>
      have different (other : Char) (noNumber : ¬ (other = '-' ∨ other.isDigit = Bool.true)) :
          c ≠ other := by
        rintro rfl
        exact noNumber isNumber
      refine iff_of_false (primitive_ne_ok isNext (different _ ?_) (different _ ?_)) nofun
      · decide
      · decide

end FormSchema.Reader

