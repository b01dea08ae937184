import FormSchema.Proofs.Decoding.Strings
import FormSchema.Proofs.Decoding.Transcript

/-!
# Reading from a text that goes on

A reader looks no further than one character behind what it consumes.  If it stops before the
end of a text, it therefore reads the same from every text that goes on: it is `Local`.  A list
or an object has a closing character of its own, so it is read the same even if the text ends
with it: its reader is `Delimited`.

No reader gives characters back, so the same rules say that the rest of a text only gets shorter.
-/

namespace FormSchema

/-- The same place in a text that goes on. -/
def Cursor.extend (cursor : Cursor) (more : List Char) : Cursor :=
  { cursor with rest := cursor.rest ++ more }

theorem Cursor.start_ofList (characters : List Char) :
    start (String.ofList characters) = ⟨characters, ⟨1, 0⟩⟩ := by
  rw [start, String.toList_ofList]

theorem Cursor.start_append (text more : String) :
    start (text ++ more) = (start text).extend more.toList := by
  rw [start, String.toList_append]
  rfl

namespace Reader

variable {α β σ : Type}

/-- What is read before the end of a text is read from every text that goes on. -/
def Local (reader : Reader α) : Prop :=
  ∀ cursor result behind, reader cursor = .ok (result, behind) →
    behind.rest.length ≤ cursor.rest.length ∧
      (behind.rest ≠ [] → ∀ more,
        reader (cursor.extend more) = .ok (result, behind.extend more))

/-- What is read, be it up to the end of a text, is read from every text that goes on. -/
def Delimited (reader : Reader α) : Prop :=
  ∀ cursor result behind, reader cursor = .ok (result, behind) →
    behind.rest.length ≤ cursor.rest.length ∧
      ∀ more, reader (cursor.extend more) = .ok (result, behind.extend more)

section Rules

variable {reader : Reader α} {cursor behind : Cursor} {result : α}

theorem Delimited.local (delimited : Delimited reader) : Local reader :=
  fun cursor result behind isRead =>
    ⟨(delimited cursor result behind isRead).1, fun _ =>
      (delimited cursor result behind isRead).2⟩

theorem Local.shrinks (isLocal : Local reader) (isRead : reader cursor = .ok (result, behind)) :
    behind.rest.length ≤ cursor.rest.length :=
  (isLocal cursor result behind isRead).1

theorem Local.extends (isLocal : Local reader) (isRead : reader cursor = .ok (result, behind))
    (notEnd : behind.rest ≠ []) (more : List Char) :
    reader (cursor.extend more) = .ok (result, behind.extend more) :=
  (isLocal cursor result behind isRead).2 notEnd more

/-- A reader that did not reach the end of a text did not start there. -/
theorem Local.notEnd (isLocal : Local reader) (isRead : reader cursor = .ok (result, behind))
    (notEnd : behind.rest ≠ []) : cursor.rest ≠ [] := by
  have shorter := isLocal.shrinks isRead
  intro atEnd
  rw [atEnd] at shorter
  exact notEnd (List.eq_nil_of_length_eq_zero (Nat.le_zero.mp shorter))

theorem local_pure (result : α) : Local (pure result) := by
  rintro cursor _ _ ⟨⟩
  exact ⟨Nat.le_refl _, fun _ _ => rfl⟩

/-- A reader that fails wherever it starts reads nothing differently. -/
theorem local_of_fails (fails : Yields (fun _ => False) reader) : Local reader :=
  fun cursor result behind isRead => (fails cursor result behind isRead).elim

theorem Local.bind {first : Reader β} {next : β → Reader α} (firstLocal : Local first)
    (nextLocal : ∀ between, Local (next between)) : Local (first >>= next) := by
  intro cursor result behind isRead
  obtain ⟨⟨between, reached⟩, isFirst, isNext⟩ := Attempt.bind_eq_ok_iff.mp isRead
  have nextShrinks := (nextLocal between).shrinks isNext
  refine ⟨Nat.le_trans nextShrinks (firstLocal.shrinks isFirst), fun notEnd more => ?_⟩
  have notEndBetween := (nextLocal between).notEnd isNext notEnd
  exact Attempt.bind_eq_ok_iff.mpr ⟨(between, reached.extend more),
    firstLocal.extends isFirst notEndBetween more, (nextLocal between).extends isNext notEnd more⟩

theorem Local.under (isLocal : Local reader) (step : PathStep) : Local (reader.under step) := by
  intro cursor result behind isRead
  have isRead := Attempt.mapError_eq_ok_iff.mp isRead
  exact ⟨isLocal.shrinks isRead, fun notEnd more =>
    Attempt.mapError_eq_ok_iff.mpr (isLocal.extends isRead notEnd more)⟩

/-- The position is no matter of what lies ahead. -/
theorem local_position {next : Position → Reader α}
    (nextLocal : ∀ position, Local (next position)) :
    Local (get >>= fun cursor => next cursor.position) :=
  fun cursor => nextLocal cursor.position cursor

end Rules

/-! ## Characters and words -/

theorem local_peek : Local peek := by
  rintro cursor _ _ ⟨⟩
  refine ⟨Nat.le_refl _, fun notEnd more => ?_⟩
  obtain ⟨c, rest, isRest⟩ := List.exists_cons_of_ne_nil notEnd
  have unfolded (cursor : Cursor) : peek cursor = .ok (cursor.rest.head?, cursor) := rfl
  rw [unfolded, Cursor.extend, isRest]
  rfl

/-- Consuming a character is the same in a text that goes on, unless there is none. -/
theorem next_extend {cursor : Cursor} (notEnd : cursor.rest ≠ []) (more : List Char) :
    (cursor.extend more).next = cursor.next.extend more := by
  obtain ⟨rest, position⟩ := cursor
  obtain ⟨c, rest, rfl⟩ := List.exists_cons_of_ne_nil notEnd
  rfl

theorem length_next_le (cursor : Cursor) : cursor.next.rest.length ≤ cursor.rest.length := by
  obtain ⟨rest, position⟩ := cursor
  cases rest with
  | nil => exact Nat.le_refl _
  | cons c rest => exact Nat.le_succ _

theorem local_advance : Local advance := by
  rintro cursor _ _ ⟨⟩
  have shorter := length_next_le cursor
  refine ⟨shorter, fun notEnd more => congrArg (fun place => Except.ok ((), place)) ?_⟩
  refine next_extend (fun atEnd => notEnd ?_) more
  rw [atEnd] at shorter
  exact List.eq_nil_of_length_eq_zero (Nat.le_zero.mp shorter)

theorem spanFrom_extend (test : Char → Bool) (text : List Char) (position : Position) :
    (Cursor.spanFrom test text position).2.rest.length ≤ text.length ∧
      ((Cursor.spanFrom test text position).2.rest ≠ [] → ∀ more,
        Cursor.spanFrom test (text ++ more) position =
          ((Cursor.spanFrom test text position).1,
            (Cursor.spanFrom test text position).2.extend more)) := by
  induction text generalizing position with
  | nil => exact ⟨Nat.le_refl _, fun notEnd => absurd rfl notEnd⟩
  | cons c rest inductionHypothesis =>
      obtain ⟨shorter, extends_⟩ := inductionHypothesis (position.after c)
      by_cases passes : test c = true
      · simp only [Cursor.spanFrom, passes, if_true, List.cons_append]
        refine ⟨Nat.le_succ_of_le shorter, fun notEnd more => ?_⟩
        rw [extends_ notEnd more]
      · simp only [Cursor.spanFrom, if_neg passes, List.cons_append]
        exact ⟨Nat.le_refl _, fun _ _ => rfl⟩

theorem local_takeWhile (test : Char → Bool) : Local (takeWhile test) := by
  intro cursor result behind isRead
  have isSpan : cursor.span test = (result, behind) := Except.ok.inj isRead
  obtain ⟨shorter, extends_⟩ := spanFrom_extend test cursor.rest cursor.position
  rw [Cursor.span] at isSpan
  rw [isSpan] at shorter extends_
  exact ⟨shorter, fun notEnd more => congrArg Except.ok (extends_ notEnd more)⟩

theorem local_skipBlanks : Local skipBlanks :=
  (local_takeWhile isBlank).bind fun _ => local_pure ()

/-- The blanks ahead are the same in a text that goes on, unless they are all there is. -/
theorem afterBlanks_extend {cursor : Cursor} (notEnd : cursor.afterBlanks.rest ≠ [])
    (more : List Char) : (cursor.extend more).afterBlanks = cursor.afterBlanks.extend more :=
  congrArg Prod.snd (Except.ok.inj (local_skipBlanks.extends rfl notEnd more))

theorem local_failHere (fault : Fault) : Local (failHere fault : Reader α) :=
  local_of_fails (yields_failHere fault)

theorem local_failAhead (fault : Fault) : Local (failAhead fault : Reader α) :=
  local_of_fails (yields_failAhead fault)

theorem local_literal (word : List Char) : Local (literal word) := by
  induction word with
  | nil => exact local_pure ()
  | cons expected others inductionHypothesis =>
      refine local_peek.bind fun next => ?_
      split
      · exact local_failHere _
      · split
        · exact local_advance.bind fun _ => inductionHypothesis
        · exact local_failAhead _

/-- A string ends with its closing quote. -/
theorem delimited_string : Delimited string := by
  intro cursor result behind isRead
  obtain ⟨⟨characters, _⟩, isBody, ⟨⟩⟩ := Attempt.bind_eq_ok_iff.mp isRead
  obtain ⟨inside, rfl, isQuoted⟩ := StringText.quoted_of_body isBody
  refine ⟨Nat.le_of_lt isQuoted.shorter, fun more => ?_⟩
  exact Attempt.bind_eq_ok_iff.mpr ⟨_, StringText.body_of_quoted (isQuoted.extend more) [], rfl⟩

/-! ## Numbers and other scalars -/

theorem local_wholeDigits : Local wholeDigits := by
  refine local_peek.bind fun next => ?_
  split
  · exact local_failHere _
  · refine local_advance.bind fun _ => local_peek.bind fun next => ?_
    split
    · split
      · exact local_failAhead _
      · exact local_pure _
    · exact local_pure _
  · split
    · exact local_takeWhile _
    · exact local_failAhead _

theorem local_fractionDigits : Local fractionDigits := by
  refine local_peek.bind fun next => ?_
  split
  · refine local_advance.bind fun _ => (local_takeWhile _).bind fun digits => ?_
    split
    · refine local_peek.bind fun next => ?_
      split
      · exact local_failHere _
      · exact local_failAhead _
    · exact local_pure _
  · exact local_pure _

theorem local_exponentDigits : Local exponentDigits := by
  refine local_peek.bind fun next => ?_
  split
  · exact local_failHere _
  · split
    · exact local_takeWhile _
    · exact local_failAhead _

theorem local_sign : Local sign := by
  refine local_peek.bind fun next => ?_
  split
  · exact local_advance.bind fun _ => local_pure _
  · exact local_advance.bind fun _ => local_pure _
  · exact local_pure _

theorem local_exponent : Local exponent := by
  refine local_peek.bind fun next => ?_
  split
  · refine local_advance.bind fun _ => local_sign.bind fun negative => ?_
    have digits (start : Position) :
        Local (do return some (⟨negative, ← exponentDigits⟩, start) :
          Reader (Option (Exponent × Position))) :=
      local_exponentDigits.bind fun digits => local_pure _
    exact local_position digits
  · exact local_pure _

theorem local_number (negative : Bool) : Local (number negative) := by
  refine local_wholeDigits.bind fun whole => local_fractionDigits.bind fun fraction => ?_
  refine local_exponent.bind fun exponent => ?_
  dsimp only
  split
  · exact local_pure _
  · exact local_of_fails (yields_failAt _ _)
  · exact local_failHere _

theorem local_scalar (c : Char) : Local (scalar c) := by
  have word (rest : List Char) (value : Json) :
      Local (do advance; literal rest; return value : Reader Json) :=
    local_advance.bind fun _ => (local_literal rest).bind fun _ => local_pure value
  unfold scalar
  split_ifs
  · exact word ['u', 'l', 'l'] .null
  · exact word ['r', 'u', 'e'] (.bool true)
  · exact word ['a', 'l', 's', 'e'] (.bool false)
  · exact local_advance.bind fun _ => (local_number true).bind fun _ => local_pure _
  · exact (local_number false).bind fun _ => local_pure _
  · exact local_advance.bind fun _ => delimited_string.local.bind fun _ => local_pure _
  · exact local_failAhead _

theorem local_valueWith {listReader objectReader : Reader Json} (lists : Local listReader)
    (objects : Local objectReader) : Local (valueWith listReader objectReader) := by
  refine local_skipBlanks.bind fun _ => local_peek.bind fun next => ?_
  split
  · exact local_failHere _
  · split
    · exact lists
    · split
      · exact objects
      · exact local_scalar _

/-! ## Lists and objects -/

theorem local_nextMember (first : Bool) : Local (nextMember first) := by
  refine local_skipBlanks.bind fun _ => local_peek.bind fun next => ?_
  split
  · exact local_failHere _
  · exact local_pure _
  · split
    · split
      · exact local_pure _
      · exact local_failAhead _
    · split
      · refine local_advance.bind fun _ => local_skipBlanks.bind fun _ => ?_
        refine local_peek.bind fun next => ?_
        split
        · exact local_failHere _
        · exact local_pure _
        · exact local_failAhead _
        · exact local_failAhead _
      · exact local_failAhead _

theorem local_nextName (first : Bool) : Local (nextName first) := by
  refine ((local_nextMember first).bind fun isMember => ?_).under _
  split
  · exact local_advance.bind fun _ => delimited_string.local.bind fun _ => local_pure _
  · exact local_pure _

theorem local_colon : Local colon := by
  refine local_skipBlanks.bind fun _ => local_peek.bind fun next => ?_
  split
  · exact local_failHere _
  · exact local_advance
  · exact local_failAhead _

theorem local_nextItem (first : Bool) : Local (nextItem first) := by
  refine local_skipBlanks.bind fun _ => local_peek.bind fun next => ?_
  split
  · exact local_failHere _
  · exact local_pure _
  · split
    · exact local_pure _
    · split
      · refine local_advance.bind fun _ => local_skipBlanks.bind fun _ => ?_
        refine local_peek.bind fun next => ?_
        split
        · exact local_failHere _
        · exact local_failAhead _
        · exact local_pure _
      · exact local_failAhead _

theorem local_members {step : σ → String → Reader (Except DecodeError σ)}
    (stepLocal : ∀ gathered name, Local (step gathered name)) (limit : Nat) (first : Bool)
    (gathered : σ) : Local (members step limit first gathered) := by
  induction limit generalizing first gathered with
  | zero => exact local_failHere _
  | succ limit inductionHypothesis =>
      refine (local_nextName first).bind fun next => ?_
      split
      · exact local_pure _
      · refine local_colon.bind fun _ => ((stepLocal _ _).under _).bind fun outcome => ?_
        split
        · exact inductionHypothesis _ _
        · exact local_of_fails (yields_failObject _)

theorem local_items {item : Reader α} (itemLocal : Local item) (limit position : Nat) :
    Local (items item limit position) := by
  induction limit generalizing position with
  | zero => exact local_failHere _
  | succ limit inductionHypothesis =>
      refine (local_nextItem _).bind fun isItem => ?_
      split
      · refine (itemLocal.under _).bind fun _ => (inductionHypothesis _).bind fun _ => local_pure _
      · exact local_pure _

/-! ## Containers have an end of their own -/

theorem ne_nil_of_head? {text : List Char} {c : Char} (isHead : text.head? = some c) :
    text ≠ [] := by
  rintro rfl
  cases isHead

/-- Behind the opening character of a container, more characters are allowed in a text that goes
on. -/
theorem limit_le_extend (cursor : Cursor) (more : List Char) :
    cursor.rest.length + 1 ≤ (cursor.extend more).rest.length + 1 := by
  rw [Cursor.extend, List.length_append]
  omega

theorem delimited_object {start : σ} {step : σ → String → Reader (Except DecodeError σ)}
    {finish : σ → Except DecodeError α} (stepLocal : ∀ gathered name, Local (step gathered name)) :
    Delimited (object start step finish) := by
  intro cursor result behind isRead
  obtain ⟨gathered, closing, areRead, isResult, rfl⟩ := object_eq_ok_iff.mp isRead
  have membersLocal := local_members stepLocal (cursor.next.rest.length + 1) true start
  have notEnd := ne_nil_of_head? (head?_of_members areRead)
  refine ⟨?_, fun more => ?_⟩
  · exact Nat.le_trans (length_next_le closing)
      (Nat.le_trans (membersLocal.shrinks areRead) (length_next_le cursor))
  · have notEndStart := local_advance.notEnd rfl (membersLocal.notEnd areRead notEnd)
    refine object_eq_ok_iff.mpr ⟨gathered, closing.extend more, ?_, isResult,
      (next_extend notEnd more).symm⟩
    rw [next_extend notEndStart]
    exact members_of_le (limit_le_extend _ more) (membersLocal.extends areRead notEnd more)

theorem delimited_list {item : Reader α} (itemLocal : Local item) : Delimited (list item) := by
  intro cursor result behind isRead
  obtain ⟨closing, areRead, rfl⟩ := list_eq_ok_iff.mp isRead
  have itemsLocal := local_items itemLocal (cursor.next.rest.length + 1) 0
  have notEnd := ne_nil_of_head? (head?_of_items areRead)
  refine ⟨?_, fun more => ?_⟩
  · exact Nat.le_trans (length_next_le closing)
      (Nat.le_trans (itemsLocal.shrinks areRead) (length_next_le cursor))
  · have notEndStart := local_advance.notEnd rfl (itemsLocal.notEnd areRead notEnd)
    refine list_eq_ok_iff.mpr ⟨closing.extend more, ?_, (next_extend notEnd more).symm⟩
    rw [next_extend notEndStart]
    exact items_of_le (limit_le_extend _ more) (itemsLocal.extends areRead notEnd more)

theorem local_keepMember {reader : Reader Json} (isLocal : Local reader)
    (gathered : List (String × Json)) (name : String) : Local (keepMember reader gathered name) :=
  isLocal.bind fun _ => local_pure _

theorem local_transcript (levels : Nat) : Local (transcript levels) := by
  induction levels with
  | zero => exact local_valueWith (local_failAhead _) (local_failAhead _)
  | succ levels inductionHypothesis =>
      refine local_valueWith ?lists ?objects
      case lists => exact (delimited_list inductionHypothesis).local.bind fun _ => local_pure _
      case objects => exact (delimited_object (local_keepMember inductionHypothesis)).local

/-- An object is read the same from every text that goes on. -/
theorem transcript_object_extend {levels : Nat} {cursor behind : Cursor}
    {documents : List (String × Json)}
    (isRead : transcript levels cursor = .ok (.object documents, behind)) (more : List Char) :
    transcript levels (cursor.extend more) = .ok (.object documents, behind.extend more) := by
  obtain ⟨lower, closing, rfl, isBrace, areRead, rfl⟩ := members_of_transcript isRead
  have isExtended := afterBlanks_extend (ne_nil_of_head? isBrace) more
  have isBraceExtended : (cursor.extend more).afterBlanks.rest.head? = some '\x7b' := by
    rw [isExtended, Cursor.extend, List.head?_append, isBrace, Option.some_or]
  have isObject : object [] (keepMember (transcript lower))
      (fun gathered => .ok (Json.object gathered)) cursor.afterBlanks =
        .ok (.object documents, closing.next) :=
    object_eq_ok_iff.mpr ⟨documents, closing, areRead, rfl, rfl⟩
  refine valueWith_eq_ok_iff.mpr ⟨_, isBraceExtended, ?_⟩
  rw [isExtended, if_neg (by decide), if_pos rfl]
  exact (delimited_object (local_keepMember (local_transcript lower)) _ _ _ isObject).2 more

end Reader

end FormSchema
