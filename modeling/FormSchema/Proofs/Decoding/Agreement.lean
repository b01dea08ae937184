import Mathlib.Data.List.Forall2
import FormSchema.Proofs.Decoding.Skipping

/-!
# Readers of particular kinds of values

A reader of one kind of value is described by the transcripts that it accepts: `Agrees` says that
it succeeds exactly on those, ends where they end, and what it gives.  The description of a reader
for lists or objects follows from those of the readers for the items, and for single members.
-/

namespace FormSchema.Reader

variable {α β σ : Type} {levels : Nat} {cursor behind : Cursor} {document : Json}

/-- Where a value can be read, the reader succeeds exactly if the value means something to it,
with the meaning as its result, and ends behind the value. -/
def Agrees (levels : Nat) (reader : Reader α) (means : Json → α → Prop) : Prop :=
  ∀ cursor document behind, transcript levels cursor = .ok (document, behind) →
    ∀ read reached, reader cursor = .ok (read, reached) ↔
      reached = behind ∧ means document read

theorem Agrees.congr {reader : Reader α} {means other : Json → α → Prop}
    (agrees : Agrees levels reader means)
    (same : ∀ document read, means document read ↔ other document read) :
    Agrees levels reader other :=
  fun cursor document behind isRead read reached =>
    (agrees cursor document behind isRead read reached).trans
      (and_congr_right fun _ => same document read)

/-! ## Scalars -/

/-- Behind its opening quote a string is read to its end. -/
theorem string_of_transcript (isQuote : cursor.afterBlanks.rest.head? = some '"')
    (isRead : transcript levels cursor = .ok (document, behind)) :
    ∃ text, document = .string text ∧ string cursor.afterBlanks.next = .ok (text, behind) := by
  have unfolded : scalar '"' = do advance; return .string (← string) := rfl
  have isRead := scalar_of_transcript isQuote (by decide) (by decide) isRead
  rw [unfolded, advance_bind] at isRead
  obtain ⟨text, _, isString, isRead⟩ := bind_eq_ok_iff.mp isRead
  cases isRead
  exact ⟨text, rfl, isString⟩

/-- Behind its first character a word is read to its end. -/
theorem word_of_transcript {c : Char} {word : List Char} {value : Json}
    (isNext : cursor.afterBlanks.rest.head? = some c) (notBracket : c ≠ '[')
    (notBrace : c ≠ '\x7b') (isWord : scalar c = do advance; literal word; return value)
    (isRead : transcript levels cursor = .ok (document, behind)) :
    document = value ∧ literal word cursor.afterBlanks.next = .ok ((), behind) := by
  have isRead := scalar_of_transcript isNext notBracket notBrace isRead
  rw [isWord, advance_bind] at isRead
  obtain ⟨_, _, isLiteral, isRead⟩ := bind_eq_ok_iff.mp isRead
  cases isRead
  exact ⟨rfl, isLiteral⟩

theorem agrees_stringValue (expected : Expected) :
    Agrees levels (stringValue expected) fun document text => document = .string text := by
  intro cursor document behind isRead read reached
  obtain ⟨c, isNext, begins⟩ := begins_of_transcript isRead
  rw [stringValue, skipBlanks_bind, peek_bind]
  by_cases isQuote : cursor.afterBlanks.rest.head? = some '"'
  · obtain ⟨text, rfl, isString⟩ := string_of_transcript isQuote isRead
    rw [if_pos isQuote, advance_bind, isString]
    constructor
    · rintro ⟨⟩
      exact ⟨rfl, rfl⟩
    · rintro ⟨rfl, ⟨⟩⟩
      rfl
  · rw [if_neg isQuote]
    refine iff_of_false wrongKind_ne_ok ?_
    rintro ⟨-, rfl⟩
    cases begins
    exact isQuote isNext

theorem agrees_booleanValue (expected : Expected) :
    Agrees levels (booleanValue expected) fun document truth => document = .bool truth := by
  intro cursor document behind isRead read reached
  obtain ⟨c, isNext, begins⟩ := begins_of_transcript isRead
  rw [booleanValue, skipBlanks_bind, peek_bind]
  dsimp only
  have literalRead {word : List Char} {truth : Bool}
      (isLiteral : literal word cursor.afterBlanks.next = .ok ((), behind)) :
      (do advance; literal word; return truth : Reader Bool) cursor.afterBlanks =
          .ok (read, reached) ↔
        reached = behind ∧ Json.bool truth = .bool read := by
    rw [advance_bind, bind_eq_ok_iff, isLiteral]
    constructor
    · rintro ⟨_, _, ⟨⟩, ⟨⟩⟩
      exact ⟨rfl, rfl⟩
    · rintro ⟨rfl, ⟨⟩⟩
      exact ⟨(), reached, rfl, rfl⟩
  by_cases isTrue : cursor.afterBlanks.rest.head? = some 't'
  · obtain ⟨rfl, isLiteral⟩ := word_of_transcript isTrue (by decide) (by decide) rfl isRead
    rw [if_pos isTrue]
    exact literalRead isLiteral
  · rw [if_neg isTrue]
    by_cases isFalse : cursor.afterBlanks.rest.head? = some 'f'
    · obtain ⟨rfl, isLiteral⟩ := word_of_transcript isFalse (by decide) (by decide) rfl isRead
      rw [if_pos isFalse]
      exact literalRead isLiteral
    · rw [if_neg isFalse]
      refine iff_of_false wrongKind_ne_ok ?_
      rintro ⟨-, rfl⟩
      cases begins
      · exact isTrue isNext
      · exact isFalse isNext

theorem agrees_nullValue (expected : Expected) :
    Agrees levels (nullValue expected) fun document _ => document = .null := by
  intro cursor document behind isRead read reached
  obtain ⟨c, isNext, begins⟩ := begins_of_transcript isRead
  rw [nullValue, skipBlanks_bind, peek_bind]
  by_cases isNull : cursor.afterBlanks.rest.head? = some 'n'
  · obtain ⟨rfl, isLiteral⟩ := word_of_transcript isNull (by decide) (by decide) rfl isRead
    rw [if_pos isNull, advance_bind, isLiteral]
    constructor
    · rintro ⟨⟩
      exact ⟨rfl, rfl⟩
    · rintro ⟨rfl, -⟩
      rfl
  · rw [if_neg isNull]
    refine iff_of_false wrongKind_ne_ok ?_
    rintro ⟨-, rfl⟩
    cases begins
    exact isNull isNext

/-- Skipping accepts every value. -/
theorem agrees_skipValue : Agrees levels skipValue fun _ _ => True := by
  intro cursor document behind isRead read reached
  rw [skipValue_of_transcript isRead]
  constructor
  · rintro ⟨⟩
    exact ⟨rfl, trivial⟩
  · rintro ⟨rfl, -⟩
    rfl

/-! ## Lists -/

/-- A reader for the items describes a reader for the list, item by item. -/
theorem items_agree {item : Reader α} {means : Json → α → Prop} (agrees : Agrees levels item means)
    {limit position : Nat} {documents : List Json} {closing : Cursor}
    (areRead : items (transcript levels) limit position cursor = .ok (documents, closing))
    (read : List α) (reached : Cursor) :
    items item limit position cursor = .ok (read, reached) ↔
      reached = closing ∧ List.Forall₂ means documents read := by
  induction limit generalizing position cursor documents read with
  | zero => cases areRead
  | succ limit inductionHypothesis =>
      rw [items_succ_eq_ok_iff]
      obtain ⟨isNext, rfl⟩ | ⟨ahead, document, behind, others, isNext, isItem, areOthers, rfl⟩ :=
        items_succ_eq_ok_iff.mp areRead
      · rw [isNext, List.forall₂_nil_left_iff]
        constructor
        · rintro (⟨⟨⟩, rfl⟩ | ⟨_, _, _, _, ⟨⟩, -⟩)
          exact ⟨rfl, rfl⟩
        · rintro ⟨rfl, rfl⟩
          exact .inl ⟨rfl, rfl⟩
      · rw [isNext, List.forall₂_cons_left_iff]
        constructor
        · rintro (⟨⟨⟩, -⟩ | ⟨_, first, _, rest, ⟨⟩, isFirst, areRest, rfl⟩)
          obtain ⟨rfl, isMeaning⟩ := (agrees _ _ _ isItem first _).mp isFirst
          obtain ⟨rfl, areMeanings⟩ := (inductionHypothesis areOthers _).mp areRest
          exact ⟨rfl, first, rest, isMeaning, areMeanings, rfl⟩
        · rintro ⟨rfl, first, rest, isMeaning, areMeanings, rfl⟩
          exact .inr ⟨ahead, first, behind, rest, rfl,
            (agrees _ _ _ isItem first _).mpr ⟨rfl, isMeaning⟩,
            (inductionHypothesis areOthers _).mpr ⟨rfl, areMeanings⟩, rfl⟩

theorem agrees_stringList (levels : Nat) (expected : Expected) :
    Agrees levels (stringList levels expected) fun document texts =>
      document = .ofStrings texts := by
  intro cursor document behind isRead read reached
  obtain ⟨c, isNext, begins⟩ := begins_of_transcript isRead
  rw [stringList, skipBlanks_bind, peek_bind]
  by_cases isBracket : cursor.afterBlanks.rest.head? = some '['
  · rw [if_pos isBracket]
    rw [isBracket] at isNext
    cases isNext
    cases begins with
    | number isNumber => exact absurd isNumber (by decide)
    | array documents =>
        obtain ⟨lower, closing, rfl, -, areRead, rfl⟩ := items_of_transcript isRead
        have texts : List.Forall₂ (fun document text => document = Json.string text) documents
            read ↔ Json.array documents = .ofStrings read := by
          rw [Json.ofStrings, Json.array.injEq, ← List.forall₂_eq_eq_eq, List.forall₂_map_right_iff]
        rw [if_neg (Nat.succ_ne_zero lower), list_eq_ok_iff]
        have agree := items_agree (agrees_stringValue .string) areRead read
        constructor
        · rintro ⟨_, areStrings, rfl⟩
          obtain ⟨rfl, same⟩ := (agree _).mp areStrings
          exact ⟨rfl, texts.mp same⟩
        · rintro ⟨rfl, same⟩
          exact ⟨closing, (agree _).mpr ⟨rfl, texts.mpr same⟩, rfl⟩
  · rw [if_neg isBracket]
    refine iff_of_false wrongKind_ne_ok ?_
    rintro ⟨-, rfl⟩
    cases begins
    exact isBracket isNext

/-! ## Objects -/

/-- What is gathered from members, one after the other. -/
def Gathered (accepts : σ → String → Json → σ → Prop) (start : σ) :
    List (String × Json) → σ → Prop
  | [], last => last = start
  | (name, document) :: rest, last =>
      ∃ more, accepts start name document more ∧ Gathered accepts more rest last

/-- Where the value of a member can be read, the step succeeds exactly if it accepts the value,
and ends behind it. -/
def StepAgrees (levels : Nat) (step : σ → String → Reader (Except DecodeError σ))
    (accepts : σ → String → Json → σ → Prop) : Prop :=
  ∀ cursor document behind, transcript levels cursor = .ok (document, behind) →
    ∀ gathered name more reached, step gathered name cursor = .ok (.ok more, reached) ↔
      reached = behind ∧ accepts gathered name document more

section Objects

variable {step : σ → String → Reader (Except DecodeError σ)}
  {accepts : σ → String → Json → σ → Prop}

/-- A step for single members describes a reader for all of them. -/
theorem members_agree (agrees : StepAgrees levels step accepts) {limit : Nat} {first : Bool}
    {before documents : List (String × Json)} {closing : Cursor}
    (areRead : members (keepMember (transcript levels)) limit first before cursor =
      .ok (documents, closing)) :
    ∃ added, documents = before ++ added ∧ ∀ gathered result reached,
      members step limit first gathered cursor = .ok (result, reached) ↔
        reached = closing ∧ Gathered accepts gathered added result := by
  induction limit generalizing first before cursor with
  | zero => cases areRead
  | succ limit inductionHypothesis =>
      obtain ⟨isName, rfl⟩ |
        ⟨name, named, pointed, more, behind, isName, isColon, isStep, areOthers⟩ :=
        members_succ_eq_ok_iff.mp areRead
      · refine ⟨[], (List.append_nil _).symm, fun gathered result reached => ?_⟩
        rw [members_succ_eq_ok_iff, isName]
        constructor
        · rintro (⟨⟨⟩, rfl⟩ | ⟨_, _, _, _, _, ⟨⟩, -⟩)
          exact ⟨rfl, rfl⟩
        · rintro ⟨rfl, rfl⟩
          exact .inl ⟨rfl, rfl⟩
      · obtain ⟨document, isDocument, rfl⟩ := keepMember_eq_ok_iff.mp isStep
        obtain ⟨added, rfl, others⟩ := inductionHypothesis areOthers
        refine ⟨(name, document) :: added, by rw [List.append_assoc, List.singleton_append],
          fun gathered result reached => ?_⟩
        rw [members_succ_eq_ok_iff, isName]
        constructor
        · rintro (⟨⟨⟩, -⟩ | ⟨_, _, place, more, _, ⟨⟩, isPlace, isStep, isRead⟩)
          rw [isColon] at isPlace
          cases isPlace
          obtain ⟨rfl, isAccepted⟩ := (agrees _ _ _ isDocument _ _ _ _).mp isStep
          obtain ⟨rfl, areGathered⟩ := (others _ _ _).mp isRead
          exact ⟨rfl, more, isAccepted, areGathered⟩
        · rintro ⟨rfl, more, isAccepted, areGathered⟩
          exact .inr ⟨name, named, pointed, more, behind, rfl, isColon,
            (agrees _ _ _ isDocument _ _ _ _).mpr ⟨rfl, isAccepted⟩,
            (others _ _ _).mpr ⟨rfl, areGathered⟩⟩

theorem objectOr_eq_ok_iff {expected : Expected} {reader : Reader α} {read : α} :
    objectOr expected reader cursor = .ok (read, behind) ↔
      cursor.afterBlanks.rest.head? = some '\x7b' ∧
        reader cursor.afterBlanks = .ok (read, behind) := by
  rw [objectOr, skipBlanks_bind, peek_bind]
  by_cases isBrace : cursor.afterBlanks.rest.head? = some '\x7b'
  · rw [if_pos isBrace]
    exact (and_iff_right isBrace).symm
  · rw [if_neg isBrace]
    exact iff_of_false wrongKind_ne_ok fun isRead => isBrace isRead.1

/-- A step for single members describes a reader for objects. -/
theorem agrees_object (accepts : σ → String → Json → σ → Prop)
    (agrees : StepAgrees levels step accepts) {start : σ}
    {finish : σ → Except DecodeError α} (expected : Expected) :
    Agrees (levels + 1) (objectOr expected (object start step finish)) fun document read =>
      ∃ documents last, document = .object documents ∧ Gathered accepts start documents last ∧
        finish last = .ok read := by
  intro cursor document behind isRead read reached
  rw [objectOr_eq_ok_iff]
  constructor
  · rintro ⟨isBrace, isResult⟩
    obtain ⟨c, isNext, begins⟩ := begins_of_transcript isRead
    rw [isBrace] at isNext
    cases isNext
    cases begins with
    | number isNumber => exact absurd isNumber (by decide)
    | object documents =>
        obtain ⟨_, closing, ⟨⟩, -, areRead, rfl⟩ := members_of_transcript isRead
        obtain ⟨_, rfl, same⟩ := members_agree agrees areRead
        obtain ⟨last, place, areGathered, isFinished, rfl⟩ := object_eq_ok_iff.mp isResult
        obtain ⟨rfl, areGathered⟩ := (same _ _ _).mp areGathered
        exact ⟨rfl, documents, last, rfl, areGathered, isFinished⟩
  · rintro ⟨rfl, documents, last, rfl, areGathered, isFinished⟩
    obtain ⟨_, closing, ⟨⟩, isBrace, areRead, rfl⟩ := members_of_transcript isRead
    obtain ⟨_, rfl, same⟩ := members_agree agrees areRead
    exact ⟨isBrace, object_eq_ok_iff.mpr ⟨last, closing, (same _ _ _).mpr ⟨rfl, areGathered⟩,
      isFinished, rfl⟩⟩

/-- No object can be read where no container may be open. -/
theorem agrees_tooDeep {means : Json → α → Prop}
    (objects : ∀ document read, means document read → ∃ documents, document = .object documents)
    (expected : Expected) : Agrees 0 (objectOr expected tooDeep) means := by
  intro cursor document behind isRead read reached
  refine iff_of_false (fun isResult => ?_) ?_
  · obtain ⟨-, isResult⟩ := objectOr_eq_ok_iff.mp isResult
    cases isResult
  · rintro ⟨-, isMeaning⟩
    obtain ⟨documents, rfl⟩ := objects document read isMeaning
    obtain ⟨_, _, ⟨⟩, -⟩ := members_of_transcript isRead

end Objects

end FormSchema.Reader
