import FormSchema.Proofs.Decoding.Yields

/-!
# The punctuation of lists and objects

What it takes for a list or an object to be read, part by part: which characters lie ahead when
there is another item or member and when there is none, and what is read of each member before
the next one.
-/

namespace FormSchema

namespace Cursor

/-- The place behind the blanks ahead. -/
def afterBlanks (cursor : Cursor) : Cursor :=
  (cursor.span Reader.isBlank).2

/-- The place behind the next character. -/
def next (cursor : Cursor) : Cursor :=
  match cursor.rest with
  | [] => cursor
  | c :: rest => ⟨rest, cursor.position.after c⟩

end Cursor

namespace Reader

variable {α β σ : Type} {cursor behind : Cursor}

theorem skipBlanks_bind (continuation : Unit → Reader α) (cursor : Cursor) :
    (skipBlanks >>= continuation) cursor = continuation () cursor.afterBlanks :=
  rfl

theorem peek_bind (continuation : Option Char → Reader α) (cursor : Cursor) :
    (peek >>= continuation) cursor = continuation cursor.rest.head? cursor :=
  rfl

theorem advance_bind (continuation : Unit → Reader α) (cursor : Cursor) :
    (advance >>= continuation) cursor = continuation () cursor.next :=
  rfl

theorem bind_eq_ok_iff {first : Reader β} {continuation : β → Reader α} {result : α} :
    (first >>= continuation) cursor = .ok (result, behind) ↔
      ∃ between reached, first cursor = .ok (between, reached) ∧
        continuation between reached = .ok (result, behind) :=
  Attempt.bind_eq_ok_iff.trans Prod.exists

theorem under_eq_ok_iff {reader : Reader α} {step : PathStep} {result : α} :
    reader.under step cursor = .ok (result, behind) ↔ reader cursor = .ok (result, behind) :=
  Attempt.mapError_eq_ok_iff

theorem pure_eq_ok_iff {value result : α} :
    (pure value : Reader α) cursor = .ok (result, behind) ↔ result = value ∧ behind = cursor := by
  constructor
  · rintro ⟨⟩
    exact ⟨rfl, rfl⟩
  · rintro ⟨rfl, rfl⟩
    rfl

theorem failObject_ne_ok {error : DecodeError} {result : α} :
    failObject error cursor ≠ .ok (result, behind) := by
  have fails : Yields (fun _ => False) (failObject error : Reader α) := yields_failObject error
  exact fails cursor result behind

theorem wrongKind_ne_ok {expected : Expected} {result : α} :
    wrongKind expected cursor ≠ .ok (result, behind) := by
  have fails : Yields (fun _ => False) (wrongKind expected : Reader α) := yields_wrongKind expected
  exact fails cursor result behind

/-- The first character of a value, behind blanks, says what kind of value it is. -/
theorem valueWith_eq_ok_iff {listReader objectReader : Reader Json} {read : Json} :
    valueWith listReader objectReader cursor = .ok (read, behind) ↔
      ∃ c, cursor.afterBlanks.rest.head? = some c ∧
        (if c = '[' then listReader else if c = '\x7b' then objectReader else scalar c)
          cursor.afterBlanks = .ok (read, behind) := by
  rw [valueWith, skipBlanks_bind, peek_bind]
  cases cursor.afterBlanks.rest.head? with
  | none => exact iff_of_false nofun (by rintro ⟨_, ⟨⟩, _⟩)
  | some c => simp only [Option.some.injEq, exists_eq_left']

/-! ## Is there another one? -/

/-- Before a member there is its opening quote, with a comma in front of it unless it is the
first one.  There is no other member if there is a closing brace. -/
theorem nextMember_cases {first isMember : Bool} {cursor behind : Cursor}
    (isRead : nextMember first cursor = .ok (isMember, behind)) :
    (isMember = false ∧ behind = cursor.afterBlanks ∧ behind.rest.head? = some '\x7d') ∨
    (isMember = true ∧ behind.rest.head? = some '"' ∧
      ((first = true ∧ behind = cursor.afterBlanks) ∨
        (first = false ∧ cursor.afterBlanks.rest.head? = some ',' ∧
          behind = cursor.afterBlanks.next.afterBlanks))) := by
  rw [nextMember, skipBlanks_bind, peek_bind] at isRead
  generalize isNext : cursor.afterBlanks.rest.head? = next at isRead
  cases first with
  | true =>
      simp only [if_true] at isRead
      split at isRead
      · cases isRead
      · cases isRead
        exact .inl ⟨rfl, rfl, isNext⟩
      · split at isRead
        · rename_i isQuote
          cases isRead
          exact .inr ⟨rfl, isQuote ▸ isNext, .inl ⟨rfl, rfl⟩⟩
        · cases isRead
  | false =>
      simp only [Bool.false_eq_true, if_false] at isRead
      split at isRead
      · cases isRead
      · cases isRead
        exact .inl ⟨rfl, rfl, isNext⟩
      · split at isRead
        · rename_i isComma
          rw [advance_bind, skipBlanks_bind, peek_bind] at isRead
          generalize isSecond : cursor.afterBlanks.next.afterBlanks.rest.head? = second at isRead
          split at isRead
          · cases isRead
          · cases isRead
            exact .inr ⟨rfl, isSecond, .inr ⟨rfl, congrArg some isComma, rfl⟩⟩
          · cases isRead
          · cases isRead
        · cases isRead

/-- Before an item there is a character that does not close the list, with a comma in front of
it unless it is the first one.  There is no other item if there is a closing bracket. -/
theorem nextItem_cases {first isItem : Bool} {cursor behind : Cursor}
    (isRead : nextItem first cursor = .ok (isItem, behind)) :
    (isItem = false ∧ behind = cursor.afterBlanks ∧ behind.rest.head? = some ']') ∨
    (isItem = true ∧ (∃ c, c ≠ ']' ∧ behind.rest.head? = some c) ∧
      ((first = true ∧ behind = cursor.afterBlanks) ∨
        (first = false ∧ cursor.afterBlanks.rest.head? = some ',' ∧
          behind = cursor.afterBlanks.next.afterBlanks))) := by
  rw [nextItem, skipBlanks_bind, peek_bind] at isRead
  generalize isNext : cursor.afterBlanks.rest.head? = next at isRead
  cases first with
  | true =>
      simp only [if_true] at isRead
      split at isRead
      · cases isRead
      · cases isRead
        exact .inl ⟨rfl, rfl, isNext⟩
      · rename_i c notClosing
        cases isRead
        exact .inr ⟨rfl, ⟨c, notClosing, isNext⟩, .inl ⟨rfl, rfl⟩⟩
  | false =>
      simp only [Bool.false_eq_true, if_false] at isRead
      split at isRead
      · cases isRead
      · cases isRead
        exact .inl ⟨rfl, rfl, isNext⟩
      · split at isRead
        · rename_i isComma
          rw [advance_bind, skipBlanks_bind, peek_bind] at isRead
          generalize isSecond : cursor.afterBlanks.next.afterBlanks.rest.head? = second at isRead
          split at isRead
          · cases isRead
          · cases isRead
          · rename_i c notClosing
            cases isRead
            exact .inr ⟨rfl, ⟨c, notClosing, isSecond⟩, .inr ⟨rfl, congrArg some isComma, rfl⟩⟩
        · cases isRead

/-- The name of a member stands between quotes. -/
theorem nextName_cases {first : Bool} {name : Option String}
    (isRead : nextName first cursor = .ok (name, behind)) :
    (name = none ∧ nextMember first cursor = .ok (false, behind)) ∨
    ∃ text opening, name = some text ∧ nextMember first cursor = .ok (true, opening) ∧
      string opening.next = .ok (text, behind) := by
  obtain ⟨isMember, opening, isNext, isRead⟩ := bind_eq_ok_iff.mp (under_eq_ok_iff.mp isRead)
  cases isMember with
  | false =>
      obtain ⟨rfl, rfl⟩ := pure_eq_ok_iff.mp isRead
      exact .inl ⟨rfl, isNext⟩
  | true =>
      rw [if_pos rfl, advance_bind] at isRead
      obtain ⟨text, _, isString, isRead⟩ := bind_eq_ok_iff.mp isRead
      obtain ⟨rfl, rfl⟩ := pure_eq_ok_iff.mp isRead
      exact .inr ⟨text, opening, rfl, isNext, isString⟩

/-! ## Members -/

section Members

variable {step : σ → String → Reader (Except DecodeError σ)} {limit : Nat} {first : Bool}
  {gathered result : σ}

/-- There are no more members, or one is read and then the rest. -/
theorem members_succ_eq_ok_iff :
    members step (limit + 1) first gathered cursor = .ok (result, behind) ↔
      (nextName first cursor = .ok (none, behind) ∧ result = gathered) ∨
      ∃ name named pointed more reached, nextName first cursor = .ok (some name, named) ∧
        colon named = .ok ((), pointed) ∧
        step gathered name pointed = .ok (.ok more, reached) ∧
        members step limit false more reached = .ok (result, behind) := by
  rw [members, bind_eq_ok_iff]
  constructor
  · rintro ⟨next, named, isName, isRead⟩
    cases next with
    | none =>
        obtain ⟨rfl, rfl⟩ := pure_eq_ok_iff.mp isRead
        exact .inl ⟨isName, rfl⟩
    | some name =>
        obtain ⟨_, pointed, isColon, isRead⟩ := bind_eq_ok_iff.mp isRead
        obtain ⟨outcome, reached, isStep, isRead⟩ := bind_eq_ok_iff.mp isRead
        cases outcome with
        | ok more =>
            exact .inr ⟨name, named, pointed, more, reached, isName, isColon,
              under_eq_ok_iff.mp isStep, isRead⟩
        | error error => exact absurd isRead failObject_ne_ok
  · rintro (⟨isName, rfl⟩ | ⟨name, named, pointed, more, reached, isName, isColon, isStep, isRead⟩)
    · exact ⟨none, behind, isName, rfl⟩
    · exact ⟨some name, named, isName, bind_eq_ok_iff.mpr ⟨(), pointed, isColon,
        bind_eq_ok_iff.mpr ⟨.ok more, reached, under_eq_ok_iff.mpr isStep, isRead⟩⟩⟩

/-- Behind the members there is the closing brace. -/
theorem head?_of_members
    (isRead : members step limit first gathered cursor = .ok (result, behind)) :
    behind.rest.head? = some '\x7d' := by
  induction limit generalizing first gathered cursor with
  | zero => cases isRead
  | succ limit inductionHypothesis =>
      obtain ⟨isName, -⟩ | ⟨name, _, _, _, _, -, -, -, isRead⟩ := members_succ_eq_ok_iff.mp isRead
      · obtain ⟨-, isNext⟩ | ⟨_, _, ⟨⟩, -⟩ := nextName_cases isName
        obtain ⟨-, -, isClosing⟩ | ⟨⟨⟩, -⟩ := nextMember_cases isNext
        exact isClosing
      · exact inductionHypothesis isRead

/-- More characters may be allowed than there are. -/
theorem members_of_le {larger : Nat} (le : limit ≤ larger)
    (isRead : members step limit first gathered cursor = .ok (result, behind)) :
    members step larger first gathered cursor = .ok (result, behind) := by
  induction limit generalizing larger first gathered cursor with
  | zero => cases isRead
  | succ limit inductionHypothesis =>
      obtain ⟨larger, rfl⟩ := Nat.exists_eq_add_of_le' (Nat.le_trans (Nat.le_add_left 1 limit) le)
      refine members_succ_eq_ok_iff.mpr ((members_succ_eq_ok_iff.mp isRead).imp_right ?_)
      rintro ⟨name, named, pointed, more, reached, isName, isColon, isStep, isRead⟩
      exact ⟨name, named, pointed, more, reached, isName, isColon, isStep,
        inductionHypothesis (Nat.succ_le_succ_iff.mp le) isRead⟩

/-- An object is its members between braces. -/
theorem object_eq_ok_iff {start : σ} {finish : σ → Except DecodeError α} {read : α} :
    object start step finish cursor = .ok (read, behind) ↔
      ∃ gathered closing,
        members step (cursor.next.rest.length + 1) true start cursor.next =
          .ok (gathered, closing) ∧
        finish gathered = .ok read ∧ behind = closing.next := by
  rw [object, advance_bind]
  have unfolded (continuation : Cursor → Reader α) (cursor : Cursor) :
      (get >>= continuation) cursor = continuation cursor cursor := rfl
  rw [unfolded, bind_eq_ok_iff]
  refine exists_congr fun gathered => exists_congr fun closing => and_congr_right fun _ => ?_
  cases finish gathered with
  | ok result =>
      refine pure_eq_ok_iff.trans (and_congr_left fun _ => ?_)
      rw [Except.ok.injEq, eq_comm]
  | error error => exact iff_of_false failObject_ne_ok nofun

end Members

/-! ## Items -/

section Items

variable {item : Reader α} {limit position : Nat} {read : List α}

/-- There are no more items, or one is read and then the rest. -/
theorem items_succ_eq_ok_iff :
    items item (limit + 1) position cursor = .ok (read, behind) ↔
      (nextItem (position = 0) cursor = .ok (false, behind) ∧ read = []) ∨
      ∃ ahead first reached others, nextItem (position = 0) cursor = .ok (true, ahead) ∧
        item ahead = .ok (first, reached) ∧
        items item limit (position + 1) reached = .ok (others, behind) ∧
        read = first :: others := by
  rw [items, bind_eq_ok_iff]
  constructor
  · rintro ⟨isItem, ahead, isNext, isRead⟩
    cases isItem with
    | false =>
        obtain ⟨rfl, rfl⟩ := pure_eq_ok_iff.mp isRead
        exact .inl ⟨isNext, rfl⟩
    | true =>
        obtain ⟨first, reached, isFirst, isRead⟩ := bind_eq_ok_iff.mp isRead
        obtain ⟨others, _, areOthers, isRead⟩ := bind_eq_ok_iff.mp isRead
        obtain ⟨rfl, rfl⟩ := pure_eq_ok_iff.mp isRead
        exact .inr ⟨ahead, first, reached, others, isNext, under_eq_ok_iff.mp isFirst, areOthers,
          rfl⟩
  · rintro (⟨isNext, rfl⟩ | ⟨ahead, first, reached, others, isNext, isFirst, areOthers, rfl⟩)
    · exact ⟨false, behind, isNext, rfl⟩
    · exact ⟨true, ahead, isNext, bind_eq_ok_iff.mpr ⟨first, reached, under_eq_ok_iff.mpr isFirst,
        bind_eq_ok_iff.mpr ⟨others, behind, areOthers, rfl⟩⟩⟩

/-- Behind the items there is the closing bracket. -/
theorem head?_of_items (isRead : items item limit position cursor = .ok (read, behind)) :
    behind.rest.head? = some ']' := by
  induction limit generalizing position cursor read with
  | zero => cases isRead
  | succ limit inductionHypothesis =>
      obtain ⟨isNext, -⟩ | ⟨_, _, _, _, -, -, areOthers, -⟩ := items_succ_eq_ok_iff.mp isRead
      · obtain ⟨-, -, isClosing⟩ | ⟨⟨⟩, -⟩ := nextItem_cases isNext
        exact isClosing
      · exact inductionHypothesis areOthers

/-- More characters may be allowed than there are. -/
theorem items_of_le {larger : Nat} (le : limit ≤ larger)
    (isRead : items item limit position cursor = .ok (read, behind)) :
    items item larger position cursor = .ok (read, behind) := by
  induction limit generalizing larger position cursor read with
  | zero => cases isRead
  | succ limit inductionHypothesis =>
      obtain ⟨larger, rfl⟩ := Nat.exists_eq_add_of_le' (Nat.le_trans (Nat.le_add_left 1 limit) le)
      refine items_succ_eq_ok_iff.mpr ((items_succ_eq_ok_iff.mp isRead).imp_right ?_)
      rintro ⟨ahead, first, reached, others, isNext, isFirst, areOthers, isRead⟩
      exact ⟨ahead, first, reached, others, isNext, isFirst,
        inductionHypothesis (Nat.succ_le_succ_iff.mp le) areOthers, isRead⟩

/-- A list is its items between brackets. -/
theorem list_eq_ok_iff :
    list item cursor = .ok (read, behind) ↔
      ∃ closing, items item (cursor.next.rest.length + 1) 0 cursor.next = .ok (read, closing) ∧
        behind = closing.next := by
  rw [list, advance_bind]
  have unfolded (continuation : Cursor → Reader (List α)) (cursor : Cursor) :
      (get >>= continuation) cursor = continuation cursor cursor := rfl
  rw [unfolded, bind_eq_ok_iff]
  constructor
  · rintro ⟨items, closing, areRead, isRead⟩
    obtain ⟨rfl, rfl⟩ := pure_eq_ok_iff.mp isRead
    exact ⟨closing, areRead, rfl⟩
  · rintro ⟨closing, areRead, rfl⟩
    exact ⟨read, closing, areRead, rfl⟩

end Items

end Reader

end FormSchema
