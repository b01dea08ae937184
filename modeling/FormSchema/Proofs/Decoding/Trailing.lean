import FormSchema.Proofs.Decoding.Skipping

/-!
# Blanks behind a document

A blank at the end of a text does not matter: with it and without it, either the same document is
read, or none.  The two runs are compared reader by reader.  They stay `Alike` as long as the blank
lies ahead in one of them, and a reader that looks for the next part behind blanks finds the end of
the text in both.
-/

namespace FormSchema

namespace StringText

variable {text blanks characters : List Char} {position : Position} {behind : Cursor}

/-- Nothing among blanks closes a string. -/
theorem not_quoted_of_blank (areBlank : ∀ c ∈ blanks, Reader.isBlank c = true) :
    ¬ Quoted blanks position characters behind := by
  intro isQuoted
  induction isQuoted with
  | close => exact absurd (areBlank '"' List.mem_cons_self) (by decide)
  | plain _ _ _ _ inductionHypothesis =>
      exact inductionHypothesis fun c isInside => areBlank c (List.mem_cons_of_mem _ isInside)
  | simple | unit | pair => exact absurd (areBlank '\\' List.mem_cons_self) (by decide)

/-- As a string goes on behind its first characters, these are no blanks behind the text. -/
theorem Quoted.front_of_blank {rest : List Char} (inside : Quoted rest position characters behind)
    (areBlank : ∀ c ∈ blanks, Reader.isBlank c = true) (front : List Char)
    (same : front ++ rest = text ++ blanks) :
    ∃ before, text = front ++ before ∧ rest = before ++ blanks := by
  obtain before | ⟨others, -, rfl⟩ := List.append_eq_append_iff.mp same
  · exact before
  · have restBlank : ∀ c ∈ rest, Reader.isBlank c = true := fun c isInside =>
      areBlank c (List.mem_append_right others isInside)
    exact absurd inside (not_quoted_of_blank restBlank)

/-- A string that ends in a text with blanks behind it ends in the text. -/
theorem Quoted.retract (areBlank : ∀ c ∈ blanks, Reader.isBlank c = true)
    (isQuoted : Quoted (text ++ blanks) position characters behind) :
    ∃ closing, Quoted text position characters closing := by
  generalize isWhole : text ++ blanks = whole at isQuoted
  induction isQuoted generalizing text with
  | @close rest position =>
      cases text with
      | nil =>
          rw [List.nil_append] at isWhole
          exact absurd (areBlank '"' (isWhole ▸ List.mem_cons_self)) (by decide)
      | cons c before =>
          obtain ⟨rfl, -⟩ := List.cons.inj isWhole
          exact ⟨_, .close⟩
  | plain notQuote notEscape printable inside inductionHypothesis =>
      obtain ⟨before, rfl, isRest⟩ := inside.front_of_blank areBlank [_] isWhole.symm
      obtain ⟨closing, isQuoted⟩ := inductionHypothesis isRest.symm
      exact ⟨closing, .plain notQuote notEscape printable isQuoted⟩
  | simple isEscape inside inductionHypothesis =>
      obtain ⟨before, rfl, isRest⟩ := inside.front_of_blank areBlank [_, _] isWhole.symm
      obtain ⟨closing, isQuoted⟩ := inductionHypothesis isRest.symm
      exact ⟨closing, .simple isEscape isQuoted⟩
  | unit isUnit notLow notHigh inside inductionHypothesis =>
      obtain ⟨before, rfl, isRest⟩ :=
        inside.front_of_blank areBlank [_, _, _, _, _, _] isWhole.symm
      obtain ⟨closing, isQuoted⟩ := inductionHypothesis isRest.symm
      exact ⟨closing, .unit isUnit notLow notHigh isQuoted⟩
  | pair isUnit notLow isHigh isSecond isLow inside inductionHypothesis =>
      obtain ⟨before, rfl, isRest⟩ := inside.front_of_blank areBlank
        [_, _, _, _, _, _, _, _, _, _, _, _] isWhole.symm
      obtain ⟨closing, isQuoted⟩ := inductionHypothesis isRest.symm
      exact ⟨closing, .pair isUnit notLow isHigh isSecond isLow isQuoted⟩

end StringText

namespace Reader

variable {α β σ : Type} {blank : Char}

/-! ## Two runs -/

/-- Both runs fail, or both give the same, and the second one has the blank still ahead. -/
inductive Alike (blank : Char) :
    Except DecodeError (α × Cursor) → Except DecodeError (α × Cursor) → Prop
  | read (result : α) (behind : Cursor) :
      Alike blank (.ok (result, behind)) (.ok (result, behind.extend [blank]))
  | failed (error other : DecodeError) : Alike blank (.error error) (.error other)

/-- From every place in a text, the reader runs alike with the blank behind the text. -/
def Trailed (blank : Char) (reader : Reader α) : Prop :=
  ∀ cursor, Alike blank (reader cursor) (reader (cursor.extend [blank]))

/-- From every place in front of a character, the reader runs alike with the blank behind the
text. -/
def TrailedInside (blank : Char) (reader : Reader α) : Prop :=
  ∀ cursor, cursor.rest ≠ [] → Alike blank (reader cursor) (reader (cursor.extend [blank]))

section Rules

variable {reader : Reader α}

theorem Trailed.inside (trailed : Trailed blank reader) : TrailedInside blank reader :=
  fun cursor _ => trailed cursor

theorem trailed_pure (result : α) : Trailed blank (pure result) :=
  fun cursor => .read result cursor

/-- Readers that fail wherever they start run alike wherever they start. -/
theorem alike_of_fails {other : Reader α} (fails : Yields (fun _ => False) reader)
    (otherFails : Yields (fun _ => False) other) (cursor place : Cursor) :
    Alike blank (reader cursor) (other place) := by
  cases isRead : reader cursor with
  | ok outcome => exact (fails cursor outcome.1 outcome.2 isRead).elim
  | error error =>
      cases isOther : other place with
      | ok outcome => exact (otherFails place outcome.1 outcome.2 isOther).elim
      | error _ => exact .failed _ _

theorem trailed_of_fails (fails : Yields (fun _ => False) reader) : Trailed blank reader :=
  fun cursor => alike_of_fails fails fails cursor _

theorem Alike.exists_read {first : Except DecodeError (α × Cursor)} {result : α} {place : Cursor}
    (alike : Alike blank first (.ok (result, place))) :
    ∃ behind, first = .ok (result, behind) := by
  cases alike with
  | read _ behind => exact ⟨behind, rfl⟩

/-- What ends with a character of its own is read alike if no blank helps to read it. -/
theorem alike_of_delimited {cursor : Cursor} (delimited : Delimited reader)
    (retracts : ∀ result place, reader (cursor.extend [blank]) = .ok (result, place) →
      ∃ behind, reader cursor = .ok (result, behind)) :
    Alike blank (reader cursor) (reader (cursor.extend [blank])) := by
  cases isRead : reader cursor with
  | ok outcome =>
      rw [(delimited cursor outcome.1 outcome.2 isRead).2 [blank]]
      exact .read outcome.1 outcome.2
  | error error =>
      cases isOther : reader (cursor.extend [blank]) with
      | error other => exact .failed error other
      | ok outcome =>
          obtain ⟨behind, isRead_⟩ := retracts outcome.1 outcome.2 isOther
          cases isRead.symm.trans isRead_

/-- What comes next has to run alike from where the first reader ends. -/
theorem Alike.bind {first second : Except DecodeError (β × Cursor)} {next : β → Reader α}
    (alike : Alike blank first second)
    (nextAlike : ∀ between reached, first = .ok (between, reached) →
      Alike blank (next between reached) (next between (reached.extend [blank]))) :
    Alike blank (first >>= fun outcome => next outcome.1 outcome.2)
      (second >>= fun outcome => next outcome.1 outcome.2) := by
  cases alike with
  | read result behind => exact nextAlike result behind rfl
  | failed error other => exact .failed error other

theorem Trailed.bind_of_reached {first : Reader β} {next : β → Reader α}
    (firstTrailed : Trailed blank first)
    (nextAlike : ∀ cursor between reached, first cursor = .ok (between, reached) →
      Alike blank (next between reached) (next between (reached.extend [blank]))) :
    Trailed blank (first >>= next) :=
  fun cursor => (firstTrailed cursor).bind (nextAlike cursor)

theorem Trailed.bind {first : Reader β} {next : β → Reader α} (firstTrailed : Trailed blank first)
    (nextTrailed : ∀ between, Trailed blank (next between)) : Trailed blank (first >>= next) :=
  firstTrailed.bind_of_reached fun _ between reached _ => nextTrailed between reached

theorem TrailedInside.bind {first : Reader β} {next : β → Reader α}
    (firstTrailed : TrailedInside blank first)
    (nextTrailed : ∀ between, Trailed blank (next between)) :
    TrailedInside blank (first >>= next) :=
  fun cursor notEnd => (firstTrailed cursor notEnd).bind fun between reached _ =>
    nextTrailed between reached

theorem Alike.mapError {first second : Except DecodeError (α × Cursor)}
    (alike : Alike blank first second) (change : DecodeError → DecodeError) :
    Alike blank (first.mapError change) (second.mapError change) := by
  cases alike with
  | read result behind => exact .read result behind
  | failed error other => exact .failed _ _

theorem Trailed.under (trailed : Trailed blank reader) (step : PathStep) :
    Trailed blank (reader.under step) :=
  fun cursor => (trailed cursor).mapError _

/-- The position is no matter of what lies ahead. -/
theorem trailed_position {next : Position → Reader α}
    (nextTrailed : ∀ position, Trailed blank (next position)) :
    Trailed blank (get >>= fun cursor => next cursor.position) :=
  fun cursor => nextTrailed cursor.position cursor

theorem trailedInside_advance : TrailedInside blank advance := by
  intro cursor notEnd
  have unfolded (place : Cursor) : advance place = .ok ((), place.next) := rfl
  rw [unfolded, unfolded, next_extend notEnd]
  exact .read () cursor.next

/-- What is done with the next character is done alike if it is there.  At the end of the text the
blank is the next character, and is to be treated as no character. -/
theorem trailed_peek {next : Option Char → Reader α}
    (inside : ∀ c, TrailedInside blank (next (some c)))
    (atEnd : ∀ position, Alike blank (next none ⟨[], position⟩)
      (next (some blank) ⟨[blank], position⟩)) :
    Trailed blank (peek >>= next) := by
  rintro ⟨rest, position⟩
  rw [peek_bind, peek_bind]
  cases rest with
  | nil => exact atEnd position
  | cons c rest => exact inside c ⟨c :: rest, position⟩ (List.cons_ne_nil c rest)

theorem spanFrom_concat (test : Char → Bool) (fails : test blank = false) (text : List Char)
    (position : Position) :
    Cursor.spanFrom test (text ++ [blank]) position =
      ((Cursor.spanFrom test text position).1,
        (Cursor.spanFrom test text position).2.extend [blank]) := by
  induction text generalizing position with
  | nil => simp [Cursor.spanFrom, fails, Cursor.extend]
  | cons c rest inductionHypothesis =>
      by_cases passes : test c = true
      · simp only [Cursor.spanFrom, List.cons_append, if_pos passes, inductionHypothesis]
      · simp only [Cursor.spanFrom, List.cons_append, if_neg passes]
        rfl

theorem trailed_takeWhile (test : Char → Bool) (fails : test blank = false) :
    Trailed blank (takeWhile test) := by
  intro cursor
  have unfolded (place : Cursor) : takeWhile test place = .ok (place.span test) := rfl
  rw [unfolded, unfolded, Cursor.span, Cursor.span, Cursor.extend, spanFrom_concat test fails]
  exact .read _ _

end Rules

/-! ## Blanks between parts -/

section Blanks

variable (isBlank_ : isBlank blank = true)

include isBlank_

theorem spanFrom_concat_eq_nil {text : List Char} {position : Position}
    (atEnd : (Cursor.spanFrom isBlank text position).2.rest = []) :
    (Cursor.spanFrom isBlank (text ++ [blank]) position).2.rest = [] := by
  induction text generalizing position with
  | nil => simp [Cursor.spanFrom, isBlank_]
  | cons c rest inductionHypothesis =>
      by_cases passes : isBlank c = true
      · simp only [Cursor.spanFrom, List.cons_append, if_pos passes] at atEnd ⊢
        exact inductionHypothesis atEnd
      · simp only [Cursor.spanFrom, if_neg passes] at atEnd
        cases atEnd

/-- Behind blanks there is the end of the text, with the blank and without it. -/
theorem afterBlanks_extend_eq_nil_iff (cursor : Cursor) :
    (cursor.extend [blank]).afterBlanks.rest = [] ↔ cursor.afterBlanks.rest = [] := by
  constructor
  · intro atEnd
    by_contra notEnd
    rw [afterBlanks_extend notEnd, Cursor.extend] at atEnd
    exact notEnd (List.append_eq_nil_iff.mp atEnd).1
  · exact spanFrom_concat_eq_nil isBlank_

/-- Blanks are skipped alike if the end of the text is an error behind them. -/
theorem trailed_skipBlanks {next : Option Char → Reader α}
    (inside : ∀ c, TrailedInside blank (next (some c)))
    (fails : Yields (fun _ => False) (next none)) :
    Trailed blank (skipBlanks >>= fun _ => peek >>= next) := by
  intro cursor
  rw [skipBlanks_bind, skipBlanks_bind, peek_bind, peek_bind]
  by_cases notEnd : cursor.afterBlanks.rest = []
  · rw [notEnd, (afterBlanks_extend_eq_nil_iff isBlank_ cursor).mpr notEnd]
    exact alike_of_fails fails fails _ _
  · rw [afterBlanks_extend notEnd]
    obtain ⟨c, rest, isRest⟩ := List.exists_cons_of_ne_nil notEnd
    have same : (cursor.afterBlanks.extend [blank]).rest.head? = cursor.afterBlanks.rest.head? := by
      rw [Cursor.extend, isRest]
      rfl
    rw [same, isRest]
    exact inside c _ notEnd

/-! ## Words, strings and numbers -/

theorem blank_cases : blank = ' ' ∨ blank = '\t' ∨ blank = '\n' ∨ blank = '\r' := by
  simpa only [isBlank, Bool.or_eq_true, decide_eq_true_iff, or_assoc] using isBlank_

theorem isDigit_blank : blank.isDigit = false := by
  rcases blank_cases isBlank_ with rfl | rfl | rfl | rfl <;> rfl

theorem trailed_literal {word : List Char} (solid : ∀ c ∈ word, isBlank c = false) :
    Trailed blank (literal word) := by
  induction word with
  | nil => exact trailed_pure ()
  | cons expected others inductionHypothesis =>
      obtain ⟨isSolid, othersSolid⟩ := List.forall_mem_cons.mp solid
      refine trailed_peek (fun c => ?_) fun position => ?_
      · dsimp only
        split
        · exact trailedInside_advance.bind fun _ => inductionHypothesis othersSolid
        · exact (trailed_of_fails (yields_failAhead _)).inside
      · have unexpected : blank ≠ expected := by
          rintro rfl
          cases isSolid.symm.trans isBlank_
        simp only [if_neg unexpected]
        exact alike_of_fails (yields_failHere _) (yields_failAhead _) _ _

theorem trailed_string : Trailed blank string := by
  intro cursor
  refine alike_of_delimited delimited_string fun text place isRead => ?_
  obtain ⟨⟨characters, behind⟩, isBody, ⟨⟩⟩ := Attempt.bind_eq_ok_iff.mp isRead
  obtain ⟨inside, rfl, isQuoted⟩ := StringText.quoted_of_body isBody
  have areBlank : ∀ c ∈ [blank], isBlank c = true := List.forall_mem_singleton.mpr isBlank_
  obtain ⟨closing, isQuoted⟩ := isQuoted.retract areBlank
  exact ⟨closing, Attempt.bind_eq_ok_iff.mpr ⟨_, StringText.body_of_quoted isQuoted [], rfl⟩⟩

theorem trailed_digits : Trailed blank (takeWhile Char.isDigit) :=
  trailed_takeWhile _ (isDigit_blank isBlank_)

theorem trailed_wholeDigits : Trailed blank wholeDigits := by
  refine trailed_peek (fun c => ?_) fun position => ?_
  · split
    · exact (trailed_of_fails (yields_failHere _)).inside
    · refine trailedInside_advance.bind fun _ => trailed_peek (fun c => ?_) fun position => ?_
      · dsimp only
        split
        · exact (trailed_of_fails (yields_failAhead _)).inside
        · exact (trailed_pure _).inside
      · simp only [isDigit_blank isBlank_, Bool.false_eq_true, if_false]
        exact .read _ _
    · split
      · exact (trailed_digits isBlank_).inside
      · exact (trailed_of_fails (yields_failAhead _)).inside
  · rcases blank_cases isBlank_ with rfl | rfl | rfl | rfl <;>
      exact alike_of_fails (yields_failHere _) (yields_failAhead _) _ _

theorem trailed_fractionDigits : Trailed blank fractionDigits := by
  refine trailed_peek (fun c => ?_) fun position => ?_
  · split
    · refine trailedInside_advance.bind fun _ => (trailed_digits isBlank_).bind fun digits => ?_
      split
      · refine trailed_of_fails (yields_bind fun next => ?_)
        split
        · exact yields_failHere _
        · exact yields_failAhead _
      · exact trailed_pure _
    · exact (trailed_pure _).inside
  · rcases blank_cases isBlank_ with rfl | rfl | rfl | rfl <;> exact .read _ _

theorem trailed_exponentDigits : Trailed blank exponentDigits := by
  refine trailed_peek (fun c => ?_) fun position => ?_
  · dsimp only
    split
    · exact (trailed_digits isBlank_).inside
    · exact (trailed_of_fails (yields_failAhead _)).inside
  · simp only [isDigit_blank isBlank_, Bool.false_eq_true, if_false]
    exact alike_of_fails (yields_failHere _) (yields_failAhead _) _ _

theorem trailed_sign : Trailed blank sign := by
  refine trailed_peek (fun c => ?_) fun position => ?_
  · split
    · exact trailedInside_advance.bind fun _ => trailed_pure _
    · exact trailedInside_advance.bind fun _ => trailed_pure _
    · exact (trailed_pure _).inside
  · rcases blank_cases isBlank_ with rfl | rfl | rfl | rfl <;> exact .read _ _

theorem trailed_exponent : Trailed blank exponent := by
  refine trailed_peek (fun c => ?_) fun position => ?_
  · dsimp only
    split
    · refine trailedInside_advance.bind fun _ => (trailed_sign isBlank_).bind fun negative => ?_
      have digits (start : Position) :
          Trailed blank (do return some (⟨negative, ← exponentDigits⟩, start) :
            Reader (Option (Exponent × Position))) :=
        (trailed_exponentDigits isBlank_).bind fun digits => trailed_pure _
      exact trailed_position digits
    · exact (trailed_pure _).inside
  · rcases blank_cases isBlank_ with rfl | rfl | rfl | rfl <;> exact .read _ _

theorem trailed_number (negative : Bool) : Trailed blank (number negative) := by
  refine (trailed_wholeDigits isBlank_).bind fun whole => ?_
  refine (trailed_fractionDigits isBlank_).bind fun fraction => ?_
  refine (trailed_exponent isBlank_).bind fun exponent => ?_
  dsimp only
  split
  · exact trailed_pure _
  · exact trailed_of_fails (yields_failAt _ _)
  · exact trailed_of_fails (yields_failHere _)

theorem trailedInside_scalar (c : Char) : TrailedInside blank (scalar c) := by
  have word (rest : List Char) (solid : ∀ c ∈ rest, isBlank c = false) (value : Json) :
      TrailedInside blank (do advance; literal rest; return value : Reader Json) :=
    trailedInside_advance.bind fun _ => (trailed_literal isBlank_ solid).bind fun _ =>
      trailed_pure value
  unfold scalar
  split_ifs
  · exact word ['u', 'l', 'l'] (by simp [isBlank]) .null
  · exact word ['r', 'u', 'e'] (by simp [isBlank]) (.bool true)
  · exact word ['a', 'l', 's', 'e'] (by simp [isBlank]) (.bool false)
  · exact trailedInside_advance.bind fun _ => (trailed_number isBlank_ true).bind fun _ =>
      trailed_pure _
  · exact ((trailed_number isBlank_ false).bind fun _ => trailed_pure _).inside
  · exact trailedInside_advance.bind fun _ => (trailed_string isBlank_).bind fun _ =>
      trailed_pure _
  · exact (trailed_of_fails (yields_failAhead _)).inside

theorem trailed_valueWith {listReader objectReader : Reader Json}
    (lists : TrailedInside blank listReader) (objects : TrailedInside blank objectReader) :
    Trailed blank (valueWith listReader objectReader) := by
  refine trailed_skipBlanks isBlank_ (fun c => ?_) (yields_failHere _)
  dsimp only
  split
  · exact lists
  · split
    · exact objects
    · exact trailedInside_scalar isBlank_ c

/-! ## Lists and objects -/

theorem trailed_nextMember (first : Bool) : Trailed blank (nextMember first) := by
  refine trailed_skipBlanks isBlank_ (fun c => ?_) (yields_failHere _)
  split
  · exact (trailed_of_fails (yields_failHere _)).inside
  · exact (trailed_pure _).inside
  · split
    · split
      · exact (trailed_pure _).inside
      · exact (trailed_of_fails (yields_failAhead _)).inside
    · split
      · refine trailedInside_advance.bind fun _ => ?_
        refine trailed_skipBlanks isBlank_ (fun c => ?_) (yields_failHere _)
        split
        · exact (trailed_of_fails (yields_failHere _)).inside
        · exact (trailed_pure _).inside
        · exact (trailed_of_fails (yields_failAhead _)).inside
        · exact (trailed_of_fails (yields_failAhead _)).inside
      · exact (trailed_of_fails (yields_failAhead _)).inside

theorem trailed_nextName (first : Bool) : Trailed blank (nextName first) := by
  refine ((trailed_nextMember isBlank_ first).bind_of_reached ?_).under _
  intro cursor isMember opening isRead
  cases isMember with
  | false => exact trailed_pure none opening
  | true =>
      -- A member has been promised, so its opening quote lies ahead.
      obtain ⟨⟨⟩, -⟩ | ⟨-, isQuote, -⟩ := nextMember_cases isRead
      have isName : TrailedInside blank (do advance; return some (← string) : Reader _) :=
        trailedInside_advance.bind fun _ => (trailed_string isBlank_).bind fun _ => trailed_pure _
      exact isName opening (ne_nil_of_head? isQuote)

theorem trailed_colon : Trailed blank colon := by
  refine trailed_skipBlanks isBlank_ (fun c => ?_) (yields_failHere _)
  split
  · exact (trailed_of_fails (yields_failHere _)).inside
  · exact trailedInside_advance
  · exact (trailed_of_fails (yields_failAhead _)).inside

theorem trailed_nextItem (first : Bool) : Trailed blank (nextItem first) := by
  refine trailed_skipBlanks isBlank_ (fun c => ?_) (yields_failHere _)
  split
  · exact (trailed_of_fails (yields_failHere _)).inside
  · exact (trailed_pure _).inside
  · split
    · exact (trailed_pure _).inside
    · split
      · refine trailedInside_advance.bind fun _ => ?_
        refine trailed_skipBlanks isBlank_ (fun c => ?_) (yields_failHere _)
        split
        · exact (trailed_of_fails (yields_failHere _)).inside
        · exact (trailed_of_fails (yields_failAhead _)).inside
        · exact (trailed_pure _).inside
      · exact (trailed_of_fails (yields_failAhead _)).inside

theorem trailed_members {step : σ → String → Reader (Except DecodeError σ)}
    (stepTrailed : ∀ gathered name, Trailed blank (step gathered name)) (limit : Nat) (first : Bool)
    (gathered : σ) : Trailed blank (members step limit first gathered) := by
  induction limit generalizing first gathered with
  | zero => exact trailed_of_fails (yields_failHere _)
  | succ limit inductionHypothesis =>
      refine (trailed_nextName isBlank_ first).bind fun next => ?_
      split
      · exact trailed_pure _
      · refine (trailed_colon isBlank_).bind fun _ =>
          ((stepTrailed _ _).under _).bind fun outcome => ?_
        split
        · exact inductionHypothesis _ _
        · exact trailed_of_fails (yields_failObject _)

theorem trailed_items {item : Reader α} (itemTrailed : Trailed blank item) (limit position : Nat) :
    Trailed blank (items item limit position) := by
  induction limit generalizing position with
  | zero => exact trailed_of_fails (yields_failHere _)
  | succ limit inductionHypothesis =>
      refine (trailed_nextItem isBlank_ _).bind fun isItem => ?_
      split
      · exact (itemTrailed.under _).bind fun _ =>
          (inductionHypothesis _).bind fun _ => trailed_pure _
      · exact trailed_pure _

end Blanks

/-! ## Limits that are large enough -/

/-- The name of a member takes at least one character. -/
theorem nextName_shrinks {first : Bool} {name : String} {cursor behind : Cursor}
    (isRead : nextName first cursor = .ok (some name, behind)) :
    behind.rest.length < cursor.rest.length := by
  obtain ⟨⟨⟩, -⟩ | ⟨text, opening, -, isNext, isString⟩ := nextName_cases isRead
  obtain ⟨⟨⟩, -⟩ | ⟨-, isQuote, -⟩ := nextMember_cases isNext
  have moved := (local_nextMember first).shrinks isNext
  have quote := Cursor.length_next_lt isQuote
  have closed := delimited_string.local.shrinks isString
  omega

/-- One more than the characters ahead is enough for the members. -/
theorem members_of_enough {step : σ → String → Reader (Except DecodeError σ)}
    (stepLocal : ∀ gathered name, Local (step gathered name)) {limit larger : Nat} {first : Bool}
    {gathered result : σ} {cursor behind : Cursor}
    (isRead : members step larger first gathered cursor = .ok (result, behind))
    (enough : cursor.rest.length < limit) :
    members step limit first gathered cursor = .ok (result, behind) := by
  induction larger generalizing limit first gathered cursor with
  | zero => cases isRead
  | succ larger inductionHypothesis =>
      obtain ⟨limit, rfl⟩ := Nat.exists_eq_succ_of_ne_zero (Nat.ne_zero_of_lt enough)
      refine members_succ_eq_ok_iff.mpr ((members_succ_eq_ok_iff.mp isRead).imp_right ?_)
      rintro ⟨name, named, pointed, more, reached, isName, isColon, isStep, isRead⟩
      have nameShrinks := nextName_shrinks isName
      have colonShrinks := local_colon.shrinks isColon
      have stepShrinks := (stepLocal gathered name).shrinks isStep
      have enoughLeft : reached.rest.length < limit := by omega
      exact ⟨name, named, pointed, more, reached, isName, isColon, isStep,
        inductionHypothesis isRead enoughLeft⟩

/-- An item behind others takes at least its comma. -/
theorem nextItem_shrinks {cursor ahead : Cursor}
    (isNext : nextItem false cursor = .ok (true, ahead)) :
    ahead.rest.length < cursor.rest.length := by
  obtain ⟨⟨⟩, -⟩ | ⟨-, -, ⟨⟨⟩, -⟩ | ⟨-, isComma, rfl⟩⟩ := nextItem_cases isNext
  have blanks := cursor.length_afterBlanks_le
  have comma := Cursor.length_next_lt isComma
  have blanksBehind := cursor.afterBlanks.next.length_afterBlanks_le
  omega

/-- One more than the characters ahead is enough for the items, and as many as there are if other
items have been read: only the first item may take no character. -/
theorem items_of_enough {item : Reader α} (itemLocal : Local item) {limit larger position : Nat}
    {read : List α} {cursor behind : Cursor}
    (isRead : items item larger position cursor = .ok (read, behind))
    (enough : cursor.rest.length < limit + if position = 0 then 0 else 1) :
    items item limit position cursor = .ok (read, behind) := by
  induction larger generalizing limit position read cursor with
  | zero => cases isRead
  | succ larger inductionHypothesis =>
      have notEnd : cursor.rest ≠ [] := by
        obtain ⟨isNext, -⟩ | ⟨_, _, _, _, isNext, -⟩ := items_succ_eq_ok_iff.mp isRead
        · obtain ⟨-, -, isClosing⟩ | ⟨⟨⟩, -⟩ := nextItem_cases isNext
          exact (local_nextItem _).notEnd isNext (ne_nil_of_head? isClosing)
        · obtain ⟨⟨⟩, -⟩ | ⟨-, ⟨_, -, isItem⟩, -⟩ := nextItem_cases isNext
          exact (local_nextItem _).notEnd isNext (ne_nil_of_head? isItem)
      have positive := List.length_pos_iff.mpr notEnd
      have allowed : limit ≠ 0 := by
        split at enough <;> omega
      obtain ⟨limit, rfl⟩ := Nat.exists_eq_succ_of_ne_zero allowed
      refine items_succ_eq_ok_iff.mpr ((items_succ_eq_ok_iff.mp isRead).imp_right ?_)
      rintro ⟨ahead, first, reached, others, isNext, isFirst, areOthers, isRead⟩
      have itemShrinks := itemLocal.shrinks isFirst
      have enoughLeft : reached.rest.length < limit + 1 := by
        by_cases isStart : position = 0
        · have nextShrinks := (local_nextItem _).shrinks isNext
          rw [if_pos isStart] at enough
          omega
        · rw [decide_eq_false isStart] at isNext
          have nextShrinks := nextItem_shrinks isNext
          rw [if_neg isStart] at enough
          omega
      exact ⟨ahead, first, reached, others, isNext, isFirst,
        inductionHypothesis areOthers enoughLeft, isRead⟩

/-! ## Containers and whole texts -/

section Documents

variable (isBlank_ : isBlank blank = true)

include isBlank_

theorem trailedInside_list {item : Reader α} (itemLocal : Local item)
    (itemTrailed : Trailed blank item) : TrailedInside blank (list item) := by
  intro cursor notEnd
  refine alike_of_delimited (delimited_list itemLocal) fun read place isRead => ?_
  obtain ⟨closing, areRead, -⟩ := list_eq_ok_iff.mp isRead
  rw [next_extend notEnd] at areRead
  have alike := trailed_items isBlank_ itemTrailed
    ((cursor.next.extend [blank]).rest.length + 1) 0 cursor.next
  rw [areRead] at alike
  obtain ⟨closing, areRead⟩ := alike.exists_read
  exact ⟨closing.next, list_eq_ok_iff.mpr
    ⟨closing, items_of_enough itemLocal areRead (Nat.lt_succ_self _), rfl⟩⟩

theorem trailedInside_object {start : σ} {step : σ → String → Reader (Except DecodeError σ)}
    {finish : σ → Except DecodeError α} (stepLocal : ∀ gathered name, Local (step gathered name))
    (stepTrailed : ∀ gathered name, Trailed blank (step gathered name)) :
    TrailedInside blank (object start step finish) := by
  intro cursor notEnd
  refine alike_of_delimited (delimited_object stepLocal) fun read place isRead => ?_
  obtain ⟨gathered, closing, areRead, isResult, -⟩ := object_eq_ok_iff.mp isRead
  rw [next_extend notEnd] at areRead
  have alike := trailed_members isBlank_ stepTrailed
    ((cursor.next.extend [blank]).rest.length + 1) true start cursor.next
  rw [areRead] at alike
  obtain ⟨closing, areRead⟩ := alike.exists_read
  exact ⟨closing.next, object_eq_ok_iff.mpr ⟨gathered, closing,
    members_of_enough stepLocal areRead (Nat.lt_succ_self _), isResult, rfl⟩⟩

theorem trailed_transcript (levels : Nat) : Trailed blank (transcript levels) := by
  induction levels with
  | zero =>
      have fails : TrailedInside blank (tooDeep : Reader Json) :=
        (trailed_of_fails (yields_failAhead _)).inside
      exact trailed_valueWith isBlank_ fails fails
  | succ levels inductionHypothesis =>
      have isLocal := local_transcript levels
      refine trailed_valueWith isBlank_ ?lists ?objects
      case lists =>
        exact (trailedInside_list isBlank_ isLocal inductionHypothesis).bind fun _ => trailed_pure _
      case objects =>
        exact trailedInside_object isBlank_ (local_keepMember isLocal) fun _ _ =>
          inductionHypothesis.bind fun _ => trailed_pure _

/-- Behind a document there may be one blank more or less. -/
theorem finished_extend_iff (cursor : Cursor) :
    (∃ behind, finished (cursor.extend [blank]) = .ok ((), behind)) ↔
      ∃ behind, finished cursor = .ok ((), behind) := by
  have atEnd (place : Cursor) :
      (∃ behind, finished place = .ok ((), behind)) ↔ place.afterBlanks.rest = [] := by
    rw [finished, skipBlanks_bind, peek_bind]
    cases place.afterBlanks.rest with
    | nil => exact iff_of_true ⟨_, rfl⟩ rfl
    | cons c rest => exact iff_of_false nofun (List.cons_ne_nil c rest)
  rw [atEnd, atEnd, afterBlanks_extend_eq_nil_iff isBlank_]

end Documents

end Reader

namespace Json

/-- A blank at the end of a text does not matter for the document in it. -/
theorem read_concat_blank {blank : Char} (isBlank : Reader.isBlank blank = true)
    (text : List Char) (document : Json) :
    Json.read (String.ofList (text ++ [blank])) = .ok document ↔
      Json.read (String.ofList text) = .ok document := by
  have extended : Cursor.start (String.ofList (text ++ [blank])) =
      (Cursor.start (String.ofList text)).extend [blank] := by
    rw [Cursor.start_ofList, Cursor.start_ofList]
    rfl
  rw [Json.read_eq_merged, Json.read_eq_merged, Attempt.map_eq_ok_iff, Attempt.map_eq_ok_iff]
  refine exists_congr fun value => and_congr_left fun _ => ?_
  rw [transcript_eq_ok_iff, transcript_eq_ok_iff, extended]
  have alike := Reader.trailed_transcript isBlank Reader.nestingLimit
    (Cursor.start (String.ofList text))
  generalize Reader.transcript Reader.nestingLimit (Cursor.start (String.ofList text)) = plain,
    Reader.transcript Reader.nestingLimit ((Cursor.start (String.ofList text)).extend [blank]) =
      trailed at alike ⊢
  cases alike with
  | failed error other => exact iff_of_false (by rintro ⟨_, ⟨⟩, _⟩) (by rintro ⟨_, ⟨⟩, _⟩)
  | read result behind =>
      constructor
      · rintro ⟨_, ⟨⟩, isFinished⟩
        exact ⟨behind, rfl, (Reader.finished_extend_iff isBlank behind).mp isFinished⟩
      · rintro ⟨_, ⟨⟩, isFinished⟩
        exact ⟨_, rfl, (Reader.finished_extend_iff isBlank behind).mpr isFinished⟩

end Json

end FormSchema
