import FormSchema.Decoding.Skip
import FormSchema.Proofs.Decoding.Locality

/-!
# What can be read can be skipped

A value that nobody wants is skipped with the open containers on a stack, where a reader goes
into each container and comes back.  Skipping nevertheless ends where reading does, for every
value that can be read.

The proof follows the reader.  `Continues` says what skipping has still to do behind a value, for
whichever containers are open around it, and a value that is read takes skipping from its
beginning to its end.
-/

namespace FormSchema

/-- The character that opens a container. -/
def Bracket.opening : Bracket → Char
  | square => '['
  | curly => '\x7b'

namespace Cursor

theorem spanFrom_of_span (test : Char → Bool) (text : List Char) (position : Position) :
    spanFrom test (spanFrom test text position).2.rest (spanFrom test text position).2.position =
      ([], (spanFrom test text position).2) := by
  induction text generalizing position with
  | nil => rfl
  | cons c rest inductionHypothesis =>
      by_cases passes : test c = true
      · simp only [spanFrom, passes, if_true]
        exact inductionHypothesis (position.after c)
      · simp only [spanFrom, if_neg passes]

/-- Behind the blanks there are no more blanks. -/
theorem afterBlanks_idem (cursor : Cursor) :
    cursor.afterBlanks.afterBlanks = cursor.afterBlanks := by
  rw [afterBlanks, afterBlanks, span, span, spanFrom_of_span]

theorem length_afterBlanks_le (cursor : Cursor) :
    cursor.afterBlanks.rest.length ≤ cursor.rest.length :=
  Reader.local_skipBlanks.shrinks rfl

theorem length_next_lt {cursor : Cursor} {c : Char} (isNext : cursor.rest.head? = some c) :
    cursor.next.rest.length < cursor.rest.length := by
  obtain ⟨rest, position⟩ := cursor
  cases rest with
  | nil => cases isNext
  | cons c rest => exact Nat.lt_succ_self _

end Cursor

namespace Reader

variable {cursor behind : Cursor}

/-! ## Numbers, strings and other scalars -/

theorem skipWhole_of_wholeDigits {digits : List Char}
    (isRead : wholeDigits cursor = .ok (digits, behind)) : skipWhole cursor = .ok ((), behind) := by
  rw [skipWhole, peek_bind]
  cases isNext : cursor.rest.head? with
  | none =>
      rw [wholeDigits, peek_bind, isNext] at isRead
      cases isRead
  | some c => exact bind_eq_ok_iff.mpr ⟨digits, behind, isRead, rfl⟩

theorem skipFraction_of_fractionDigits {digits : Option (List Char)}
    (isRead : fractionDigits cursor = .ok (digits, behind)) :
    skipFraction cursor = .ok ((), behind) := by
  rw [fractionDigits, peek_bind] at isRead
  rw [skipFraction, peek_bind]
  generalize cursor.rest.head? = next at isRead ⊢
  split at isRead
  · rw [if_pos rfl, advance_bind]
    rw [advance_bind] at isRead
    obtain ⟨read, reached, isSpan, isRead⟩ := bind_eq_ok_iff.mp isRead
    refine bind_eq_ok_iff.mpr ⟨read, reached, isSpan, ?_⟩
    split at isRead
    · rw [peek_bind] at isRead
      generalize reached.rest.head? = further at isRead
      split at isRead <;> cases isRead
    · rename_i notEmpty
      cases isRead
      rw [if_neg notEmpty]
      rfl
  · rename_i notPoint
    cases isRead
    rw [if_neg notPoint]
    rfl

theorem skipExponent_of_exponent {read : Option (Exponent × Position)}
    (isRead : exponent cursor = .ok (read, behind)) : skipExponent cursor = .ok ((), behind) := by
  rw [exponent, peek_bind] at isRead
  rw [skipExponent, peek_bind]
  split at isRead
  · rename_i isLetter
    rw [if_pos isLetter, advance_bind]
    rw [advance_bind] at isRead
    obtain ⟨negative, signed, isSign, isRead⟩ := bind_eq_ok_iff.mp isRead
    obtain ⟨_, _, ⟨⟩, isRead⟩ := bind_eq_ok_iff.mp isRead
    obtain ⟨digits, reached, areDigits, isRead⟩ := bind_eq_ok_iff.mp isRead
    cases isRead
    refine bind_eq_ok_iff.mpr ⟨negative, signed, isSign, ?_⟩
    rw [peek_bind]
    cases isNext : signed.rest.head? with
    | none =>
        rw [exponentDigits, peek_bind, isNext] at areDigits
        cases areDigits
    | some c => exact bind_eq_ok_iff.mpr ⟨digits, behind, areDigits, rfl⟩
  · rename_i notLetter
    cases isRead
    rw [if_neg notLetter]
    rfl

/-- A number that can be read ends where skipping it ends. -/
theorem skipNumber_of_number {negative : Bool} {read : Number}
    (isRead : number negative cursor = .ok (read, behind)) :
    skipNumber cursor = .ok ((), behind) := by
  obtain ⟨whole, pointed, isWhole, isRead⟩ := bind_eq_ok_iff.mp isRead
  obtain ⟨fraction, marked, isFraction, isRead⟩ := bind_eq_ok_iff.mp isRead
  obtain ⟨power, reached, isExponent, isRead⟩ := bind_eq_ok_iff.mp isRead
  have isEnd : behind = reached := by
    generalize Numeral.value? _ = value, Numeral.exponentOverflow? _ = length at isRead
    split at isRead
    · cases isRead
      rfl
    · cases isRead
    · cases isRead
  rw [isEnd]
  refine bind_eq_ok_iff.mpr ⟨(), pointed, skipWhole_of_wholeDigits isWhole, ?_⟩
  refine bind_eq_ok_iff.mpr ⟨(), marked, skipFraction_of_fractionDigits isFraction, ?_⟩
  exact skipExponent_of_exponent isExponent

theorem skipString_of_string {read : String} (isRead : string cursor = .ok (read, behind)) :
    skipString cursor = .ok ((), behind) := by
  obtain ⟨⟨characters, _⟩, isBody, ⟨⟩⟩ := Attempt.bind_eq_ok_iff.mp isRead
  obtain ⟨inside, -, isQuoted⟩ := StringText.quoted_of_body isBody
  exact Attempt.bind_eq_ok_iff.mpr ⟨_, StringText.skip_of_quoted isQuoted, rfl⟩

/-- What is made of something that was read makes no difference to skipping it. -/
theorem skipped_of_read {α : Type} {reader : Reader α} {skipper : Reader Unit} {make : α → Json}
    {read : Json}
    (skips : ∀ {value}, reader cursor = .ok (value, behind) → skipper cursor = .ok ((), behind))
    (isRead : (do return make (← reader) : Reader Json) cursor = .ok (read, behind)) :
    (do skipper; return none : Reader (Option Bracket)) cursor = .ok (none, behind) := by
  obtain ⟨value, reached, isValue, isRead⟩ := bind_eq_ok_iff.mp isRead
  obtain ⟨-, rfl⟩ := pure_eq_ok_iff.mp isRead
  exact bind_eq_ok_iff.mpr ⟨(), behind, skips isValue, rfl⟩

/-- A scalar is skipped in one go. -/
theorem skipStart_of_scalar {c : Char} {read : Json}
    (isNext : cursor.afterBlanks.rest.head? = some c)
    (isRead : scalar c cursor.afterBlanks = .ok (read, behind)) :
    skipStart cursor = .ok (none, behind) := by
  have word {rest : List Char} {value : Json}
      (isRead : (do advance; literal rest; return value : Reader Json) cursor.afterBlanks =
        .ok (read, behind)) :
      (do advance; literal rest; return none : Reader (Option Bracket)) cursor.afterBlanks =
        .ok (none, behind) :=
    @skipped_of_read _ _ _ (literal rest) (literal rest) (fun _ => value) read id isRead
  rw [skipStart, skipBlanks_bind, peek_bind, isNext]
  rw [scalar] at isRead
  dsimp only
  split_ifs at isRead ⊢ with isNull isTrue isFalse isMinus isDigit isQuote
  · exact word isRead
  · exact word isRead
  · exact word isRead
  · rw [advance_bind] at isRead ⊢
    exact skipped_of_read skipNumber_of_number isRead
  · exact skipped_of_read skipNumber_of_number isRead
  · rw [advance_bind] at isRead ⊢
    exact skipped_of_read skipString_of_string isRead
  all_goals cases isRead

/-! ## Open containers -/

/-- Skip what is left of the open containers: first those that are closed next, then values. -/
def skipRest (closings values : Nat) (value : Bool) (innermost : Bracket) (outer : List Bracket) :
    Reader Unit := do
  let pending ← skipClosings closings value innermost outer
  match pending with
  | [] => return
  | .square :: _ => skipOpen values pending
  | .curly :: _ => do
      skipName
      skipOpen values pending

/-- Skipping starts with a scalar or an opening character. -/
theorem skipOpen_succ (limit : Nat) (outer : List Bracket) :
    skipOpen (limit + 1) outer = skipStart >>= fun started =>
      match started, outer with
      | none, [] => return
      | none, innermost :: further => skipRest (limit + 1) limit true innermost further
      | some bracket, outer => skipRest (limit + 1) limit false bracket outer := by
  rw [skipOpen]
  refine congrArg (skipStart >>= ·) (funext fun started => ?_)
  have rest (value : Bool) (innermost : Bracket) (further : List Bracket) :
      (do
        let pending ← skipClosings (limit + 1) value innermost further
        match pending with
        | [] => return
        | .square :: _ => skipOpen limit pending
        | .curly :: _ =>
            skipName
            skipOpen limit pending) = skipRest (limit + 1) limit value innermost further := rfl
  cases started with
  | some bracket => exact rest false bracket outer
  | none =>
      cases outer with
      | nil => rfl
      | cons innermost further => exact rest true innermost further

/-- Behind a value, skipping the containers that are open around it ends at the last place.  The
numbers that limit it may be as small as the number of characters ahead. -/
def Continues (outer : List Bracket) (behind last : Cursor) : Prop :=
  match outer with
  | [] => last = behind
  | innermost :: further => ∀ closings values, behind.rest.length < closings →
      behind.rest.length ≤ values →
      skipRest closings values true innermost further behind = .ok ((), last)

section Open

variable {outer : List Bracket} {bracket : Bracket} {last : Cursor} {closings values limit : Nat}

/-- A scalar is skipped, and then what is left. -/
theorem skipOpen_of_scalar (isStart : skipStart cursor = .ok (none, behind))
    (shorter : behind.rest.length ≤ cursor.rest.length) (continues : Continues outer behind last)
    (enough : cursor.rest.length < limit) : skipOpen limit outer cursor = .ok ((), last) := by
  obtain ⟨limit, rfl⟩ := Nat.exists_eq_add_one_of_ne_zero (Nat.ne_zero_of_lt enough)
  rw [skipOpen_succ]
  refine bind_eq_ok_iff.mpr ⟨none, behind, isStart, ?_⟩
  cases outer with
  | nil =>
      cases continues
      rfl
  | cons innermost further => exact continues (limit + 1) limit (by omega) (by omega)

/-- A container is opened, and then what is left is skipped. -/
theorem skipOpen_of_bracket (isStart : skipStart cursor = .ok (some bracket, behind))
    (rest : skipRest (limit + 1) limit false bracket outer behind = .ok ((), last)) :
    skipOpen (limit + 1) outer cursor = .ok ((), last) := by
  rw [skipOpen_succ]
  exact bind_eq_ok_iff.mpr ⟨some bracket, behind, isStart, rest⟩

/-- Skip a value in a container, behind its name if it has one. -/
def skipEntry (values : Nat) (innermost : Bracket) (outer : List Bracket) : Reader Unit :=
  match innermost with
  | .square => skipOpen values (.square :: outer)
  | .curly => do
      skipName
      skipOpen values (.curly :: outer)

/-- The next character says whether a container goes on, and with what. -/
theorem skipRest_succ {c : Char} {value : Bool}
    (isNext : cursor.afterBlanks.rest.head? = some c) :
    skipRest (closings + 1) values value bracket outer cursor =
      if value = true ∧ c = ',' then
        skipEntry values bracket outer cursor.afterBlanks.next
      else if c = bracket.closing then
        match outer with
        | [] => .ok ((), cursor.afterBlanks.next)
        | next :: further => skipRest closings values true next further cursor.afterBlanks.next
      else if value = true then
        failAhead (.malformed bracket.separatorFault) cursor.afterBlanks
      else
        skipEntry values bracket outer cursor.afterBlanks := by
  rw [skipRest]
  simp only [skipClosings, bind_assoc]
  rw [skipBlanks_bind, peek_bind, isNext]
  dsimp only
  split_ifs with isComma isClosing isValue
  · simp only [bind_assoc]
    rw [advance_bind]
    cases bracket <;> rfl
  · simp only [bind_assoc]
    rw [advance_bind]
    cases outer <;> rfl
  · rfl
  · cases bracket <;> rfl

/-- A container is closed, and then what is left is skipped. -/
theorem skipRest_of_closing {value : Bool}
    (isClosing : cursor.afterBlanks.rest.head? = some bracket.closing)
    (continues : Continues outer cursor.afterBlanks.next last)
    (enough : cursor.rest.length < closings) (enoughValues : cursor.rest.length ≤ values) :
    skipRest closings values value bracket outer cursor = .ok ((), last) := by
  obtain ⟨closings, rfl⟩ := Nat.exists_eq_add_one_of_ne_zero (Nat.ne_zero_of_lt enough)
  have notComma : ¬ (value = true ∧ bracket.closing = ',') := by
    rintro ⟨-, isComma⟩
    cases bracket <;> cases isComma
  have shorter := Cursor.length_next_lt isClosing
  have blanks := cursor.length_afterBlanks_le
  rw [skipRest_succ isClosing, if_neg notComma, if_pos rfl]
  cases outer with
  | nil =>
      cases continues
      rfl
  | cons next further => exact continues closings values (by omega) (by omega)

/-- Before the first value of a container nothing is consumed. -/
theorem skipRest_of_first {c : Char} (isNext : cursor.afterBlanks.rest.head? = some c)
    (notClosing : c ≠ bracket.closing) (enough : cursor.rest.length < closings) :
    skipRest closings values false bracket outer cursor =
      skipEntry values bracket outer cursor.afterBlanks := by
  obtain ⟨closings, rfl⟩ := Nat.exists_eq_add_one_of_ne_zero (Nat.ne_zero_of_lt enough)
  rw [skipRest_succ isNext, if_neg (fun isComma => Bool.false_ne_true isComma.1),
    if_neg notClosing, if_neg Bool.false_ne_true]

/-- Before another value of a container a comma is consumed. -/
theorem skipRest_of_comma (isNext : cursor.afterBlanks.rest.head? = some ',')
    (enough : cursor.rest.length < closings) :
    skipRest closings values true bracket outer cursor =
      skipEntry values bracket outer cursor.afterBlanks.next := by
  obtain ⟨closings, rfl⟩ := Nat.exists_eq_add_one_of_ne_zero (Nat.ne_zero_of_lt enough)
  rw [skipRest_succ isNext, if_pos ⟨rfl, rfl⟩]

/-- Blanks in front of a value make no difference. -/
theorem skipOpen_afterBlanks (limit : Nat) (outer : List Bracket) (cursor : Cursor) :
    skipOpen (limit + 1) outer cursor.afterBlanks = skipOpen (limit + 1) outer cursor := by
  have sameStart : skipStart cursor.afterBlanks = skipStart cursor := by
    rw [skipStart, skipBlanks_bind, skipBlanks_bind, Cursor.afterBlanks_idem]
  have unfolded (continuation : Option Bracket → Reader Unit) (cursor : Cursor) :
      (skipStart >>= continuation) cursor =
        skipStart cursor >>= fun outcome => continuation outcome.1 outcome.2 := rfl
  rw [skipOpen_succ, unfolded, unfolded, sameStart]

/-- A name that can be read is skipped, with its colon. -/
theorem skipName_of_string {text : String} {named pointed : Cursor}
    (isQuote : cursor.afterBlanks.rest.head? = some '"')
    (isString : string cursor.afterBlanks.next = .ok (text, named))
    (isColon : colon named = .ok ((), pointed)) : skipName cursor = .ok ((), pointed) := by
  have consumed : (advance >>= fun _ => skipString >>= fun _ => colon) cursor.afterBlanks =
      .ok ((), pointed) := by
    rw [advance_bind]
    exact bind_eq_ok_iff.mpr ⟨(), named, skipString_of_string isString, isColon⟩
  rw [skipName, skipBlanks_bind, peek_bind, isQuote]
  exact consumed

end Open

/-! ## From reading to skipping -/

/-- Every value that the reader gives is skipped, whichever containers are open around it. -/
def Skips (reader : Reader Json) : Prop :=
  ∀ cursor read behind, reader cursor = .ok (read, behind) →
    ∀ outer last limit, Continues outer behind last → cursor.rest.length < limit →
      skipOpen limit outer cursor = .ok ((), last)

section Containers

variable {reader : Reader Json} {outer : List Bracket} {last : Cursor} {limit : Nat}

/-- The items of a list are skipped, and then what is left. -/
theorem skipRest_of_items (skips : Skips reader) {position : Nat}
    {read : List Json} {closing : Cursor}
    (areRead : items reader limit position cursor = .ok (read, closing))
    (continues : Continues outer closing.next last) {closings values : Nat}
    (enough : cursor.rest.length < closings)
    (enoughValues : cursor.rest.length < values + if position = 0 then 0 else 1) :
    skipRest closings values (position ≠ 0) .square outer cursor = .ok ((), last) := by
  induction limit generalizing position cursor read closings values with
  | zero => cases areRead
  | succ limit inductionHypothesis =>
      have blanks := cursor.length_afterBlanks_le
      obtain ⟨isNext, -⟩ | ⟨ahead, first, reached, others, isNext, isItem, areOthers, -⟩ :=
        items_succ_eq_ok_iff.mp areRead
      · obtain ⟨-, rfl, isClosing⟩ | ⟨⟨⟩, -⟩ := nextItem_cases isNext
        have enoughValues : cursor.rest.length ≤ values := by split at enoughValues <;> omega
        exact skipRest_of_closing isClosing continues enough enoughValues
      · have later : Continues (.square :: outer) reached last := by
          intro closings values enough enoughValues
          exact inductionHypothesis areOthers enough (Nat.lt_succ_of_le enoughValues)
        obtain ⟨⟨⟩, -⟩ | ⟨-, ⟨c, notClosing, isHead⟩, ⟨isFirst, rfl⟩ | ⟨notFirst, isComma, rfl⟩⟩ :=
          nextItem_cases isNext
        · obtain rfl : position = 0 := of_decide_eq_true isFirst
          have notClosing : c ≠ Bracket.square.closing := notClosing
          have enoughValues : cursor.rest.length < values := enoughValues
          refine (skipRest_of_first isHead notClosing enough).trans ?_
          exact skips _ _ _ isItem _ _ _ later (by omega)
        · have notStart : position ≠ 0 := of_decide_eq_false notFirst
          rw [if_neg notStart] at enoughValues
          have comma := Cursor.length_next_lt isComma
          have blanksBehind := cursor.afterBlanks.next.length_afterBlanks_le
          obtain ⟨values, rfl⟩ := Nat.exists_eq_add_of_le' (by omega : 1 ≤ values)
          rw [decide_eq_true notStart]
          refine (skipRest_of_comma isComma enough).trans ?_
          refine (skipOpen_afterBlanks values _ _).symm.trans ?_
          exact skips _ _ _ isItem _ _ _ later (by omega)

/-- The members of an object are skipped, and then what is left. -/
theorem skipRest_of_members (skips : Skips reader) {first : Bool}
    {gathered result : List (String × Json)} {closing : Cursor}
    (areRead : members (keepMember reader) limit first gathered cursor = .ok (result, closing))
    (continues : Continues outer closing.next last) {closings values : Nat}
    (enough : cursor.rest.length < closings) (enoughValues : cursor.rest.length ≤ values) :
    skipRest closings values (!first) .curly outer cursor = .ok ((), last) := by
  induction limit generalizing first gathered cursor closings values with
  | zero => cases areRead
  | succ limit inductionHypothesis =>
      have blanks := cursor.length_afterBlanks_le
      obtain ⟨isName, -⟩ |
        ⟨name, named, pointed, more, reached, isName, isColon, isStep, areOthers⟩ :=
        members_succ_eq_ok_iff.mp areRead
      · obtain ⟨-, isNext⟩ | ⟨_, _, ⟨⟩, -⟩ := nextName_cases isName
        obtain ⟨-, rfl, isClosing⟩ | ⟨⟨⟩, -⟩ := nextMember_cases isNext
        exact skipRest_of_closing isClosing continues enough enoughValues
      · obtain ⟨⟨⟩, -⟩ | ⟨text, opening, -, isNext, isString⟩ := nextName_cases isName
        obtain ⟨read, isMember, rfl⟩ := keepMember_eq_ok_iff.mp isStep
        have later : Continues (.curly :: outer) reached last := fun _ _ enough enoughValues =>
          inductionHypothesis areOthers enough enoughValues
        have afterName := delimited_string.local.shrinks isString
        have afterColon := local_colon.shrinks isColon
        obtain ⟨⟨⟩, -⟩ | ⟨-, isQuote, ⟨rfl, rfl⟩ | ⟨rfl, isComma, rfl⟩⟩ := nextMember_cases isNext
        · have quote := Cursor.length_next_lt isQuote
          have notClosing : '"' ≠ Bracket.curly.closing := by decide
          have isQuoteAgain : cursor.afterBlanks.afterBlanks.rest.head? = some '"' := by
            rw [Cursor.afterBlanks_idem, isQuote]
          rw [← Cursor.afterBlanks_idem cursor] at isString
          refine (skipRest_of_first isQuote notClosing enough).trans ?_
          refine bind_eq_ok_iff.mpr
            ⟨(), pointed, skipName_of_string isQuoteAgain isString isColon, ?_⟩
          exact skips _ _ _ isMember _ _ _ later (by omega)
        · have quote := Cursor.length_next_lt isQuote
          have comma := Cursor.length_next_lt isComma
          have blanksBehind := cursor.afterBlanks.next.length_afterBlanks_le
          refine (skipRest_of_comma isComma enough).trans ?_
          refine bind_eq_ok_iff.mpr ⟨(), pointed, skipName_of_string isQuote isString isColon, ?_⟩
          exact skips _ _ _ isMember _ _ _ later (by omega)

end Containers

/-- Every value that can be read is skipped, whichever containers are open around it. -/
theorem skips_transcript (levels : Nat) : Skips (transcript levels) := by
  induction levels using Nat.strongRecOn with
  | ind levels inductionHypothesis =>
      intro cursor read behind isRead outer last limit continues enough
      have blanks := cursor.length_afterBlanks_le
      have isStart (bracket : Bracket)
          (isBracket : cursor.afterBlanks.rest.head? = some bracket.opening) :
          skipStart cursor = .ok (some bracket, cursor.afterBlanks.next) := by
        rw [skipStart, skipBlanks_bind, peek_bind, isBracket]
        cases bracket <;> rfl
      obtain ⟨lower, documents, closing, rfl, -, isBracket, areRead, rfl⟩ |
        ⟨lower, documents, closing, rfl, -, isBrace, areRead, rfl⟩ | ⟨c, isNext, -, -, isRead⟩ :=
        transcript_cases isRead
      · have opened := Cursor.length_next_lt isBracket
        obtain ⟨limit, rfl⟩ := Nat.exists_eq_add_one_of_ne_zero (Nat.ne_zero_of_lt enough)
        refine skipOpen_of_bracket (isStart .square isBracket) ?_
        have skips := inductionHypothesis lower (Nat.lt_succ_self lower)
        exact skipRest_of_items skips areRead continues (by omega) (by omega)
      · have opened := Cursor.length_next_lt isBrace
        obtain ⟨limit, rfl⟩ := Nat.exists_eq_add_one_of_ne_zero (Nat.ne_zero_of_lt enough)
        refine skipOpen_of_bracket (isStart .curly isBrace) ?_
        have skips := inductionHypothesis lower (Nat.lt_succ_self lower)
        exact skipRest_of_members skips areRead continues (by omega) (by omega)
      · have shorter := (local_scalar c).shrinks isRead
        exact skipOpen_of_scalar (skipStart_of_scalar isNext isRead) (by omega) continues enough

/-- Skipping a value that can be read ends where reading it ends. -/
theorem skipValue_of_transcript {levels : Nat} {read : Json}
    (isRead : transcript levels cursor = .ok (read, behind)) :
    skipValue cursor = .ok ((), behind) :=
  skips_transcript levels cursor read behind isRead [] behind (cursor.rest.length + 1) rfl
    (Nat.lt_succ_self _)

end Reader

end FormSchema
