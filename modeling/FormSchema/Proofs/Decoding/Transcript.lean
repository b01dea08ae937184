import Mathlib.Tactic.SplitIfs
import FormSchema.Proofs.Decoding.Punctuation

/-!
# What a text says, member by member

A value that is read has every name once, where the text may repeat names.  The transcript of a
text keeps every member that the text has, and merging the members of a transcript gives the
value that is read: a name that is repeated keeps its first place and takes its last value.
-/

namespace FormSchema

namespace Json

mutual

/-- The value in which every name occurs once, at its first place and with its last value. -/
def merged : Json → Json
  | .array items => .array (mergedItems items)
  | .object members => .object (mergedMembers [] members)
  | value => value

/-- Every item merged by itself. -/
def mergedItems : List Json → List Json
  | [] => []
  | item :: rest => item.merged :: mergedItems rest

/-- Assign merged values to names, one member after the other. -/
def mergedMembers (before : List (String × Json)) : List (String × Json) → List (String × Json)
  | [] => before
  | (name, value) :: rest => mergedMembers (Members.put name value.merged before) rest

end

theorem mergedItems_eq (items : List Json) : mergedItems items = items.map merged := by
  induction items with
  | nil => rw [mergedItems, List.map_nil]
  | cons item rest inductionHypothesis => rw [mergedItems, inductionHypothesis, List.map_cons]

/-- The member that comes last is assigned last. -/
theorem mergedMembers_concat (before members : List (String × Json)) (name : String)
    (value : Json) :
    mergedMembers before (members ++ [(name, value)]) =
      Members.put name value.merged (mergedMembers before members) := by
  induction members generalizing before with
  | nil => rw [List.nil_append, mergedMembers, mergedMembers, mergedMembers]
  | cons member rest inductionHypothesis =>
      obtain ⟨other, first⟩ := member
      rw [List.cons_append, mergedMembers, mergedMembers]
      exact inductionHypothesis _

/-- Under a name there is the value of the last member with that name. -/
theorem lookup_mergedMembers (name : String) (before members : List (String × Json)) :
    (mergedMembers before members).lookup name =
      ((members.reverse.lookup name).map merged).or (before.lookup name) := by
  induction members generalizing before with
  | nil => rw [mergedMembers, List.reverse_nil, List.lookup_nil, Option.map_none, Option.none_or]
  | cons member rest inductionHypothesis =>
      obtain ⟨other, value⟩ := member
      rw [mergedMembers, inductionHypothesis, List.reverse_cons, List.lookup_append]
      cases rest.reverse.lookup name with
      | some later => rfl
      | none =>
          rw [Option.none_or, List.lookup_cons]
          by_cases same : name = other
          · rw [same, Members.lookup_put_self, beq_self_eq_true]
            rfl
          · rw [Members.lookup_put_of_ne _ _ same, beq_false_of_ne same]
            rfl

/-- Members with names that are not repeated are kept as they are. -/
theorem mergedMembers_of_nodup {before members : List (String × Json)}
    (distinct : (Members.names (before ++ members)).Nodup)
    (same : ∀ name value, (name, value) ∈ members → value.merged = value) :
    mergedMembers before members = before ++ members := by
  induction members generalizing before with
  | nil => rw [mergedMembers, List.append_nil]
  | cons member rest inductionHypothesis =>
      obtain ⟨name, value⟩ := member
      have isNew : name ∉ Members.names before := by
        rw [Members.names, List.map_append, List.nodup_append] at distinct
        exact fun isName => distinct.2.2 name isName name List.mem_cons_self rfl
      rw [mergedMembers, same name value List.mem_cons_self, Members.put_of_not_mem isNew,
        inductionHypothesis, List.append_assoc, List.singleton_append]
      · rwa [List.append_assoc, List.singleton_append]
      · exact fun other inner isMember => same other inner (List.mem_cons_of_mem _ isMember)

/-- Merging keeps a value in which no name is repeated. -/
theorem merged_of_proper {value : Json} (isProper : value.proper = true) :
    value.merged = value := by
  induction value using insideInduction with
  | step value insideItem insideMember =>
      cases value with
      | array items =>
          have itemsProper := proper_array_iff.mp isProper
          rw [merged, mergedItems_eq, List.map_congr_left (g := id), List.map_id]
          exact fun item isItem => insideItem items item rfl isItem (itemsProper item isItem)
      | object members =>
          obtain ⟨distinct, membersProper⟩ := proper_object_iff.mp isProper
          rw [merged, mergedMembers_of_nodup (List.nil_append members ▸ distinct), List.nil_append]
          exact fun name inner isMember =>
            insideMember members name inner rfl isMember (membersProper name inner isMember)
      | _ => rfl

/-- A member after merging is a member from before, with its value merged. -/
theorem exists_of_mem_mergedMembers {before members : List (String × Json)} {name : String}
    {value : Json} (isMember : (name, value) ∈ mergedMembers before members) :
    (name, value) ∈ before ∨ ∃ raw, (name, raw) ∈ members ∧ value = raw.merged := by
  induction members generalizing before with
  | nil =>
      rw [mergedMembers] at isMember
      exact .inl isMember
  | cons member rest inductionHypothesis =>
      obtain ⟨other, first⟩ := member
      rw [mergedMembers] at isMember
      obtain isBefore | ⟨raw, isLater, same⟩ := inductionHypothesis isMember
      · rcases Members.mem_put isBefore with same | isBefore
        · cases same
          exact .inr ⟨first, List.mem_cons_self, rfl⟩
        · exact .inl isBefore
      · exact .inr ⟨raw, List.mem_cons_of_mem _ isLater, same⟩

theorem exists_of_mem_merged {members : List (String × Json)} {name : String} {value : Json}
    (isMember : (name, value) ∈ mergedMembers [] members) :
    ∃ raw, (name, raw) ∈ members ∧ value = raw.merged :=
  (exists_of_mem_mergedMembers isMember).resolve_left List.not_mem_nil

/-- Every name is kept. -/
theorem mem_names_merged {members : List (String × Json)} {name : String}
    (isName : name ∈ Members.names members) : name ∈ Members.names (mergedMembers [] members) := by
  rw [← Members.has_iff_mem_names, Members.has, lookup_mergedMembers]
  have isName : name ∈ Members.names members.reverse := by
    rwa [Members.names, List.map_reverse, List.mem_reverse]
  rw [← Members.has_iff_mem_names, Members.has] at isName
  obtain ⟨value, isFound⟩ := Option.isSome_iff_exists.mp isName
  rw [isFound]
  rfl

end Json

namespace Reader

variable {α β σ τ : Type}

/-- Add a member behind those that have been read, also if its name is repeated. -/
def keepMember (reader : Reader Json) (gathered : List (String × Json)) (name : String) :
    Reader (Except DecodeError (List (String × Json))) := do
  return .ok (gathered ++ [(name, ← reader)])

/-- Read a value with every member that the text has, inside which at most the given number of
containers may be open. -/
def transcript : Nat → Reader Json
  | 0 => valueWith tooDeep tooDeep
  | levels + 1 =>
      valueWith (do return .array (← list (transcript levels)))
        (object [] (keepMember (transcript levels)) fun gathered => .ok (.object gathered))

/-! ## The parts of a value -/

section Parts

variable {levels : Nat} {cursor behind : Cursor} {document : Json}

/-- Behind blanks there is a list, an object or a scalar.  Inside a list or an object one
container less may be open. -/
theorem transcript_cases (isRead : transcript levels cursor = .ok (document, behind)) :
    (∃ lower documents closing, levels = lower + 1 ∧ document = .array documents ∧
      cursor.afterBlanks.rest.head? = some '[' ∧
      items (transcript lower) (cursor.afterBlanks.next.rest.length + 1) 0
        cursor.afterBlanks.next = .ok (documents, closing) ∧ behind = closing.next) ∨
    (∃ lower documents closing, levels = lower + 1 ∧ document = .object documents ∧
      cursor.afterBlanks.rest.head? = some '\x7b' ∧
      members (keepMember (transcript lower)) (cursor.afterBlanks.next.rest.length + 1) true []
        cursor.afterBlanks.next = .ok (documents, closing) ∧ behind = closing.next) ∨
    ∃ c, cursor.afterBlanks.rest.head? = some c ∧ c ≠ '[' ∧ c ≠ '\x7b' ∧
      scalar c cursor.afterBlanks = .ok (document, behind) := by
  cases levels with
  | zero =>
      obtain ⟨c, isNext, isRead⟩ := valueWith_eq_ok_iff.mp isRead
      split at isRead
      case isTrue => cases isRead
      case isFalse notBracket =>
        split at isRead
        case isTrue => cases isRead
        case isFalse notBrace => exact .inr (.inr ⟨c, isNext, notBracket, notBrace, isRead⟩)
  | succ lower =>
      obtain ⟨c, isNext, isRead⟩ := valueWith_eq_ok_iff.mp isRead
      split at isRead
      case isTrue isBracket =>
        obtain ⟨documents, _, isList, isRead⟩ := bind_eq_ok_iff.mp isRead
        cases isRead
        obtain ⟨closing, areRead, rfl⟩ := list_eq_ok_iff.mp isList
        exact .inl ⟨lower, documents, closing, rfl, rfl, isBracket ▸ isNext, areRead, rfl⟩
      case isFalse notBracket =>
        split at isRead
        case isTrue isBrace =>
          obtain ⟨documents, closing, areRead, isResult, rfl⟩ := object_eq_ok_iff.mp isRead
          cases isResult
          exact .inr (.inl ⟨lower, documents, closing, rfl, rfl, isBrace ▸ isNext, areRead, rfl⟩)
        case isFalse notBrace => exact .inr (.inr ⟨c, isNext, notBracket, notBrace, isRead⟩)

/-- The first character of a value says what kind of value it is. -/
inductive Begins : Char → Json → Prop where
  | null : Begins 'n' .null
  | true : Begins 't' (.bool true)
  | false : Begins 'f' (.bool false)
  | number {c : Char} (isNumber : c = '-' ∨ c.isDigit = Bool.true) (value : Number) :
      Begins c (.number value)
  | string (text : String) : Begins '"' (.string text)
  | array (items : List Json) : Begins '[' (.array items)
  | object (members : List (String × Json)) : Begins '\x7b' (.object members)

theorem begins_of_scalar {c : Char} (isRead : scalar c cursor = .ok (document, behind)) :
    Begins c document := by
  have begins : Yields (Begins c) (scalar c) := by
    unfold scalar
    split_ifs with isNull isTrue isFalse isMinus isDigit isQuote
    · exact yields_bind fun _ => yields_bind fun _ => yields_pure (isNull ▸ .null)
    · exact yields_bind fun _ => yields_bind fun _ => yields_pure (isTrue ▸ .true)
    · exact yields_bind fun _ => yields_bind fun _ => yields_pure (isFalse ▸ .false)
    · exact yields_bind fun _ => yields_bind fun value =>
        yields_pure (.number (.inl isMinus) value)
    · exact yields_bind fun value => yields_pure (.number (.inr isDigit) value)
    · exact yields_bind fun _ => yields_bind fun text => yields_pure (isQuote ▸ .string text)
    · exact yields_failAhead _
  exact begins cursor document behind isRead

theorem begins_of_transcript (isRead : transcript levels cursor = .ok (document, behind)) :
    ∃ c, cursor.afterBlanks.rest.head? = some c ∧ Begins c document := by
  obtain ⟨_, documents, _, -, rfl, isNext, -⟩ | ⟨_, documents, _, -, rfl, isNext, -⟩ |
    ⟨c, isNext, -, -, isRead⟩ := transcript_cases isRead
  · exact ⟨'[', isNext, .array documents⟩
  · exact ⟨'\x7b', isNext, .object documents⟩
  · exact ⟨c, isNext, begins_of_scalar isRead⟩

theorem items_of_transcript {documents : List Json}
    (isRead : transcript levels cursor = .ok (.array documents, behind)) :
    ∃ lower closing, levels = lower + 1 ∧ cursor.afterBlanks.rest.head? = some '[' ∧
      items (transcript lower) (cursor.afterBlanks.next.rest.length + 1) 0
        cursor.afterBlanks.next = .ok (documents, closing) ∧ behind = closing.next := by
  obtain ⟨lower, _, closing, isLower, ⟨⟩, parts⟩ | ⟨_, _, _, -, ⟨⟩, -⟩ |
    ⟨c, -, notBracket, -, isRead⟩ := transcript_cases isRead
  · exact ⟨lower, closing, isLower, parts⟩
  · cases begins_of_scalar isRead
    exact absurd rfl notBracket

theorem members_of_transcript {documents : List (String × Json)}
    (isRead : transcript levels cursor = .ok (.object documents, behind)) :
    ∃ lower closing, levels = lower + 1 ∧ cursor.afterBlanks.rest.head? = some '\x7b' ∧
      members (keepMember (transcript lower)) (cursor.afterBlanks.next.rest.length + 1) true []
        cursor.afterBlanks.next = .ok (documents, closing) ∧ behind = closing.next := by
  obtain ⟨_, _, _, -, ⟨⟩, -⟩ | ⟨lower, _, closing, isLower, ⟨⟩, parts⟩ |
    ⟨c, -, -, notBrace, isRead⟩ := transcript_cases isRead
  · exact ⟨lower, closing, isLower, parts⟩
  · cases begins_of_scalar isRead
    exact absurd rfl notBrace

theorem scalar_of_transcript {c : Char} (isNext : cursor.afterBlanks.rest.head? = some c)
    (notBracket : c ≠ '[') (notBrace : c ≠ '\x7b')
    (isRead : transcript levels cursor = .ok (document, behind)) :
    scalar c cursor.afterBlanks = .ok (document, behind) := by
  obtain ⟨_, _, _, -, -, isOther, -⟩ | ⟨_, _, _, -, -, isOther, -⟩ | ⟨_, isOther, -, -, isRead⟩ :=
    transcript_cases isRead
  all_goals
    rw [isNext] at isOther
    cases isOther
  · exact absurd rfl notBracket
  · exact absurd rfl notBrace
  · exact isRead

/-- What is added to the members is a step of its own for each of them. -/
theorem keepMember_eq_ok_iff {reader : Reader Json} {gathered more : List (String × Json)}
    {name : String} :
    keepMember reader gathered name cursor = .ok (.ok more, behind) ↔
      ∃ document, reader cursor = .ok (document, behind) ∧
        more = gathered ++ [(name, document)] := by
  rw [keepMember, bind_eq_ok_iff]
  constructor
  · rintro ⟨document, _, isRead, ⟨⟩⟩
    exact ⟨document, isRead, rfl⟩
  · rintro ⟨document, isRead, rfl⟩
    exact ⟨document, behind, isRead, rfl⟩

end Parts

/-! ## Merging as part of reading -/

theorem map_apply (change : α → β) (reader : Reader α) (cursor : Cursor) :
    (change <$> reader) cursor =
      (reader cursor).map fun outcome => (change outcome.1, outcome.2) := by
  have unfolded : (change <$> reader) cursor =
      reader cursor >>= fun outcome => pure (change outcome.1, outcome.2) := rfl
  rw [unfolded]
  cases reader cursor <;> rfl

theorem map_run (change : α → β) (reader : Reader α) (text : String) :
    ((change <$> reader).run text).map Prod.fst =
      ((reader.run text).map Prod.fst).map change := by
  rw [run, run, map_apply]
  cases reader (Cursor.start text) <;> rfl

theorem map_under (change : α → β) (step : PathStep) (reader : Reader α) :
    change <$> reader.under step = (change <$> reader).under step := by
  funext cursor
  rw [under, map_apply, map_apply, under]
  cases reader cursor <;> rfl

theorem map_failAt (change : α → β) (position : Position) (fault : Fault) :
    change <$> (failAt position fault : Reader α) = failAt position fault :=
  rfl

theorem map_failHere (change : α → β) (fault : Fault) :
    change <$> (failHere fault : Reader α) = failHere fault := by
  simp only [failHere, map_bind, map_failAt]

theorem map_failAhead (change : α → β) (fault : Fault) :
    change <$> (failAhead fault : Reader α) = failAhead fault := by
  simp only [failAhead, map_bind, map_failAt]

theorem map_failObject (change : α → β) (error : DecodeError) :
    change <$> (failObject error : Reader α) = failObject error := by
  rw [failObject, failObject, map_bind]
  refine congrArg (skipBlanks >>= ·) (funext fun _ => ?_)
  rw [map_bind]
  refine congrArg (peek >>= ·) (funext fun next => ?_)
  split <;> rfl

/-- What is gathered may be changed member by member, or once in the end. -/
theorem map_members {change : σ → τ} {step : σ → String → Reader (Except DecodeError σ)}
    {other : τ → String → Reader (Except DecodeError τ)}
    (each : ∀ gathered name,
      other (change gathered) name = Except.map change <$> step gathered name)
    (limit : Nat) (first : Bool) (gathered : σ) :
    change <$> members step limit first gathered =
      members other limit first (change gathered) := by
  induction limit generalizing first gathered with
  | zero => rw [members, members, map_failHere]
  | succ limit inductionHypothesis =>
      rw [members, members, map_bind]
      refine congrArg (nextName first >>= ·) (funext fun next => ?_)
      cases next with
      | none => rfl
      | some name =>
          rw [map_bind]
          refine congrArg (colon >>= ·) (funext fun _ => ?_)
          rw [each, ← map_under, bind_map_left, map_bind]
          refine congrArg (under (.key name) (step gathered name) >>= ·) (funext fun outcome => ?_)
          cases outcome with
          | ok more => exact inductionHypothesis false more
          | error error => exact map_failObject change error

theorem map_object (change : σ → τ) {result : α → β} {start : σ}
    {step : σ → String → Reader (Except DecodeError σ)}
    {other : τ → String → Reader (Except DecodeError τ)} {finish : σ → Except DecodeError α}
    {otherFinish : τ → Except DecodeError β}
    (each : ∀ gathered name,
      other (change gathered) name = Except.map change <$> step gathered name)
    (ends : ∀ gathered, otherFinish (change gathered) = (finish gathered).map result) :
    result <$> object start step finish = object (change start) other otherFinish := by
  rw [object, object, map_bind]
  refine congrArg (advance >>= ·) (funext fun _ => ?_)
  rw [map_bind]
  refine congrArg (get >>= ·) (funext fun cursor => ?_)
  rw [← map_members each, bind_map_left, map_bind]
  refine congrArg (members step _ true start >>= ·) (funext fun gathered => ?_)
  rw [ends]
  cases finish gathered with
  | ok read => rfl
  | error error => exact map_failObject result error

theorem map_items (change : α → β) (item : Reader α) (limit position : Nat) :
    List.map change <$> items item limit position = items (change <$> item) limit position := by
  induction limit generalizing position with
  | zero => rw [items, items, map_failHere]
  | succ limit inductionHypothesis =>
      rw [items, items, map_bind]
      refine congrArg (nextItem (position = 0) >>= ·) (funext fun isItem => ?_)
      cases isItem with
      | false => rfl
      | true =>
          simp only [if_true, ← map_under, ← inductionHypothesis, map_bind, bind_map_left, map_pure,
            List.map_cons]

theorem map_list (change : α → β) (item : Reader α) :
    List.map change <$> list item = list (change <$> item) := by
  simp only [list, map_bind, ← map_items, bind_map_left, map_pure]

theorem map_valueWith {change : Json → Json} (scalars : ∀ c, change <$> scalar c = scalar c)
    (listReader objectReader : Reader Json) :
    change <$> valueWith listReader objectReader =
      valueWith (change <$> listReader) (change <$> objectReader) := by
  rw [valueWith, valueWith, map_bind]
  refine congrArg (skipBlanks >>= ·) (funext fun _ => ?_)
  rw [map_bind]
  refine congrArg (peek >>= ·) (funext fun next => ?_)
  cases next with
  | none => exact map_failHere change _
  | some c =>
      simp only [apply_ite (change <$> ·), scalars]

theorem merged_scalar (c : Char) : Json.merged <$> scalar c = scalar c := by
  unfold scalar
  split_ifs <;> simp only [map_bind, map_pure, map_failAhead, Json.merged]

/-- Reading a value is reading a transcript and merging its members. -/
theorem merged_transcript (levels : Nat) :
    Json.merged <$> transcript levels = value levels := by
  induction levels with
  | zero =>
      rw [transcript, value, map_valueWith merged_scalar, tooDeep, map_failAhead]
  | succ levels inductionHypothesis =>
      have lists : (Json.merged <$> do return .array (← list (transcript levels)) : Reader Json) =
          do return .array (← list (value levels)) := by
        rw [← inductionHypothesis, ← map_list, map_bind, bind_map_left]
        refine congrArg (list (transcript levels) >>= ·) (funext fun items => ?_)
        rw [map_pure, Json.merged, Json.mergedItems_eq]
      have members (gathered : List (String × Json)) (name : String) :
          (do return .ok (Members.put name (← value levels) (Json.mergedMembers [] gathered)) :
            Reader (Except DecodeError (List (String × Json)))) =
          Except.map (Json.mergedMembers []) <$>
            keepMember (transcript levels) gathered name := by
        rw [keepMember, ← inductionHypothesis, bind_map_left, map_bind]
        refine congrArg (transcript levels >>= ·) (funext fun content => ?_)
        rw [map_pure, Except.map, Json.mergedMembers_concat]
      rw [transcript, value, map_valueWith merged_scalar, lists]
      refine congrArg (valueWith _) (map_object (Json.mergedMembers []) members fun gathered => ?_)
      rw [Except.map, Json.merged]

end Reader

/-- The transcript of the value that makes up a whole text. -/
def Json.transcript (text : String) : Except DecodeError Json :=
  ((do let value ← Reader.transcript Reader.nestingLimit; Reader.finished; return value :
      Reader Json) |>.run text).map Prod.fst

/-- A text is a document if there is nothing but blanks behind a value. -/
theorem Json.transcript_eq_ok_iff {text : String} {document : Json} :
    Json.transcript text = .ok document ↔
      ∃ behind, Reader.transcript Reader.nestingLimit (.start text) = .ok (document, behind) ∧
        ∃ closing, Reader.finished behind = .ok ((), closing) := by
  rw [Json.transcript, Attempt.map_eq_ok_iff]
  constructor
  · rintro ⟨⟨_, closing⟩, isRead, rfl⟩
    obtain ⟨value, behind, isValue, isRead⟩ := Reader.bind_eq_ok_iff.mp isRead
    obtain ⟨_, closing, isFinished, isRead⟩ := Reader.bind_eq_ok_iff.mp isRead
    obtain ⟨rfl, rfl⟩ := Reader.pure_eq_ok_iff.mp isRead
    exact ⟨behind, isValue, closing, isFinished⟩
  · rintro ⟨behind, isValue, closing, isFinished⟩
    exact ⟨(document, closing), Reader.bind_eq_ok_iff.mpr ⟨document, behind, isValue,
      Reader.bind_eq_ok_iff.mpr ⟨(), closing, isFinished, rfl⟩⟩, rfl⟩

/-- The value of a text is its transcript with the members merged. -/
theorem Json.read_eq_merged (text : String) :
    Json.read text = (Json.transcript text).map Json.merged := by
  have readers : (do let value ← Reader.value Reader.nestingLimit; Reader.finished; return value :
        Reader Json) =
      Json.merged <$> do
        let value ← Reader.transcript Reader.nestingLimit
        Reader.finished
        return value := by
    rw [← Reader.merged_transcript, bind_map_left, map_bind]
    refine congrArg (Reader.transcript _ >>= ·) (funext fun value => ?_)
    rw [map_bind]
    rfl
  rw [Json.read, readers, Json.transcript, Reader.map_run]

end FormSchema
