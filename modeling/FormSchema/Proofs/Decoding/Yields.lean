import FormSchema.Decoding.Value
import FormSchema.Proofs.Attempt
import FormSchema.Proofs.Json.Proper

/-!
# What readers give

`Reader.Yields` says that whatever a reader gives has some property, wherever it starts to
read.  It is carried through the ways in which readers are put together, and through lists and
objects by what holds of the items, and of what has been gathered from the members.

The first use is that every value that is read is proper.
-/

namespace FormSchema

namespace Reader

variable {α β σ : Type}

/-- Whatever the reader gives has the property. -/
def Yields (property : α → Prop) (reader : Reader α) : Prop :=
  ∀ cursor result behind, reader cursor = .ok (result, behind) → property result

section Rules

variable {property : α → Prop}

/-- A property of everything is no matter of what is read. -/
theorem yields_of_forall {reader : Reader α} (holds : ∀ result, property result) :
    Yields property reader :=
  fun _ result _ _ => holds result

theorem yields_pure {result : α} (holds : property result) : Yields property (pure result) := by
  rintro cursor _ behind ⟨⟩
  exact holds

/-- A reader that fails wherever it starts gives nothing. -/
theorem yields_failAt (position : Position) (fault : Fault) :
    Yields property (failAt position fault) := by
  rintro cursor result behind ⟨⟩

theorem Yields.bind {middle : β → Prop} {reader : Reader β} {next : β → Reader α}
    (first : Yields middle reader)
    (second : ∀ result, middle result → Yields property (next result)) :
    Yields property (reader >>= next) := by
  intro cursor result behind isRead
  obtain ⟨⟨between, reached⟩, isFirst, isSecond⟩ := Attempt.bind_eq_ok_iff.mp isRead
  exact second between (first cursor between reached isFirst) reached result behind isSecond

/-- Only the last of two readers matters, unless it uses what the first one gives. -/
theorem yields_bind {reader : Reader β} {next : β → Reader α}
    (second : ∀ result, Yields property (next result)) : Yields property (reader >>= next) :=
  Yields.bind (yields_of_forall fun _ => trivial) fun result (_ : True) => second result

theorem yields_failHere (fault : Fault) : Yields property (failHere fault) :=
  yields_bind fun _ => yields_failAt _ fault

theorem yields_failAhead (fault : Fault) : Yields property (failAhead fault) :=
  yields_bind fun _ => yields_failAt _ fault

theorem yields_failObject (error : DecodeError) : Yields property (failObject error) := by
  refine yields_bind fun _ => yields_bind fun next => ?_
  have fails : Yields property (do throw { error with position := some (← get).position }) := by
    refine yields_bind fun cursor => ?_
    rintro cursor result behind ⟨⟩
  split
  · exact yields_bind fun _ => fails
  · exact fails

theorem yields_wrongKind (expected : Expected) : Yields property (wrongKind expected) := by
  refine yields_bind fun _ => yields_bind fun next => ?_
  split
  · exact yields_failHere _
  · split
    · exact yields_failHere _
    · split
      · exact yields_failHere _
      · exact yields_bind fun _ => yields_failHere _

theorem yields_objectOr {objectReader : Reader α} (yields : Yields property objectReader)
    (expected : Expected) : Yields property (objectOr expected objectReader) := by
  refine yields_bind fun _ => yields_bind fun next => ?_
  split
  · exact yields
  · exact yields_wrongKind expected

theorem Yields.under {reader : Reader α} (yields : Yields property reader) (step : PathStep) :
    Yields property (reader.under step) :=
  fun cursor result behind isRead =>
    yields cursor result behind (Attempt.mapError_eq_ok_iff.mp isRead)

end Rules

/-! ## Lists and objects -/

/-- What a step gathers has a property if what was gathered before had it, or the step finds a
fault in the object. -/
def Gathers (invariant : σ → Prop) (outcome : Except DecodeError σ) : Prop :=
  ∀ gathered, outcome = .ok gathered → invariant gathered

theorem yields_members {invariant : σ → Prop}
    {step : σ → String → Reader (Except DecodeError σ)}
    (keeps : ∀ gathered name, invariant gathered →
      Yields (Gathers invariant) (step gathered name))
    (limit : Nat) (first : Bool) {gathered : σ} (holds : invariant gathered) :
    Yields invariant (members step limit first gathered) := by
  induction limit generalizing first gathered with
  | zero => exact yields_failHere _
  | succ limit inductionHypothesis =>
      refine yields_bind fun next => ?_
      split
      · exact yields_pure holds
      · rename_i name
        refine yields_bind fun _ => ?_
        refine ((keeps gathered name holds).under _).bind fun outcome gathers => ?_
        split
        · rename_i more
          exact inductionHypothesis false (gathers more rfl)
        · exact yields_failObject _

theorem yields_object (invariant : σ → Prop) {property : α → Prop} {start : σ}
    {step : σ → String → Reader (Except DecodeError σ)} {finish : σ → Except DecodeError α}
    (starts : invariant start)
    (keeps : ∀ gathered name, invariant gathered →
      Yields (Gathers invariant) (step gathered name))
    (ends : ∀ gathered result, invariant gathered → finish gathered = .ok result →
      property result) :
    Yields property (object start step finish) := by
  refine yields_bind fun _ => yields_bind fun cursor => ?_
  refine (yields_members keeps _ true starts).bind fun gathered holds => ?_
  split
  · rename_i result finished
    exact yields_bind fun _ => yields_pure (ends gathered result holds finished)
  · exact yields_failObject _

theorem yields_items {property : α → Prop} {item : Reader α} (yields : Yields property item)
    (limit position : Nat) :
    Yields (fun read => ∀ value ∈ read, property value) (items item limit position) := by
  induction limit generalizing position with
  | zero => exact yields_failHere _
  | succ limit inductionHypothesis =>
      refine yields_bind fun isItem => ?_
      split
      · refine (yields.under _).bind fun first holds => ?_
        refine (inductionHypothesis (position + 1)).bind fun others hold => ?_
        exact yields_pure (List.forall_mem_cons.mpr ⟨holds, hold⟩)
      · exact yields_pure (List.forall_mem_nil _)

theorem yields_list {property : α → Prop} {item : Reader α} (yields : Yields property item) :
    Yields (fun read => ∀ value ∈ read, property value) (list item) := by
  refine yields_bind fun _ => yields_bind fun cursor => ?_
  refine (yields_items yields _ 0).bind fun read hold => ?_
  exact yields_bind fun _ => yields_pure hold

/-! ## Values -/

theorem yields_valueWith {property : Json → Prop} {listReader objectReader : Reader Json}
    (lists : Yields property listReader) (objects : Yields property objectReader)
    (scalars : ∀ c, Yields property (scalar c)) :
    Yields property (valueWith listReader objectReader) := by
  refine yields_bind fun _ => yields_bind fun next => ?_
  split
  · exact yields_failHere _
  · split
    · exact lists
    · split
      · exact objects
      · exact scalars _

theorem yields_scalar (c : Char) : Yields (fun read => read.proper = true) (scalar c) := by
  unfold scalar
  split
  · exact yields_bind fun _ => yields_bind fun _ => yields_pure rfl
  · split
    · exact yields_bind fun _ => yields_bind fun _ => yields_pure rfl
    · split
      · exact yields_bind fun _ => yields_bind fun _ => yields_pure rfl
      · split
        · exact yields_bind fun _ => yields_bind fun _ => yields_pure rfl
        · split
          · exact yields_bind fun _ => yields_pure rfl
          · split
            · exact yields_bind fun _ => yields_bind fun _ => yields_pure rfl
            · exact yields_failAhead _

/-- Every value that is read is proper: members are assigned one by one. -/
theorem yields_value (levels : Nat) : Yields (fun read => read.proper = true) (value levels) := by
  induction levels with
  | zero => exact yields_valueWith (yields_failAhead _) (yields_failAhead _) yields_scalar
  | succ levels inductionHypothesis =>
      refine yields_valueWith ?lists ?objects yields_scalar
      case lists =>
        refine (yields_list inductionHypothesis).bind fun items proper => yields_pure ?_
        exact Json.proper_array_iff.mpr proper
      case objects =>
        refine yields_object (fun gathered => (Json.object gathered).proper = true) rfl ?_ ?_
        · intro gathered name proper
          refine inductionHypothesis.bind fun content isProper => yields_pure ?_
          rintro _ ⟨⟩
          exact Json.proper_put proper isProper
        · rintro gathered _ proper ⟨⟩
          exact proper

end Reader

/-- Every value that is read from a text is proper. -/
theorem Json.proper_of_read {text : String} {value : Json} (isRead : Json.read text = .ok value) :
    value.proper = true := by
  have yields : Reader.Yields (fun read => read.proper = true)
      (do let value ← Reader.value Reader.nestingLimit; Reader.finished; return value) :=
    (Reader.yields_value _).bind fun _ proper => Reader.yields_bind fun _ =>
      Reader.yields_pure proper
  obtain ⟨⟨read, behind⟩, isResult, rfl⟩ := Attempt.map_eq_ok_iff.mp isRead
  exact yields _ _ _ isResult

end FormSchema
