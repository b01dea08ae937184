import FormSchema.Proofs.Json.Equivalence
import FormSchema.Proofs.Schema.Equivalence
import FormSchema.Proofs.Validation.DepthLimit
import FormSchema.Proofs.Validation.Findings

/-!
# Validation and the order of entries

Two values that are equal up to the order of members are validated with two schemas that are
equal up to the order of their entries.  The two walks take their steps in different orders.
Still each task of one expansion has its counterpart in the other, so that the traces are
permutations of each other.

Limits are applied to a trace by replaying it.  Without a limit of findings a replay stops only
at a note that stops it wherever it stands in the trace, and if it does not stop it gives the
findings of all notes.  So the two validations are aborted together, and otherwise their
findings are permutations of each other.
-/

namespace FormSchema

/-! ## Expansions -/

/-- Tasks are about the same places, related schemas and corresponding values. -/
inductive Task.Alike {α β : Type} (relation : α → β → Prop) : Task α → Task β → Prop where
  | reject (suffix place : List String) :
      Alike relation (.reject suffix place) (.reject suffix place)
  | visit {inner : α} {other : β} {value otherValue : Json} (related : relation inner other)
      (valuesCorrespond : value.Corresponds otherValue) (suffix place : List String)
      (tag : Option String) :
      Alike relation (.visit inner value suffix place tag)
        (.visit other otherValue suffix place tag)
  | follow (name : String) : Alike relation (.follow name) (.follow name)

namespace Shape

variable {α β : Type} {relation : α → β → Prop} {place : List String}
  {members others : List (String × Json)}

theorem declares_eq {fields : Option (List (String × α))} {otherFields : Option (List (String × β))}
    (alike : NamedAlike relation fields otherFields) (name : String) :
    declares fields name = declares otherFields name := by
  cases alike with
  | none => rfl
  | some correspond => exact Members.has_eq correspond.matched name

theorem expandRequired_alike
    (membersCorrespond : Members.Correspond Json.Corresponds members others)
    {field : String × α} {other : String × β} (related : Members.Related relation field other) :
    Task.Alike relation (expandRequired members place field)
      (expandRequired others place other) := by
  obtain ⟨name, property⟩ := field
  obtain ⟨_, otherProperty⟩ := other
  obtain ⟨rfl, propertyRelated⟩ := related
  have found := membersCorrespond.lookup name
  simp only [expandRequired]
  generalize members.lookup name = value, others.lookup name = otherValue at found ⊢
  cases found with
  | none => exact .reject [] _
  | some valuesCorrespond => exact .visit propertyRelated valuesCorrespond [name] _ none

theorem expandOptional_alike
    (membersCorrespond : Members.Correspond Json.Corresponds members others)
    {field : String × α} {other : String × β} (related : Members.Related relation field other) :
    Option.Rel (Task.Alike relation) (expandOptional members place field)
      (expandOptional others place other) := by
  obtain ⟨name, property⟩ := field
  obtain ⟨_, otherProperty⟩ := other
  obtain ⟨rfl, propertyRelated⟩ := related
  have found := membersCorrespond.lookup name
  simp only [expandOptional]
  generalize members.lookup name = value, others.lookup name = otherValue at found ⊢
  cases found with
  | none => exact .none
  | some valuesCorrespond => exact .some (.visit propertyRelated valuesCorrespond [name] _ none)

/-- Members are rejected by their names. -/
theorem undeclared_eq_names {γ : Type} (allowed : String → Bool) (listed : List (String × Json))
    (place : List String) :
    ((listed.filter fun member => !allowed member.1).map fun member =>
        (.reject [member.1] place : Task γ)) =
      ((Members.names listed).filter fun name => !allowed name).map fun name =>
        .reject [name] place := by
  rw [Members.names, List.filter_map, List.map_map]
  rfl

theorem undeclared_matched (membersCorrespond : Members.Correspond Json.Corresponds members others)
    {allowed otherAllowed : String → Bool}
    (sameAllowed : ∀ name, allowed name = otherAllowed name) :
    Matched (Task.Alike relation)
      ((members.filter fun member => !allowed member.1).map fun member => .reject [member.1] place)
      ((others.filter fun member => !otherAllowed member.1).map fun member =>
        .reject [member.1] place) := by
  obtain rfl : allowed = otherAllowed := funext sameAllowed
  have sameNames := (Members.names_perm membersCorrespond.matched).filter fun name => !allowed name
  have namesMatch : Matched Eq _ _ := ⟨_, List.forall₂_refl _, sameNames⟩
  rw [undeclared_eq_names, undeclared_eq_names]
  refine namesMatch.map ?_
  rintro name _ rfl
  exact .reject [name] place

theorem fieldsMatched {fields : Option (List (String × α))}
    {otherFields : Option (List (String × β))} (alike : NamedAlike relation fields otherFields) :
    Matched (Members.Related relation) (fields.getD []) (otherFields.getD []) := by
  cases alike with
  | none => exact .nil
  | some correspond => exact correspond.matched

theorem expandProperties_matched {required optional : Option (List (String × α))}
    {otherRequired otherOptional : Option (List (String × β))}
    (requiredAlike : NamedAlike relation required otherRequired)
    (optionalAlike : NamedAlike relation optional otherOptional)
    (membersCorrespond : Members.Correspond Json.Corresponds members others)
    (additional : Bool) (place : List String) (tag : Option String) :
    Matched (Task.Alike relation) (expandProperties required optional additional members place tag)
      (expandProperties otherRequired otherOptional additional others place tag) := by
  refine Matched.append (Matched.append ?_ ?_) ?_
  · exact (fieldsMatched requiredAlike).map fun _ _ => expandRequired_alike membersCorrespond
  · exact (fieldsMatched optionalAlike).filterMap fun _ _ => expandOptional_alike membersCorrespond
  · cases additional with
    | true => exact .nil
    | false =>
        simp only [Bool.false_eq_true, if_false]
        have sameAllowed (name : String) :
            (declares required name || declares optional name || decide (tag = some name)) =
            (declares otherRequired name || declares otherOptional name ||
              decide (tag = some name)) := by
          rw [declares_eq requiredAlike, declares_eq optionalAlike]
        exact undeclared_matched membersCorrespond sameAllowed

theorem items_forall₂ {item : α} {other : β} (related : relation item other)
    {items otherItems : List Json}
    (itemsCorrespond : List.Forall₂ Json.Corresponds items otherItems)
    (place : List String) (first : Nat) :
    List.Forall₂ (Task.Alike relation)
      ((items.zipIdx first).map fun (value, position) =>
        .visit item value [toString position] place none)
      ((otherItems.zipIdx first).map fun (value, position) =>
        .visit other value [toString position] place none) := by
  induction itemsCorrespond generalizing first with
  | nil => exact .nil
  | cons valuesCorrespond _ inductionHypothesis =>
      exact .cons (.visit related valuesCorrespond _ place none) (inductionHypothesis (first + 1))

theorem expandBranches_alike {rule : Discriminator α} {other : Discriminator β}
    (rulesAlike : rule.Alike relation other)
    (membersCorrespond : Members.Correspond Json.Corresponds members others)
    (objectsCorrespond : (Json.object members).Corresponds (.object others)) :
    Task.Alike relation (expandBranches rule members place)
      (expandBranches other others place) := by
  obtain ⟨tag, mapping⟩ := rule
  obtain ⟨_, otherMapping⟩ := other
  obtain ⟨rfl, mappingCorresponds⟩ := rulesAlike
  have tagged := membersCorrespond.lookup tag
  simp only [expandBranches]
  generalize members.lookup tag = value, others.lookup tag = otherValue at tagged ⊢
  cases tagged with
  | none => exact .reject [] _
  | some valuesCorrespond =>
      cases valuesCorrespond.alike with
      | string tagValue =>
          have branches := mappingCorresponds.lookup tagValue
          simp only
          generalize mapping.lookup tagValue = branch, otherMapping.lookup tagValue = other
            at branches ⊢
          cases branches with
          | none => exact .reject [tag] _
          | some related => exact .visit related objectsCorrespond [] _ (some tag)
      | _ => exact .reject [tag] _

/-- The tasks of alike shapes on corresponding values match. -/
theorem expand_matched {shape : Shape α} {other : Shape β} (alike : Alike relation shape other)
    {value otherValue : Json} (valuesCorrespond : value.Corresponds otherValue)
    (place : List String) (tag : Option String) :
    Matched (Task.Alike relation) (shape.expand value place tag)
      (other.expand otherValue place tag) := by
  have rejected (suffix : List String) : Matched (Task.Alike relation)
      [.reject [] (place ++ suffix)] [.reject [] (place ++ suffix)] :=
    Matched.singleton (.reject [] _)
  have valuesAlike := valuesCorrespond.alike
  cases alike with
  | empty => exact .nil
  | ref name => exact Matched.singleton (.follow name)
  | type primitive =>
      simp only [expand, primitive.accepts_eq valuesAlike]
      split
      · exact .nil
      · exact rejected _
  | enum sameTexts =>
      cases valuesAlike with
      | string text =>
          simp only [expand, sameTexts.contains_eq]
          split
          · exact .nil
          · exact rejected _
      | _ => exact rejected _
  | elements related =>
      cases valuesAlike with
      | array itemsCorrespond =>
          exact Matched.of_forall₂ (items_forall₂ related itemsCorrespond _ 0)
      | _ => exact rejected _
  | properties additional requiredAlike optionalAlike =>
      cases valuesAlike with
      | object membersCorrespond =>
          exact expandProperties_matched requiredAlike optionalAlike membersCorrespond _ _ _
      | _ =>
          simp only [expand, isSome_eq_of_rel requiredAlike]
          exact rejected _
  | values related =>
      cases valuesAlike with
      | object membersCorrespond =>
          refine membersCorrespond.matched.map ?_
          rintro ⟨name, member⟩ ⟨_, other⟩ ⟨rfl, inside⟩
          exact .visit related inside [name] _ none
      | _ => exact rejected _
  | discriminator rulesAlike =>
      cases valuesAlike with
      | object membersCorrespond =>
          exact Matched.singleton (expandBranches_alike rulesAlike membersCorrespond
            valuesCorrespond)
      | _ => exact rejected _

end Shape

/-! ## Traces -/

section Trace

variable {relation : Schema → Schema → Prop} {root otherRoot : Schema}

/-- Related schemas have related definitions under every name, or none. -/
theorem Schema.Alike.definition? (alike : Schema.Alike relation root otherRoot) (name : String) :
    Option.Rel relation (root.definition? name) (otherRoot.definition? name) := by
  have definitions := alike.definitions
  rw [Schema.definition?, Schema.definition?]
  generalize root.definitions = named, otherRoot.definitions = others at definitions ⊢
  cases definitions with
  | none => exact .none
  | some correspond => exact correspond.lookup name

/-- The traces of corresponding values with related schemas are permutations of each other. -/
theorem trace_perm (bisimulation : Schema.Bisimulation relation)
    (rootsRelated : relation root otherRoot) (allowance : Nat) {schema other : Schema}
    (related : relation schema other) {value otherValue : Json}
    (valuesCorrespond : value.Corresponds otherValue) (place : List String)
    (tag : Option String) :
    (trace root allowance schema value place tag).Perm
      (trace otherRoot allowance other otherValue place tag) := by
  induction allowance, schema, value, place, tag using recursionInduction root
    generalizing other otherValue with
  | step allowance schema value place tag inside behind =>
      have tasks := Shape.expand_matched (bisimulation schema other related).shape
        valuesCorrespond place tag
      rw [trace_eq, trace_eq]
      refine Matched.flatMap_perm (tasks.imp ?_) fun _ _ => id
      intro task isTask otherTask _ alike
      cases alike with
      | reject suffix place => exact .refl _
      | visit innerRelated innerCorrespond suffix innerPlace innerTag =>
          exact (inside _ _ _ _ _ isTask innerRelated innerCorrespond).map _
      | follow name =>
          have definitions := (bisimulation root otherRoot rootsRelated).definition? name
          rw [traceTask_follow, traceTask_follow]
          cases defined : root.definition? name with
          | none =>
              rw [traceReference_of_undefined defined,
                traceReference_of_undefined (eq_none_of_rel definitions defined)]
          | some target =>
              obtain ⟨otherTarget, otherDefined, targetsRelated⟩ :=
                exists_of_rel definitions defined
              cases allowance with
              | zero => rw [traceReference_zero defined, traceReference_zero otherDefined]
              | succ less =>
                  rw [traceReference_succ defined, traceReference_succ otherDefined]
                  exact (((behind name target less (Shape.follow_mem_expand_iff.mp isTask) defined
                    rfl targetsRelated valuesCorrespond).map _).cons _).cons _

/-- As many hops may be nested on both sides. -/
theorem hopAllowance_eq (alike : Schema.Alike relation root otherRoot) {value otherValue : Json}
    (valuesCorrespond : value.Corresponds otherValue) (limits : Limits) :
    hopAllowance root value limits = hopAllowance otherRoot otherValue limits := by
  have sameNames := alike.definitions.names_perm.length_eq
  rw [Members.names, Members.names, List.length_map, List.length_map] at sameNames
  rw [hopAllowance, hopAllowance, sameNames, valuesCorrespond.height_eq]

end Trace

/-! ## Replays -/

/-- Does a note stop a replay, wherever it stands? -/
def Note.Stops (limits : Limits) (frames : Nat) : Note → Prop
  | finding _ => False
  | reference pending => limits.tooDeep? (frames + pending) ≠ none
  | hop _ _ => False
  | exhausted => True

section Replay

variable {limits : Limits} {frames : Nat}

/-- Without a limit of findings, a replay goes to the end exactly if no note stops it. -/
theorem replay_ok_iff (unbounded : limits.findings = none) {notes : List Note} {record : Record} :
    (replay limits [] frames notes record).1 = .ok () ↔
      ∀ note ∈ notes, ¬ note.Stops limits frames := by
  induction notes generalizing record with
  | nil => exact iff_of_true rfl (List.forall_mem_nil _)
  | cons note rest inductionHypothesis =>
      rw [List.forall_mem_cons]
      cases note with
      | finding rejection =>
          simp only [replay, Limits.enough, unbounded, Bool.false_eq_true, if_false]
          exact inductionHypothesis.trans (and_iff_right id).symm
      | hop definition pending => exact inductionHypothesis.trans (and_iff_right id).symm
      | exhausted =>
          refine iff_of_false (fun ends => ?_) fun unstopped => unstopped.1 trivial
          cases ends
      | reference pending =>
          simp only [replay, Note.Stops]
          cases limits.tooDeep? (frames + pending) with
          | none => exact inductionHypothesis.trans (and_iff_right fun differs => differs rfl).symm
          | some limit =>
              refine iff_of_false (fun ends => ?_) fun unstopped =>
                unstopped.1 (Option.some_ne_none limit)
              cases ends

/-- A replay that goes to the end gives the findings of all notes. -/
theorem replay_found_of_ok {notes : List Note} {record : Record}
    (ends : (replay limits [] frames notes record).1 = .ok ()) :
    (replay limits [] frames notes record).2.found.reverse =
      record.found.reverse ++ notes.filterMap Note.finding? := by
  induction notes generalizing record with
  | nil => exact (List.append_nil _).symm
  | cons note rest inductionHypothesis =>
      cases note with
      | exhausted => cases ends
      | hop definition pending => exact @inductionHypothesis (record.withHop _) ends
      | finding rejection =>
          rw [replay_finding] at ends ⊢
          split at ends
          · cases ends
          · rename_i notEnough
            rw [if_neg notEnough, inductionHypothesis ends]
            simp [Record.withFinding, Note.finding?]
      | reference pending =>
          simp only [replay] at ends ⊢
          split at ends
          · cases ends
          · exact inductionHypothesis ends

end Replay

/-! ## Results -/

/-- How a validation without a limit of findings is aborted, if it is. -/
def Limits.abort (limits : Limits) : Abort :=
  match limits.depth with
  | some limit => .tooDeep limit
  | none => .endless

section Result

variable {options : Options} {schema : Schema} {value : Json}

/-- A validation that no note of its trace stops gives the findings of the trace. -/
theorem result_of_unstopped (unbounded : options.limits.findings = none)
    (unstopped : ∀ note ∈ trace schema (hopAllowance schema value options.limits) schema value []
      none, ¬ note.Stops options.limits 1) :
    (validate options schema value).result =
      .ok (traceFindings schema (hopAllowance schema value options.limits) schema value []
        none) := by
  have ends := (@replay_ok_iff _ 1 unbounded _ {}).mpr unstopped
  rw [validate_result, verdict_eq_ok_iff]
  exact ⟨.inl ends, replay_found_of_ok ends⟩

/-- A validation that a note stops is aborted as its limits have it. -/
theorem result_of_stopped (unbounded : options.limits.findings = none) {note : Note}
    (isNote : note ∈ trace schema (hopAllowance schema value options.limits) schema value []
      none)
    (stops : note.Stops options.limits 1) :
    (validate options schema value).result = .error options.limits.abort := by
  rw [validate_result]
  cases ending : (outcome options.limits (hopAllowance schema value options.limits) schema
      value).1 with
  | ok => exact absurd stops ((replay_ok_iff unbounded).mp ending note isNote)
  | error halt =>
      cases halt with
      | enoughFindings => exact absurd ending (replay_ne_enoughFindings unbounded _ _)
      | tooDeep limit =>
          rw [Limits.abort, (reference_of_tooDeep ending).1]
          exact verdict_eq_tooDeep_iff.mpr ending
      | endless =>
          cases bounded : options.limits.depth with
          | none =>
              rw [Limits.abort, bounded]
              exact verdict_eq_endless_iff.mpr ending
          | some limit =>
              rw [hopAllowance, bounded] at ending
              exact absurd ending (outcome_ne_endless bounded schema value)

end Result

/-- Verification and validation do not depend on the order of entries.  Of two schemas that are
equal as schemas, verification accepts both or neither.  If moreover two values are equal up to
the order of members, then at every depth limit, and without one, both validations exceed the
limit, or neither has an end, or both give findings, which are permutations of each other. -/
theorem validate_order_insensitive (first second : Schema) (value other : Json)
    (schemaProper : first.toJson.proper = true) (distinct : first.DistinctValues)
    (valueProper : value.proper = true) (sameSchema : first.equivalent second = true)
    (sameValue : value.equivalent other = true) :
    (first.verify = .ok () ↔ second.verify = .ok ()) ∧
    ∀ maxDepth,
      (∃ limit, (validate { maxDepth } first value).result = .error (.tooDeep limit) ∧
        (validate { maxDepth } second other).result = .error (.tooDeep limit)) ∨
      ((validate { maxDepth } first value).result = .error .endless ∧
        (validate { maxDepth } second other).result = .error .endless) ∨
      ∃ findings others, (validate { maxDepth } first value).result = .ok findings ∧
        (validate { maxDepth } second other).result = .ok others ∧ findings.Perm others := by
  have schemasCorrespond : first.Corresponds second := ⟨schemaProper, distinct, sameSchema⟩
  have valuesCorrespond : value.Corresponds other := ⟨valueProper, sameValue⟩
  have bisimulation := Schema.corresponds_bisimulation
  refine ⟨bisimulation.verify_iff schemasCorrespond, fun maxDepth => ?_⟩
  let options : Options := { maxDepth }
  have unbounded : options.limits.findings = none := rfl
  have sameAllowance := hopAllowance_eq (bisimulation first second schemasCorrespond)
    valuesCorrespond options.limits
  have sameNotes := trace_perm bisimulation schemasCorrespond
    (hopAllowance first value options.limits) schemasCorrespond valuesCorrespond [] none
  by_cases stopped : ∃ note ∈ trace first (hopAllowance first value options.limits) first value []
      none, note.Stops options.limits 1
  · obtain ⟨note, isNote, stops⟩ := stopped
    have isOther := sameNotes.mem_iff.mp isNote
    rw [sameAllowance] at isOther
    have aborted := result_of_stopped unbounded isNote stops
    have otherAborted := result_of_stopped unbounded isOther stops
    cases isAbort : options.limits.abort with
    | tooDeep limit =>
        rw [isAbort] at aborted otherAborted
        exact .inl ⟨limit, aborted, otherAborted⟩
    | endless =>
        rw [isAbort] at aborted otherAborted
        exact .inr (.inl ⟨aborted, otherAborted⟩)
  · have unstopped (note : Note) (isNote : note ∈ trace first
        (hopAllowance first value options.limits) first value [] none) :
        ¬ note.Stops options.limits 1 := fun stops => stopped ⟨note, isNote, stops⟩
    have otherUnstopped (note : Note) (isNote : note ∈ trace second
        (hopAllowance second other options.limits) second other [] none) :
        ¬ note.Stops options.limits 1 := by
      rw [← sameAllowance] at isNote
      exact unstopped note (sameNotes.mem_iff.mpr isNote)
    refine .inr (.inr ⟨_, _, result_of_unstopped unbounded unstopped,
      result_of_unstopped unbounded otherUnstopped, ?_⟩)
    rw [← sameAllowance]
    exact sameNotes.filterMap Note.finding?

/-- Two properties that refer to two definitions. -/
def journeySchema : Schema where
  definitions := some [("code", { enum := some ["a", "b"] }), ("count", { type := some .uint8 })]
  properties := some [("from", { ref := some "code" }), ("legs", { ref := some "count" })]

/-- The same schema with all its entries in another order. -/
def journeyReordered : Schema where
  definitions := some [("count", { type := some .uint8 }), ("code", { enum := some ["b", "a"] })]
  properties := some [("legs", { ref := some "count" }), ("from", { ref := some "code" })]

/-- With the entries in another order the same three findings are made, in the opposite order,
and a limit of one frame forbids the first reference of either. -/
theorem validate_order_insensitive_journey :
    journeySchema.toJson.proper = true ∧ journeySchema.DistinctValues ∧
    journeySchema.equivalent journeyReordered = true ∧
    journeyReordered.verify = .ok () ∧
    (validate { maxDepth := some 1 } journeyReordered
      (.object [("via", .null), ("legs", .null), ("from", .null)])).result =
        .error (.tooDeep 1) ∧
    ∃ findings, (validate {} journeyReordered
      (.object [("via", .null), ("legs", .null), ("from", .null)])).result = .ok findings ∧
      List.Perm [⟨["from"], ["definitions", "code", "enum"]⟩,
        ⟨["legs"], ["definitions", "count", "type"]⟩, ⟨["via"], []⟩] findings := by
  have isRead : Schema.ofJson journeySchema.toJson = .ok journeySchema := rfl
  have distinct := Schema.distinctValues_of_ofJson isRead
  have sameSchema : journeySchema.equivalent journeyReordered = true := by decide +kernel
  obtain ⟨verified, results⟩ := validate_order_insensitive journeySchema journeyReordered
    (.object [("from", .null), ("legs", .null), ("via", .null)])
    (.object [("via", .null), ("legs", .null), ("from", .null)]) rfl distinct rfl
    sameSchema rfl
  refine ⟨rfl, distinct, sameSchema, verified.mp rfl, ?_, ?_⟩
  · obtain ⟨limit, tooDeep, otherTooDeep⟩ | ⟨endless, -⟩ | ⟨_, _, isOk, -⟩ := results (some 1)
    · cases tooDeep
      exact otherTooDeep
    · cases endless
    · cases isOk
  · obtain ⟨_, tooDeep, -⟩ | ⟨endless, -⟩ | ⟨findings, others, isOk, otherIsOk, sameFindings⟩ :=
      results none
    · cases tooDeep
    · cases endless
    · cases isOk
      exact ⟨others, otherIsOk, sameFindings⟩

end FormSchema
