import FormSchema.Proofs.Schema.Opening
import FormSchema.Proofs.Validation.Breach
import FormSchema.Proofs.Validation.Reordering

/-!
# Validation with an opened schema

Opening a schema takes away the rejections of members that are not declared, at the chosen places,
and leaves everything else in the trace as it is.  Where such a rejection comes from cannot always
be told from the finding alone, because a place in a schema may be that of a rule and that of
another schema at once.  So `attributed` is the trace with the place of the schema that each note is
made for.  Forgetting the places gives the trace, and dropping the rejections in question gives the
trace of the opened schema.
-/

namespace FormSchema

/-! ## Tasks of an open shape -/

/-- Does the task reject a member that is not declared?  The rule on such members has no place of
its own, so they are rejected at the place of the schema itself. -/
def Task.refusesMember {α : Type} (place : List String) : Task α → Bool
  | reject _ rejected => rejected = place
  | _ => false

namespace Shape

variable {α : Type}

/-- Of tasks that are no such rejections all remain. -/
theorem filter_refusesMember_map {β : Type} {place : List String} {items : List β}
    {toTask : β → Task α} (others : ∀ item, (toTask item).refusesMember place = false) :
    (items.map toTask).filter (fun task => !task.refusesMember place) = items.map toTask := by
  rw [List.filter_eq_self, List.forall_mem_map]
  intro item _
  rw [others, Bool.not_false]

theorem expandProperties_open (required optional : Option (List (String × α))) (additional : Bool)
    (members : List (String × Json)) (place : List String) (tag : Option String) :
    expandProperties required optional true members place tag =
      (expandProperties required optional additional members place tag).filter fun task =>
        !task.refusesMember place := by
  have requiredKept : ((required.getD []).map (expandRequired members place)).filter
      (fun task => !task.refusesMember place) =
        (required.getD []).map (expandRequired members place) := by
    apply filter_refusesMember_map
    rintro ⟨name, property⟩
    rw [expandRequired]
    split <;> simp [Task.refusesMember]
  have optionalKept : ((optional.getD []).filterMap (expandOptional members place)).filter
      (fun task => !task.refusesMember place) =
        (optional.getD []).filterMap (expandOptional members place) := by
    apply List.filter_eq_self.mpr
    intro task isTask
    rcases List.mem_filterMap.mp isTask with ⟨⟨name, property⟩, -, expanded⟩
    rcases Option.map_eq_some_iff.mp expanded with ⟨value, -, rfl⟩
    rfl
  have undeclaredDropped (undeclared : List (String × Json)) :
      (undeclared.map fun member => (.reject [member.1] place : Task α)).filter
        (fun task => !task.refusesMember place) = [] := by
    apply List.filter_eq_nil_iff.mpr
    intro task isTask
    rcases List.mem_map.mp isTask with ⟨member, -, rfl⟩
    simp [Task.refusesMember]
  rw [expandProperties, expandProperties, List.filter_append, List.filter_append, requiredKept,
    optionalKept]
  cases additional with
  | true => rfl
  | false => simp only [Bool.false_eq_true, if_false, if_true, undeclaredDropped]

theorem expandBranches_refusesMember (rule : Discriminator α) (members : List (String × Json))
    (place : List String) : (expandBranches rule members place).refusesMember place = false := by
  rw [expandBranches]
  split
  · simp [Task.refusesMember]
  · split <;> simp [Task.refusesMember]
  · simp [Task.refusesMember]

/-- Allowing other members takes away the rejections of members that are not declared. -/
theorem expand_allowing (allowed : Bool) (shape : Shape α) (value : Json) (place : List String)
    (tag : Option String) :
    (shape.allowing allowed).expand value place tag =
      (shape.expand value place tag).filter fun task =>
        !(allowed && task.refusesMember place) := by
  cases allowed with
  | false =>
      have same : shape.allowing false = shape := by
        cases shape <;> simp [allowing]
      simp [same]
  | true =>
      cases shape with
      | empty => rfl
      | ref name => rfl
      | type primitive =>
          simp only [allowing, expand]
          split <;> simp [Task.refusesMember]
      | enum texts =>
          simp only [allowing, expand]
          split
          · split <;> simp [Task.refusesMember]
          · simp [Task.refusesMember]
      | elements item =>
          cases value with
          | array items => exact (filter_refusesMember_map fun _ => rfl).symm
          | _ => simp [allowing, expand, Task.refusesMember]
      | properties required optional additional =>
          cases value with
          | object members =>
              rw [allowing, Bool.or_true]
              exact expandProperties_open required optional additional members place tag
          | _ => simp [allowing, expand, Task.refusesMember]
      | values member =>
          cases value with
          | object members => exact (filter_refusesMember_map fun _ => rfl).symm
          | _ => simp [allowing, expand, Task.refusesMember]
      | discriminator rule =>
          cases value with
          | object members =>
              simp [allowing, expand, expandBranches_refusesMember]
          | _ => simp [allowing, expand, Task.refusesMember]

end Shape

/-! ## Notes with the places of their schemas -/

/-- A note together with the place of the schema that it is made for. -/
structure Attributed where
  note : Note
  origin : List String

namespace Attributed

/-- Change the note. -/
def change (function : Note → Note) (attributed : Attributed) : Attributed :=
  { attributed with note := function attributed.note }

/-- Does the note remain if the schemas at the chosen places are opened?  It does unless it rejects
a member that such a schema does not declare. -/
def kept (chosen : List String → Bool) (attributed : Attributed) : Bool :=
  match attributed.note with
  | .finding rejection =>
      !(chosen attributed.origin && rejection.schemaPath = attributed.origin)
  | _ => true

end Attributed

/-- The attributed trace of a schema: of a value, at a place, with the tag that chose the schema. -/
abbrev Attributor :=
  Json → List String → Option String → List Attributed

/-- The attributed notes on one task of a schema at a place. -/
def Task.attributed (follow : String → List Attributed) (origin : List String) :
    Task Attributor → List Attributed
  | .reject suffix place => [⟨.finding ⟨suffix, place⟩, origin⟩]
  | .visit inner value suffix place tag =>
      (inner value place tag).map (Attributed.change (Note.under suffix))
  | .follow name => follow name

/-- The attributed notes on all tasks of a shape. -/
def attributedShape (follow : List String → String → Json → List Attributed)
    (shape : Shape Attributor) : Attributor :=
  fun value place tag =>
    (shape.expand value place tag).flatMap
      (Task.attributed (fun name => follow place name value) place)

/-- The attributed notes on following a reference that stands at a place. -/
def attributedReference (root : Schema) :
    Nat → List String → String → Json → List Attributed
  | 0, origin, name, _ =>
      match root.definition? name with
      | some _ => [⟨.reference 0, origin⟩, ⟨.exhausted, origin⟩]
      | none => [⟨.reference 0, origin⟩]
  | allowance + 1, origin, name, value =>
      match root.definition? name with
      | some target =>
          ⟨.reference 0, origin⟩ :: ⟨.hop name 0, origin⟩ ::
            (target.fold (attributedShape (attributedReference root allowance)) value
              ["definitions", name] none).map (Attributed.change Note.deeper)
      | none => [⟨.reference 0, origin⟩]

/-- The trace of a schema whose references are resolved in `root`, with the places of the
schemas. -/
def attributed (root : Schema) (allowance : Nat) (schema : Schema) : Attributor :=
  schema.fold (attributedShape (attributedReference root allowance))

section Equations

variable {root : Schema} {allowance : Nat}

/-- The attributed notes on one task of a schema at a place. -/
def attributedTask (root : Schema) (allowance : Nat) (value : Json) (origin : List String)
    (task : Task Schema) : List Attributed :=
  (task.map (attributed root allowance)).attributed
    (fun name => attributedReference root allowance origin name value) origin

theorem attributed_eq (schema : Schema) (value : Json) (place : List String)
    (tag : Option String) :
    attributed root allowance schema value place tag =
      (schema.shape.expand value place tag).flatMap
        (attributedTask root allowance value place) := by
  rw [attributed, Schema.fold_eq, attributedShape, Shape.expand_map, List.flatMap_map]
  rfl

@[simp]
theorem attributedTask_reject (value : Json) (origin suffix place : List String) :
    attributedTask root allowance value origin (.reject suffix place) =
      [⟨.finding ⟨suffix, place⟩, origin⟩] :=
  rfl

@[simp]
theorem attributedTask_visit (value innerValue : Json) (inner : Schema)
    (origin suffix place : List String) (tag : Option String) :
    attributedTask root allowance value origin (.visit inner innerValue suffix place tag) =
      (attributed root allowance inner innerValue place tag).map
        (Attributed.change (Note.under suffix)) :=
  rfl

@[simp]
theorem attributedTask_follow (value : Json) (origin : List String) (name : String) :
    attributedTask root allowance value origin (.follow name) =
      attributedReference root allowance origin name value :=
  rfl

theorem attributedReference_zero {name : String} {target : Schema}
    (defined : root.definition? name = some target) (origin : List String) (value : Json) :
    attributedReference root 0 origin name value =
      [⟨.reference 0, origin⟩, ⟨.exhausted, origin⟩] := by
  rw [attributedReference, defined]

theorem attributedReference_succ {name : String} {target : Schema}
    (defined : root.definition? name = some target) (origin : List String) (value : Json) :
    attributedReference root (allowance + 1) origin name value =
      ⟨.reference 0, origin⟩ :: ⟨.hop name 0, origin⟩ ::
        (attributed root allowance target value ["definitions", name] none).map
          (Attributed.change Note.deeper) := by
  rw [attributedReference, defined]
  rfl

theorem attributedReference_of_undefined {name : String}
    (undefined : root.definition? name = none) (origin : List String) (value : Json) :
    attributedReference root allowance origin name value = [⟨.reference 0, origin⟩] := by
  cases allowance with
  | zero => rw [attributedReference, undefined]
  | succ allowance => rw [attributedReference, undefined]

end Equations

theorem map_note_change (function : Note → Note) (marked : List Attributed) :
    (marked.map (Attributed.change function)).map Attributed.note =
      (marked.map Attributed.note).map function := by
  rw [List.map_map, List.map_map]
  rfl

/-- Forgetting the places gives the trace. -/
theorem map_note_attributed (root : Schema) (allowance : Nat) (schema : Schema) (value : Json)
    (place : List String) (tag : Option String) :
    (attributed root allowance schema value place tag).map Attributed.note =
      trace root allowance schema value place tag := by
  induction allowance, schema, value, place, tag using recursionInduction root with
  | step allowance schema value place tag inside behind =>
      rw [attributed_eq, trace_eq, List.map_flatMap]
      apply List.flatMap_congr
      intro task isTask
      cases task with
      | reject suffix rejected => rfl
      | visit inner innerValue suffix innerPlace innerTag =>
          rw [attributedTask_visit, traceTask_visit, map_note_change, inside _ _ _ _ _ isTask]
      | follow name =>
          rw [attributedTask_follow, traceTask_follow]
          cases defined : root.definition? name with
          | none =>
              rw [attributedReference_of_undefined defined, traceReference_of_undefined defined]
              rfl
          | some target =>
              cases allowance with
              | zero =>
                  rw [attributedReference_zero defined, traceReference_zero defined]
                  rfl
              | succ less =>
                  have shaped := Shape.follow_mem_expand_iff.mp isTask
                  rw [attributedReference_succ defined, traceReference_succ defined,
                    ← behind name target less shaped defined rfl, ← map_note_change]
                  rfl

/-! ## Opened schemas -/

section Opened

variable (chosen : List String → Bool)

/-- What changes notes inside a value or a reference keeps the findings where they are in the
schema, and so what remains. -/
theorem filter_kept_under (tokens : List String) (marked : List Attributed) :
    (marked.map (Attributed.change (Note.under tokens))).filter (Attributed.kept chosen) =
      (marked.filter (Attributed.kept chosen)).map (Attributed.change (Note.under tokens)) := by
  rw [List.filter_map]
  congr 2
  funext mark
  rcases mark with ⟨note, origin⟩
  cases note <;> rfl

theorem filter_kept_deeper (marked : List Attributed) :
    (marked.map (Attributed.change Note.deeper)).filter (Attributed.kept chosen) =
      (marked.filter (Attributed.kept chosen)).map (Attributed.change Note.deeper) := by
  rw [List.filter_map]
  congr 2
  funext mark
  rcases mark with ⟨note, origin⟩
  cases note <;> rfl

/-- The tasks that are dropped are those without notes that remain. -/
theorem flatMap_filter {α β : Type} (keep : α → Bool) (noted : α → List β) (tasks : List α) :
    (tasks.filter keep).flatMap noted =
      tasks.flatMap fun task => if keep task then noted task else [] := by
  induction tasks with
  | nil => rfl
  | cons task rest inductionHypothesis =>
      rw [List.filter_cons, List.flatMap_cons, ← inductionHypothesis]
      split <;> rfl

/-- The trace of an opened schema is what remains of the trace. -/
theorem trace_opened (root : Schema) (allowance : Nat) (schema : Schema) (value : Json)
    (place : List String) (tag : Option String) :
    trace (root.opened chosen) allowance (schema.openedAt chosen place) value place tag =
      ((attributed root allowance schema value place tag).filter
        (Attributed.kept chosen)).map Attributed.note := by
  induction allowance, schema, value, place, tag using recursionInduction root with
  | step allowance schema value place tag inside behind =>
      -- Both traces go through the tasks of the schema itself, of which one drops some.
      rw [trace_eq, attributed_eq, Schema.shape_openedAt, Shape.expand_allowing,
        Shape.expand_mapAt, flatMap_filter, List.flatMap_map, List.filter_flatMap, List.map_flatMap]
      apply List.flatMap_congr
      intro task isTask
      cases task with
      | reject suffix rejected =>
          have sameTest : (!(chosen place &&
              (Task.reject suffix rejected : Task Schema).refusesMember place)) =
                Attributed.kept chosen ⟨.finding ⟨suffix, rejected⟩, place⟩ := rfl
          simp only [Task.mapAt, attributedTask_reject, traceTask_reject, sameTest]
          cases isKept : Attributed.kept chosen ⟨.finding ⟨suffix, rejected⟩, place⟩ <;>
            simp [isKept]
      | visit inner innerValue suffix innerPlace innerTag =>
          simp only [Task.mapAt, Task.refusesMember, attributedTask_visit, traceTask_visit,
            filter_kept_under, map_note_change, ← inside _ _ _ _ _ isTask, Bool.and_false,
            Bool.not_false, if_true]
      | follow name =>
          simp only [Task.mapAt, Task.refusesMember, attributedTask_follow, traceTask_follow,
            Bool.and_false, Bool.not_false, if_true]
          have target? := Schema.definition?_opened chosen root name
          cases defined : root.definition? name with
          | none =>
              rw [defined, Option.map_none] at target?
              rw [attributedReference_of_undefined defined, traceReference_of_undefined target?]
              rfl
          | some target =>
              rw [defined, Option.map_some] at target?
              cases allowance with
              | zero =>
                  rw [attributedReference_zero defined, traceReference_zero target?]
                  rfl
              | succ less =>
                  have shaped := Shape.follow_mem_expand_iff.mp isTask
                  have ofTarget := behind name target less shaped defined rfl
                  rw [attributedReference_succ defined, traceReference_succ target?, ofTarget,
                    ← map_note_change, ← filter_kept_deeper]
                  rfl

end Opened

/-! ## Findings and their origins -/

/-- A finding together with the place of the schema that it is made for. -/
structure Emission where
  finding : Finding
  origin : List String
  deriving DecidableEq

/-- The finding that is noted, with its origin, if it is one. -/
def Attributed.emission? (attributed : Attributed) : Option Emission :=
  attributed.note.finding?.map fun rejection => ⟨rejection, attributed.origin⟩

/-- All findings that a validation comes upon unless a limit keeps it from going on, with their
origins. -/
def emissions (options : Options) (schema : Schema) (value : Json) : List Emission :=
  (attributed schema (hopAllowance schema value options.limits) schema value [] none).filterMap
    Attributed.emission?

namespace Emission

/-- Is a member rejected because it is not declared?  The rule on such members has no place of its
own. -/
def refusesMember (emission : Emission) : Bool :=
  emission.finding.schemaPath = emission.origin

/-- What lies in a value breaks a rule of the schema at the origin. -/
inductive Explained (root : Schema) (value : Json) : Emission → Prop where
  | intro {schema : Schema} {place path suffix rule : List String} {tag : Option String}
      {broken : Json} (isPlaced : root.Placed place tag schema)
      (lies : value.proper = true → value.at? path = some broken)
      (breach : Breach schema tag broken suffix rule) :
      Explained root value ⟨⟨path ++ suffix, place ++ rule⟩, place⟩

/-- The rule that is broken is the one on members that are not declared. -/
inductive RefusesMember (root : Schema) (value : Json) : Emission → Prop where
  | intro {schema : Schema} {place path : List String} {tag : Option String}
      {members : List (String × Json)} {name : String} (isPlaced : root.Placed place tag schema)
      (lies : value.proper = true → value.at? path = some (.object members))
      (breach : Breach schema tag (.object members) [name] []) :
      RefusesMember root value ⟨⟨path ++ [name], place⟩, place⟩

variable {root : Schema} {value : Json}

/-- No other rule stands at the place of the schema itself. -/
theorem Explained.refusesMember_iff {emission : Emission}
    (explained : Explained root value emission) :
    emission.refusesMember = true ↔ RefusesMember root value emission := by
  constructor
  · intro refuses
    rcases explained with @⟨schema, place, path, suffix, rule, tag, broken, isPlaced, lies, breach⟩
    obtain rfl : rule = [] := by simpa [refusesMember] using refuses
    rw [List.append_nil]
    cases breach with
    | undeclared shaped isMember notRequired notOptional notTag =>
        exact .intro isPlaced lies (.undeclared shaped isMember notRequired notOptional notTag)
  · rintro ⟨isPlaced, lies, breach⟩
    simp [refusesMember]

/-- What is explained inside a value is explained in the value. -/
theorem Explained.under {innerValue : Json} {rejection : Finding} {origin tokens : List String}
    (explained : Explained root innerValue ⟨rejection, origin⟩)
    (leads : value.proper = true → value.at? tokens = some innerValue) :
    Explained root value ⟨rejection.under tokens, origin⟩ := by
  rcases explained with ⟨isPlaced, lies, breach⟩
  rw [Finding.under, ← List.append_assoc]
  refine .intro isPlaced ?_ breach
  intro isProper
  have innerProper := Json.proper_of_at? isProper (leads isProper)
  rw [Json.at?_append, leads isProper, Option.bind_some, lies innerProper]

end Emission

/-- The findings of an attributed trace that begins at a place where validation can get to are
explained. -/
theorem explained_of_mem_attributed {root schema : Schema} {allowance : Nat} {value : Json}
    {place origin : List String} {tag : Option String} {rejection : Finding}
    (isPlaced : root.Placed place tag schema)
    (isNoted : ⟨.finding rejection, origin⟩ ∈ attributed root allowance schema value place tag) :
    Emission.Explained root value ⟨rejection, origin⟩ := by
  induction allowance, schema, value, place, tag using recursionInduction root
    generalizing rejection with
  | step allowance schema value place tag inside behind =>
      rw [attributed_eq, List.mem_flatMap] at isNoted
      rcases isNoted with ⟨task, isTask, isNoted⟩
      cases task with
      | reject suffix rejected =>
          cases List.mem_singleton.mp isNoted
          rcases breach_of_reject_mem_expand isTask with ⟨rule, rfl, breach⟩
          have lies : value.proper = true → value.at? [] = some value := fun _ => rfl
          exact .intro isPlaced lies breach
      | visit inner innerValue suffix innerPlace innerTag =>
          rcases List.mem_map.mp isNoted with ⟨⟨note, _⟩, isInner, same⟩
          cases note <;> cases same
          rcases child_of_visit_mem_expand isTask with ⟨tokens, rfl, step, lies⟩
          exact (inside _ _ _ _ _ isTask (.child isPlaced step) isInner).under lies
      | follow name =>
          rw [attributedTask_follow] at isNoted
          cases defined : root.definition? name with
          | none =>
              rw [attributedReference_of_undefined defined] at isNoted
              cases List.mem_singleton.mp isNoted
          | some target =>
              cases allowance with
              | zero =>
                  rw [attributedReference_zero defined] at isNoted
                  simp at isNoted
              | succ less =>
                  rw [attributedReference_succ defined] at isNoted
                  simp only [List.mem_cons, Attributed.mk.injEq, reduceCtorEq, false_and,
                    false_or] at isNoted
                  rcases List.mem_map.mp isNoted with ⟨⟨note, _⟩, isInner, same⟩
                  cases note <;> cases same
                  have shaped := Shape.follow_mem_expand_iff.mp isTask
                  exact behind name target less shaped defined rfl (.definition defined) isInner

theorem explained_of_mem_emissions {options : Options} {schema : Schema} {value : Json}
    {emission : Emission} (isEmitted : emission ∈ emissions options schema value) :
    emission.Explained schema value := by
  rcases List.mem_filterMap.mp isEmitted with ⟨⟨note, origin⟩, isNoted, isEmission⟩
  cases note <;> cases isEmission
  exact explained_of_mem_attributed .root isNoted

/-- The findings of a trace are those that are emitted. -/
theorem findings_of_attributed (marked : List Attributed) :
    (marked.map Attributed.note).filterMap Note.finding? =
      (marked.filterMap Attributed.emission?).map Emission.finding := by
  rw [List.filterMap_map, List.map_filterMap]
  congr 1
  funext mark
  rcases mark with ⟨note, origin⟩
  cases note <;> rfl

/-- The findings that remain are all but the refusals of members at the chosen places. -/
theorem filterMap_emission?_kept (chosen : List String → Bool) (marked : List Attributed) :
    (marked.filter (Attributed.kept chosen)).filterMap Attributed.emission? =
      (marked.filterMap Attributed.emission?).filter fun emission =>
        !(chosen emission.origin && emission.refusesMember) := by
  induction marked with
  | nil => rfl
  | cons mark rest inductionHypothesis =>
      rcases mark with ⟨note, origin⟩
      cases note with
      | finding rejection =>
          have isEmission : Attributed.emission? ⟨.finding rejection, origin⟩ =
              some ⟨rejection, origin⟩ := rfl
          have sameTest : Attributed.kept chosen ⟨.finding rejection, origin⟩ =
              !(chosen origin && Emission.refusesMember ⟨rejection, origin⟩) := rfl
          rw [List.filterMap_cons_some isEmission, List.filter_cons, List.filter_cons, ← sameTest,
            ← inductionHypothesis]
          cases Attributed.kept chosen ⟨.finding rejection, origin⟩ <;> rfl
      | _ => exact inductionHypothesis

theorem hopAllowance_opened (chosen : List String → Bool) (schema : Schema) (value : Json)
    (limits : Limits) :
    hopAllowance (schema.opened chosen) value limits = hopAllowance schema value limits := by
  have sameLength : ((schema.opened chosen).definitions.getD []).length =
      (schema.definitions.getD []).length := by
    have sameNames := congrArg List.length
      (Schema.names_openedNamed chosen ["definitions"] schema.definitions)
    rw [Members.names, Members.names, List.length_map, List.length_map] at sameNames
    cases schema
    exact sameNames
  rw [hopAllowance, hopAllowance, sameLength]

section Result

variable (chosen : List String → Bool) {options : Options} {schema : Schema} {value : Json}

/-- The trace of an opened schema as the outermost one. -/
theorem trace_opened_root :
    trace (schema.opened chosen) (hopAllowance (schema.opened chosen) value options.limits)
        (schema.opened chosen) value [] none =
      ((attributed schema (hopAllowance schema value options.limits) schema value [] none).filter
        (Attributed.kept chosen)).map Attributed.note := by
  rw [hopAllowance_opened]
  exact trace_opened chosen schema _ schema value [] none

/-- What stops a replay remains when a schema is opened, and nothing else comes to stop it. -/
theorem stops_opened_iff {limits : Limits} (marked : List Attributed) :
    (∃ note ∈ (marked.filter (Attributed.kept chosen)).map Attributed.note, note.Stops limits 1) ↔
      ∃ note ∈ marked.map Attributed.note, note.Stops limits 1 := by
  simp only [List.mem_map, List.mem_filter]
  constructor
  · rintro ⟨_, ⟨mark, ⟨isMark, -⟩, rfl⟩, stops⟩
    exact ⟨_, ⟨mark, isMark, rfl⟩, stops⟩
  · rintro ⟨_, ⟨mark, isMark, rfl⟩, stops⟩
    refine ⟨_, ⟨mark, ⟨isMark, ?_⟩, rfl⟩, stops⟩
    rcases mark with ⟨note, origin⟩
    cases note with
    | finding rejection => exact absurd stops id
    | _ => rfl

/-- The findings of an opened schema are those that remain. -/
theorem traceFindings_opened :
    traceFindings (schema.opened chosen) (hopAllowance (schema.opened chosen) value options.limits)
        (schema.opened chosen) value [] none =
      ((emissions options schema value).filter fun emission =>
        !(chosen emission.origin && emission.refusesMember)).map Emission.finding := by
  rw [traceFindings, trace_opened_root, findings_of_attributed, filterMap_emission?_kept]
  rfl

theorem traceFindings_eq_emissions :
    traceFindings schema (hopAllowance schema value options.limits) schema value [] none =
      (emissions options schema value).map Emission.finding := by
  rw [traceFindings, ← map_note_attributed, findings_of_attributed]
  rfl

end Result

/-- Opening a schema never adds findings.  Whichever places are chosen, the schema that allows
other members at these places passes verification exactly if the schema does, and fails with the
same violation.  Each finding is emitted by a schema at its origin, of which it breaks a rule.  At
every depth limit, and without one, both validations are aborted in the same way, or both give
findings; then those with the opened schema are the others in the same order, without the refusals
of members that a schema at a chosen place does not declare. -/
theorem validate_opened (schema : Schema) (chosen : List String → Bool) (value : Json)
    (maxDepth : Option Nat) :
    (schema.opened chosen).verify = schema.verify ∧
    (∀ emission ∈ emissions { maxDepth } schema value, emission.Explained schema value ∧
      (emission.refusesMember = true ↔ emission.RefusesMember schema value)) ∧
    ((∃ abort, (validate { maxDepth } schema value).result = .error abort ∧
        (validate { maxDepth } (schema.opened chosen) value).result = .error abort) ∨
      ((validate { maxDepth } schema value).result =
          .ok ((emissions { maxDepth } schema value).map Emission.finding) ∧
        (validate { maxDepth } (schema.opened chosen) value).result =
          .ok (((emissions { maxDepth } schema value).filter fun emission =>
            !(chosen emission.origin && emission.refusesMember)).map Emission.finding))) := by
  refine ⟨Schema.verify_opened chosen schema, ?_, ?_⟩
  · intro emission isEmitted
    have explained := explained_of_mem_emissions isEmitted
    exact ⟨explained, explained.refusesMember_iff⟩
  · let options : Options := { maxDepth }
    have unbounded : options.limits.findings = none := rfl
    have sameStops := @stops_opened_iff chosen options.limits
      (attributed schema (hopAllowance schema value options.limits) schema value [] none)
    rw [← trace_opened_root, map_note_attributed] at sameStops
    by_cases stopped : ∃ note ∈ trace schema (hopAllowance schema value options.limits) schema
        value [] none, note.Stops options.limits 1
    · rcases sameStops.mpr stopped with ⟨openedNote, isOpenedNote, openedStops⟩
      rcases stopped with ⟨note, isNote, stops⟩
      exact .inl ⟨_, result_of_stopped unbounded isNote stops,
        result_of_stopped unbounded isOpenedNote openedStops⟩
    · have unstopped := not_exists.mp stopped
      have openedUnstopped := not_exists.mp (mt sameStops.mp stopped)
      simp only [not_and] at unstopped openedUnstopped
      have wholeResult := result_of_unstopped unbounded unstopped
      have openedResult := result_of_unstopped unbounded openedUnstopped
      rw [traceFindings_eq_emissions] at wholeResult
      rw [traceFindings_opened] at openedResult
      exact .inr ⟨wholeResult, openedResult⟩

/-- A meeting of two people, each of which has a name. -/
def meetingSchema : Schema where
  properties := some [
    ("guest", { properties := some [("name", { type := some .string })] }),
    ("host", { properties := some [("name", { type := some .string })] })]

/-- Without a host, the place of the schema for the host is that of the finding as well.  Opening
the schemas of the people takes away the refusal of the nickname and leaves this finding. -/
theorem validate_opened_meeting :
    (validate {} meetingSchema (.object [("guest", .object [("nickname", .null)]),
      ("topic", .null)])).result =
        .ok [⟨["guest"], ["properties", "guest", "properties", "name"]⟩,
          ⟨["guest", "nickname"], ["properties", "guest"]⟩,
          ⟨[], ["properties", "host"]⟩, ⟨["topic"], []⟩] ∧
    (validate {} (meetingSchema.opened fun place => place.length = 2)
      (.object [("guest", .object [("nickname", .null)]), ("topic", .null)])).result =
        .ok [⟨["guest"], ["properties", "guest", "properties", "name"]⟩,
          ⟨[], ["properties", "host"]⟩, ⟨["topic"], []⟩] := by
  have result : (validate {} meetingSchema (.object [("guest", .object [("nickname", .null)]),
      ("topic", .null)])).result =
        .ok [⟨["guest"], ["properties", "guest", "properties", "name"]⟩,
          ⟨["guest", "nickname"], ["properties", "guest"]⟩,
          ⟨[], ["properties", "host"]⟩, ⟨["topic"], []⟩] := rfl
  rcases validate_opened meetingSchema (fun place => place.length = 2)
    (.object [("guest", .object [("nickname", .null)]), ("topic", .null)]) none with
    ⟨-, -, ⟨abort, aborted, -⟩ | ⟨-, openedResult⟩⟩
  · rw [result] at aborted
    cases aborted
  · exact ⟨result, openedResult⟩

end FormSchema
