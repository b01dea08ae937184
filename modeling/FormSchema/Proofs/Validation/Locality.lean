import FormSchema.Proofs.Validation.Breach
import FormSchema.Proofs.Validation.Reordering

/-!
# Findings are local

What a schema finds at one place of a value has nothing to do with what stands at another.  The
exception are tags: the tag of a discriminator decides which branch the whole object is visited
with.  So if two values differ at one place only, and this is not the place of a tag, then the
same findings are made outside the place.

The two expansions of a schema go along with each other: the tasks are the same ones, except for
visits of what contains the place.  The place then lies on the way of the visit, and the rest of
the place is where the inner values differ.
-/

namespace FormSchema

/-! ## Values that differ at one place -/

/-- Two values are the same except for what stands at a place, which both of them have. -/
inductive Json.DifferOnlyAt : List String → Json → Json → Prop where
  | here {first second : Json} : DifferOnlyAt [] first second
  | item {before after : List Json} {first second : Json} {path : List String}
      (inside : DifferOnlyAt path first second) :
      DifferOnlyAt (toString before.length :: path) (.array (before ++ first :: after))
        (.array (before ++ second :: after))
  | member {name : String} {before after : List (String × Json)} {first second : Json}
      {path : List String} (inside : DifferOnlyAt path first second) :
      DifferOnlyAt (name :: path) (.object (before ++ (name, first) :: after))
        (.object (before ++ (name, second) :: after))

/-- Members that differ under one name have the same values under the others. -/
theorem Members.lookup_cases (before after : List (String × Json)) (name : String)
    (first second : Json) (key : String) :
    (before ++ (name, first) :: after).lookup key =
        (before ++ (name, second) :: after).lookup key ∨
      (key = name ∧ (before ++ (name, first) :: after).lookup key = some first ∧
        (before ++ (name, second) :: after).lookup key = some second) := by
  rw [List.lookup_append, List.lookup_append]
  cases before.lookup key with
  | some value => exact .inl rfl
  | none =>
      by_cases same : key = name
      · subst same
        exact .inr ⟨rfl, by simp, by simp⟩
      · have passed : (key == name) = false := by simp [same]
        exact .inl (by rw [List.lookup_cons, List.lookup_cons, passed])

/-! ## Expansions that go along with each other -/

/-- Tasks for two values that differ at one place: the same task, or visits of inner values that
differ at the rest of the place. -/
inductive Task.DifferOnlyAt {α : Type} (path : List String) : Task α → Task α → Prop where
  | same (task : Task α) : DifferOnlyAt path task task
  | visit {inner : α} {first second : Json} {suffix rest place : List String}
      {tag : Option String} (isPath : path = suffix ++ rest)
      (inside : Json.DifferOnlyAt rest first second) :
      DifferOnlyAt path (.visit inner first suffix place tag) (.visit inner second suffix place tag)

namespace Shape

variable {α : Type} {path : List String}

theorem differOnlyAt_refl (tasks : List (Task α)) :
    List.Forall₂ (Task.DifferOnlyAt path) tasks tasks :=
  List.forall₂_same.mpr fun task _ => .same task

section Members

variable (before after : List (String × Json)) (name : String) {first second : Json}
variable (inside : Json.DifferOnlyAt path first second) (place : List String)
include inside

/-- The properties of objects that differ inside one member. -/
theorem expandProperties_differ (required optional : Option (List (String × α)))
    (additional : Bool) (tag : Option String) :
    List.Forall₂ (Task.DifferOnlyAt (name :: path))
      (expandProperties required optional additional (before ++ (name, first) :: after) place tag)
      (expandProperties required optional additional (before ++ (name, second) :: after) place
        tag) := by
  have differ := Members.lookup_cases before after name first second
  refine List.rel_append (List.rel_append ?required ?optional) ?undeclared
  case required =>
    rw [List.forall₂_map_left_iff, List.forall₂_map_right_iff, List.forall₂_same]
    rintro ⟨key, property⟩ -
    simp only [expandRequired]
    rcases differ key with same | ⟨rfl, isFirst, isSecond⟩
    · rw [same]
      exact .same _
    · rw [isFirst, isSecond]
      exact .visit rfl inside
  case optional =>
    have related : ∀ field other : String × α, field = other →
        Option.Rel (Task.DifferOnlyAt (name :: path))
          (expandOptional (before ++ (name, first) :: after) place field)
          (expandOptional (before ++ (name, second) :: after) place other) := by
      rintro ⟨key, property⟩ _ rfl
      simp only [expandOptional]
      rcases differ key with same | ⟨rfl, isFirst, isSecond⟩
      · rw [same]
        cases List.lookup key (before ++ (name, second) :: after) with
        | none => exact .none
        | some value => exact .some (.same _)
      · rw [isFirst, isSecond]
        exact .some (.visit rfl inside)
    exact List.rel_filterMap related (List.forall₂_refl _)
  case undeclared =>
    cases additional with
    | true => exact .nil
    | false =>
        simp only [Bool.false_eq_true, if_false]
        have byNames := @undeclared_eq_names α fun key =>
          declares required key || declares optional key || tag = some key
        have sameNames : Members.names (before ++ (name, first) :: after) =
            Members.names (before ++ (name, second) :: after) := by
          simp [Members.names]
        rw [byNames, byNames, sameNames]
        exact differOnlyAt_refl _

/-- The branches of objects that differ inside one member.  What differs is not the tag, but it
may stand inside something that takes the place of the tag. -/
theorem expandBranches_differ (rule : Discriminator α)
    (avoids : (name :: path).getLast? ≠ some rule.tag) :
    Task.DifferOnlyAt (name :: path)
      (expandBranches rule (before ++ (name, first) :: after) place)
      (expandBranches rule (before ++ (name, second) :: after) place) := by
  simp only [expandBranches]
  rcases Members.lookup_cases before after name first second rule.tag with
    same | ⟨isTag, isFirst, isSecond⟩
  · rw [same]
    split
    · exact .same _
    · split
      · exact .visit (List.nil_append _).symm (.member inside)
      · exact .same _
    · exact .same _
  · rw [isFirst, isSecond]
    cases inside with
    | here => exact absurd (congrArg some isTag.symm) avoids
    | item inside => exact .same _
    | member inside => exact .same _

end Members

theorem accepts_array (primitive : Primitive) (items : List Json) :
    primitive.accepts (.array items) = false := by
  cases primitive <;> rfl

theorem accepts_object (primitive : Primitive) (members : List (String × Json)) :
    primitive.accepts (.object members) = false := by
  cases primitive <;> rfl

/-- The tasks for values that differ inside go along with each other. -/
theorem expand_differ {shape : Shape α} {token : String} {first second : Json}
    (differ : Json.DifferOnlyAt (token :: path) first second)
    (avoids : ∀ rule, shape = .discriminator rule → (token :: path).getLast? ≠ some rule.tag)
    (place : List String) (tag : Option String) :
    List.Forall₂ (Task.DifferOnlyAt (token :: path)) (shape.expand first place tag)
      (shape.expand second place tag) := by
  cases differ with
  | @item before after first second _ inside =>
      cases shape with
      | elements item =>
          simp only [expand, List.zipIdx_append, List.zipIdx_cons, List.map_append, List.map_cons,
            Nat.zero_add]
          refine List.rel_append (differOnlyAt_refl _) (.cons ?_ (differOnlyAt_refl _))
          exact .visit rfl inside
      | type primitive =>
          simp only [expand, accepts_array]
          exact differOnlyAt_refl _
      | _ => exact differOnlyAt_refl _
  | @member _ before after first second _ inside =>
      cases shape with
      | properties required optional additional =>
          exact expandProperties_differ before after token inside place required optional
            additional tag
      | values member =>
          simp only [expand, List.map_append, List.map_cons]
          refine List.rel_append (differOnlyAt_refl _) (.cons ?_ (differOnlyAt_refl _))
          exact .visit rfl inside
      | discriminator rule =>
          exact .cons (expandBranches_differ before after token inside place rule (avoids rule rfl))
            .nil
      | type primitive =>
          simp only [expand, accepts_object]
          exact differOnlyAt_refl _
      | _ => exact differOnlyAt_refl _

end Shape

/-! ## Findings outside a place -/

/-- The findings that are not made at a place, or inside what stands there. -/
def Finding.outside (path : List String) (findings : List Finding) : List Finding :=
  findings.filter fun rejection => ¬ path <+: rejection.instancePath

theorem Finding.outside_nil (findings : List Finding) : outside [] findings = [] := by
  simp [outside]

/-- What is found inside a value is outside a place in it as before. -/
theorem Finding.outside_under (suffix rest : List String) (findings : List Finding) :
    outside (suffix ++ rest) (findings.map (under suffix)) =
      (outside rest findings).map (under suffix) := by
  rw [outside, List.filter_map]
  simp only [Function.comp_def, under, List.prefix_append_right_inj]
  rfl

theorem Finding.outside_flatMap {α : Type} (path : List String) (items : List α)
    (findings : α → List Finding) :
    outside path (items.flatMap findings) =
      items.flatMap fun item => outside path (findings item) :=
  List.filter_flatMap ..

/-- The place does not end with the tag of a discriminator that stands in the tree of the
schema. -/
def Schema.AvoidsTags (schema : Schema) (path : List String) : Prop :=
  ∀ place node rule, schema.Contains place node → node.discriminator = some rule →
    path.getLast? ≠ some rule.tag

theorem Schema.AvoidsTags.rest {schema : Schema} {suffix rest : List String}
    (avoids : schema.AvoidsTags (suffix ++ rest)) : schema.AvoidsTags rest := by
  intro place node rule contains isSet isLast
  exact avoids place node rule contains isSet (List.mem_getLast?_append_of_mem_getLast? isLast)

theorem flatMap_eq_of_forall₂ {α β γ : Type} {relation : α → β → Prop} {left : List α}
    {right : List β} (related : List.Forall₂ relation left right) {change : α → List γ}
    {changeRight : β → List γ}
    (same : ∀ first ∈ left, ∀ second, relation first second → change first = changeRight second) :
    left.flatMap change = right.flatMap changeRight := by
  induction related with
  | nil => rfl
  | cons isRelated _ inductionHypothesis =>
      rw [List.flatMap_cons, List.flatMap_cons, same _ List.mem_cons_self _ isRelated,
        inductionHypothesis fun first isLater => same first (List.mem_cons_of_mem _ isLater)]

section Trace

variable {root : Schema} {allowance : Nat}

/-- References with the same name give the same findings outside a place, if their definition
does. -/
theorem outside_taskFindings_follow {path : List String} {name : String} {first second : Json}
    (behind : ∀ target less, root.definition? name = some target → allowance = less + 1 →
      Finding.outside path (traceFindings root less target first ["definitions", name] none) =
        Finding.outside path (traceFindings root less target second ["definitions", name] none)) :
    Finding.outside path (taskFindings root allowance first (.follow name)) =
      Finding.outside path (taskFindings root allowance second (.follow name)) := by
  cases defined : root.definition? name with
  | none => simp only [taskFindings, traceTask_follow, traceReference_of_undefined defined]
  | some target =>
      cases allowance with
      | zero => simp only [taskFindings, traceTask_follow, traceReference_zero defined]
      | succ less =>
          rw [taskFindings_follow defined, taskFindings_follow defined]
          exact behind target less defined rfl

/-- Wherever validation gets to in a schema, it makes the same findings outside the place where
two values differ. -/
theorem outside_traceFindings {schema : Schema} {first second : Json} {path : List String}
    {place : List String} {tag : Option String} (isPlaced : root.Placed place tag schema)
    (avoids : root.AvoidsTags path) (differ : Json.DifferOnlyAt path first second) :
    Finding.outside path (traceFindings root allowance schema first place tag) =
      Finding.outside path (traceFindings root allowance schema second place tag) := by
  induction allowance, schema, first, place, tag using recursionInduction root
    generalizing path second with
  | step allowance schema first place tag inside behind =>
      cases path with
      | nil => rw [Finding.outside_nil, Finding.outside_nil]
      | cons token path =>
          have avoidsTag (rule : Discriminator Schema)
              (shaped : schema.shape = .discriminator rule) :
              (token :: path).getLast? ≠ some rule.tag :=
            avoids place schema rule isPlaced.contains (Schema.discriminator_of_shape shaped)
          rw [traceFindings_eq, traceFindings_eq, Finding.outside_flatMap, Finding.outside_flatMap]
          refine flatMap_eq_of_forall₂ (Shape.expand_differ differ avoidsTag place tag) ?_
          intro task isTask other tasks
          cases tasks with
          | same task =>
              cases task with
              | reject suffix rejected => rfl
              | visit inner value suffix innerPlace innerTag => rfl
              | follow name =>
                  refine outside_taskFindings_follow fun target less defined isLess => ?_
                  have shaped := Shape.follow_mem_expand_iff.mp isTask
                  exact behind name target less shaped defined isLess (.definition defined) avoids
                    differ
          | @visit inner innerFirst innerSecond suffix rest _ innerTag isPath innerDiffer =>
              obtain ⟨tokens, rfl, step, -⟩ := child_of_visit_mem_expand isTask
              rw [isPath] at avoids
              have sameInside := inside inner innerFirst suffix _ innerTag isTask
                (isPlaced.child step) avoids.rest innerDiffer
              rw [isPath, taskFindings_visit, taskFindings_visit, Finding.outside_under,
                Finding.outside_under, sameInside]

end Trace

/-- A validation without a limit of findings, if it succeeds, gives the findings of the trace with
every allowance that is not smaller than the one that it takes. -/
theorem traceFindings_of_ok {options : Options} {schema : Schema} {value : Json}
    {found : List Finding} (unbounded : options.limits.findings = none)
    (isOk : (validate options schema value).result = .ok found) {allowance : Nat}
    (enough : hopAllowance schema value options.limits ≤ allowance) :
    traceFindings schema allowance schema value [] none = found := by
  rw [validate_result, verdict_eq_ok_iff] at isOk
  obtain ⟨ends, isFound⟩ := isOk
  have endsOk := ends.resolve_right (replay_ne_enoughFindings unbounded _ _)
  have settled : (outcome options.limits (hopAllowance schema value options.limits) schema
      value).1 ≠ .error .endless := by
    rw [endsOk]
    exact nofun
  rw [← outcome_of_le enough settled] at endsOk isFound
  exact (replay_found_of_ok endsOk).symm.trans isFound

/-- Findings are local to the part of the value that they name.  If two values are the same except
for what stands at one place, and this is not the place of a tag of any discriminator in the
schema, then at every depth limit, and without one, two validations that succeed have the same
findings outside the place, in the same order.  The schema need not be verified. -/
theorem validate_findings_local (schema : Schema) (path : List String)
    (avoids : ∀ place node rule, schema.Contains place node → node.discriminator = some rule →
      path.getLast? ≠ some rule.tag)
    (first second : Json) (differ : Json.DifferOnlyAt path first second) (maxDepth : Option Nat)
    (found others : List Finding)
    (isFound : (validate { maxDepth } schema first).result = .ok found)
    (areOthers : (validate { maxDepth } schema second).result = .ok others) :
    Finding.outside path found = Finding.outside path others := by
  let limits := Options.limits { maxDepth }
  let allowance := max (hopAllowance schema first limits) (hopAllowance schema second limits)
  rw [← traceFindings_of_ok rfl isFound (Nat.le_max_left _ _ : _ ≤ allowance),
    ← traceFindings_of_ok rfl areOthers (Nat.le_max_right _ _ : _ ≤ allowance)]
  exact outside_traceFindings .root avoids differ

/-- A shelf of items, which are books with a title so far. -/
def shelfSchema : Schema where
  definitions := some [("item", {
    discriminator := some ⟨"kind",
      [("book", { properties := some [("title", { type := some .string })] })]⟩ })]
  elements := some { ref := some "item" }

/-- A book on a shelf, with a price that no book should have, and a tape. -/
def shelf (title : Json) : Json :=
  .array [.object [("kind", .string "book"), ("title", title), ("price", .null)],
    .object [("kind", .string "tape")]]

/-- The title of the first book has no influence on what is found elsewhere. -/
theorem validate_findings_local_shelf :
    (∀ place node rule, shelfSchema.Contains place node → node.discriminator = some rule →
      ["0", "title"].getLast? ≠ some rule.tag) ∧
    Json.DifferOnlyAt ["0", "title"] (shelf .null) (shelf (.string "Emma")) ∧
    (validate {} shelfSchema (shelf .null)).result = .ok
      [⟨["0", "title"], ["definitions", "item", "discriminator", "mapping", "book", "properties",
          "title", "type"]⟩,
        ⟨["0", "price"], ["definitions", "item", "discriminator", "mapping", "book"]⟩,
        ⟨["1", "kind"], ["definitions", "item", "discriminator", "mapping"]⟩] ∧
    (∃ others, (validate {} shelfSchema (shelf (.string "Emma"))).result = .ok others ∧
      Finding.outside ["0", "title"] others =
        [⟨["0", "price"], ["definitions", "item", "discriminator", "mapping", "book"]⟩,
          ⟨["1", "kind"], ["definitions", "item", "discriminator", "mapping"]⟩]) := by
  have avoids : ∀ place node, shelfSchema.Contains place node → ∀ rule,
      node.discriminator = some rule → ["0", "title"].getLast? ≠ some rule.tag := by
    refine Schema.forall_contains_iff.mpr ⟨nofun, ?_⟩
    rintro _ ⟨keyword, setting, isSet, isInner⟩
    cases keyword <;> cases isSet <;> cases List.mem_singleton.mp isInner
    -- A reference holds nothing.
    case elements =>
      refine Schema.forall_contains_iff.mpr ⟨nofun, ?_⟩
      rintro _ ⟨keyword, setting, isSet, isInner⟩
      cases keyword <;> cases isSet
      cases isInner
    -- The item has the only discriminator, and its branch has a title.
    case definitions =>
      refine Schema.forall_contains_iff.mpr ⟨fun rule isRule => ?_, ?_⟩
      · cases isRule
        decide
      · rintro _ ⟨keyword, setting, isSet, isInner⟩
        cases keyword <;> cases isSet
        cases List.mem_singleton.mp isInner
        refine Schema.forall_contains_iff.mpr ⟨nofun, ?_⟩
        rintro _ ⟨keyword, setting, isSet, isInner⟩
        cases keyword <;> cases isSet
        cases List.mem_singleton.mp isInner
        refine Schema.forall_contains_iff.mpr ⟨nofun, ?_⟩
        rintro _ ⟨keyword, setting, isSet, isInner⟩
        cases keyword <;> cases isSet
        cases isInner
  have differ : Json.DifferOnlyAt ["0", "title"] (shelf .null) (shelf (.string "Emma")) :=
    @Json.DifferOnlyAt.item [] _ _ _ _ (@Json.DifferOnlyAt.member _ [("kind", .string "book")] _ _ _
      _ .here)
  refine ⟨fun place node rule contains => avoids place node contains rule, differ, rfl, _, rfl, ?_⟩
  have same := validate_findings_local shelfSchema ["0", "title"]
    (fun place node rule contains => avoids place node contains rule) _ _ differ none _ _ rfl rfl
  exact same.symm

end FormSchema
