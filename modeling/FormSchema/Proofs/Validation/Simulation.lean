import Mathlib.Data.List.Basic
import FormSchema.Validation.Validator
import FormSchema.Proofs.Validation.Replay

/-!
# A walk replays a trace

The walk keeps stacks of tokens and stops at its limits; a trace has neither stacks nor
limits.  The main result is that walking and replaying the trace end in the same way and
leave the same record, whatever the limits are, and that a walk which is not stopped
restores its stacks.

`Performs` says this of one part of a walk.  There is one lemma about it for each way in
which parts of a walk are put together.
-/

namespace FormSchema

namespace Walk

/-- What the walk has written down. -/
def record (walk : Walk) : Record :=
  ⟨walk.found, walk.hops⟩

/-- The walk at the same place with another record. -/
def withRecord (walk : Walk) (record : Record) : Walk :=
  { walk with found := record.found, hops := record.hops }

/-- The place in the schema that a finding would report. -/
def place (walk : Walk) : List String :=
  (walk.frames.headD []).reverse

/-- Replay notes that are relative to the place of the walk. -/
def replay (walk : Walk) (notes : List Note) : Except Halt Unit × Record :=
  FormSchema.replay walk.limits walk.instanceTokens walk.frames.length notes walk.record

@[simp]
theorem place_withRecord (walk : Walk) (record : Record) :
    (walk.withRecord record).place = walk.place :=
  rfl

theorem replay_withRecord (walk : Walk) (record : Record) (notes : List Note) :
    (walk.withRecord record).replay notes =
      FormSchema.replay walk.limits walk.instanceTokens walk.frames.length notes record :=
  rfl

end Walk

/-- Part of a walk and a replay end in the same way, and the walk is back at its place if
it was not stopped. -/
inductive Agrees (walk : Walk) :
    Except Halt Unit × Walk → Except Halt Unit × Record → Prop where
  | done (record : Record) : Agrees walk (.ok (), walk.withRecord record) (.ok (), record)
  | halted (halt : Halt) (last : Walk) :
      Agrees walk (.error halt, last) (.error halt, last.record)

theorem Agrees.of_withRecord {walk : Walk} {record : Record}
    {walked : Except Halt Unit × Walk} {replayed : Except Halt Unit × Record}
    (agrees : Agrees (walk.withRecord record) walked replayed) : Agrees walk walked replayed := by
  cases agrees with
  | done reached => exact .done reached
  | halted halt last => exact .halted halt last

namespace Walking

@[simp]
theorem run_throw (halt : Halt) (walk : Walk) :
    (throw halt : Walking Unit).run.run walk = (.error halt, walk) :=
  rfl

@[simp]
theorem run_modify_bind (change : Walk → Walk) (next : Unit → Walking Unit) (walk : Walk) :
    (modify change >>= next : Walking Unit).run.run walk = (next ()).run.run (change walk) :=
  rfl

@[simp]
theorem run_get_bind (next : Walk → Walking Unit) (walk : Walk) :
    (get >>= next : Walking Unit).run.run walk = (next walk).run.run walk :=
  rfl

/-- A second part of a walk starts where the first one ends, if it is not stopped. -/
theorem run_bind (first : Walking Unit) (next : Unit → Walking Unit) (walk : Walk) :
    (first >>= next : Walking Unit).run.run walk =
      match first.run.run walk with
      | (.ok (), reached) => (next ()).run.run reached
      | (.error halt, reached) => (.error halt, reached) := by
  change (match first.run.run walk with
    | (ending, reached) => (ExceptT.bindCont next ending).run reached) = _
  obtain ⟨ending, reached⟩ := first.run.run walk
  cases ending <;> rfl

/-- How a reference is met, in one equation. -/
theorem run_resolve (root : Schema) (name : String) (go : Schema → Walking Unit) (walk : Walk) :
    (resolve root name go).run.run walk =
      match walk.limits.tooDeep? walk.frames.length with
      | some limit => (.error (.tooDeep limit), walk)
      | none =>
          match root.definition? name with
          | some target => (go target).run.run walk
          | none => (.ok (), walk) := by
  simp only [resolve, run_get_bind, Limits.tooDeep?]
  cases walk.limits.depth with
  | none =>
      dsimp only [Option.filter_none]
      cases root.definition? name <;> rfl
  | some limit =>
      by_cases reached : limit ≤ walk.frames.length
      · simp only [Option.filter_some, reached, decide_true, if_true]
        rfl
      · simp only [Option.filter_some, reached, decide_false, if_false, Bool.false_eq_true]
        cases root.definition? name <;> rfl

/-- Running the action amounts to replaying the notes that belong to the place in the
schema where it starts. -/
def Performs (action : Walking Unit) (notes : List String → List Note) : Prop :=
  ∀ walk : Walk, walk.frames ≠ [] →
    Agrees walk (action.run.run walk) (walk.replay (notes walk.place))

/-- A visitor performs the trace of what it visits. -/
def Simulates (visitor : Visitor) (tracer : Tracer) : Prop :=
  ∀ value tag, Performs (visitor value tag) fun place => tracer value place tag

theorem Performs.congr {action : Walking Unit} {notes others : List String → List Note}
    (performs : Performs action notes) (same : ∀ place, notes place = others place) :
    Performs action others := by
  rwa [← funext same]

theorem performs_pure : Performs (pure ()) fun _ => [] := by
  intro walk _
  exact .done walk.record

theorem performs_reject : Performs reject fun place => [.finding ⟨[], place⟩] := by
  intro walk _
  have counted : walk.recordFinding.hasEnough =
      walk.limits.enough (walk.found.length + 1) :=
    rfl
  have here : Finding.under walk.instanceTokens.reverse ⟨[], walk.place⟩ = walk.findingHere := by
    rw [Finding.under, List.append_nil]
    rfl
  simp only [reject, run_modify_bind, run_get_bind, counted, Walk.replay, replay, here,
    Record.withFinding, List.length_cons, Walk.record]
  cases walk.limits.enough (walk.found.length + 1) with
  | false => exact .done ⟨walk.findingHere :: walk.found, walk.hops⟩
  | true => exact .halted .enoughFindings walk.recordFinding

theorem performs_bind {first second : Walking Unit}
    {firstNotes secondNotes : List String → List Note}
    (firstPerforms : Performs first firstNotes) (secondPerforms : Performs second secondNotes) :
    Performs (first >>= fun _ => second) fun place => firstNotes place ++ secondNotes place := by
  intro walk nonempty
  have firstAgrees := firstPerforms walk nonempty
  rw [run_bind, Walk.replay, replay_append, ← Walk.replay]
  generalize first.run.run walk = walked, walk.replay (firstNotes walk.place) = replayed
    at firstAgrees ⊢
  cases firstAgrees with
  | done record =>
      have secondAgrees := secondPerforms (walk.withRecord record) nonempty
      rw [Walk.place_withRecord, Walk.replay_withRecord] at secondAgrees
      exact secondAgrees.of_withRecord
  | halted halt last => exact .halted halt last

/-- A part of a walk between a change of the stacks and the change that undoes it. -/
theorem agrees_between {enter leave : Walk → Walk} {action : Walking Unit} {walk : Walk}
    {replayed : Except Halt Unit × Record}
    (restores : ∀ record, leave ((enter walk).withRecord record) = walk.withRecord record)
    (agrees : Agrees (enter walk) (action.run.run (enter walk)) replayed) :
    Agrees walk
      ((do modify enter; action; modify leave : Walking Unit).run.run walk) replayed := by
  rw [run_modify_bind, run_bind]
  generalize action.run.run (enter walk) = walked at agrees ⊢
  cases agrees with
  | done record =>
      have finished := @Agrees.done walk record
      rw [← restores record] at finished
      exact finished
  | halted halt last => exact .halted halt last

theorem performs_atSchema (token : String) {action : Walking Unit}
    {notes : List String → List Note} (performs : Performs action notes) :
    Performs (atSchema token action) fun place => notes (place ++ [token]) := by
  intro walk nonempty
  obtain ⟨limits, instanceTokens, frames, found, hops⟩ := walk
  obtain ⟨frame, outer, rfl⟩ := List.exists_cons_of_ne_nil nonempty
  refine agrees_between (fun _ => rfl) ?_
  have agrees := performs
    (Walk.pushSchemaToken token ⟨limits, instanceTokens, frame :: outer, found, hops⟩)
    (List.cons_ne_nil _ _)
  have place : (Walk.pushSchemaToken token
      ⟨limits, instanceTokens, frame :: outer, found, hops⟩).place =
        frame.reverse ++ [token] := by
    simp [Walk.place, Walk.pushSchemaToken]
  rw [place] at agrees
  exact agrees

theorem performs_atInstance (token : String) {action : Walking Unit}
    {notes : List String → List Note} (performs : Performs action notes) :
    Performs (atInstance token action) fun place => (notes place).map (Note.under [token]) := by
  intro walk nonempty
  refine agrees_between (fun _ => rfl) ?_
  have agrees := performs (walk.pushInstanceToken token) nonempty
  rw [Walk.replay, ← replay_cons_token]
  exact agrees

theorem performs_rejectAt (token : String) :
    Performs (atInstance token reject) fun place => [.finding ⟨[token], place⟩] :=
  performs_atInstance token performs_reject

theorem performs_inFrame (name : String) {action : Walking Unit}
    {notes : List String → List Note} (performs : Performs action notes) :
    Performs (do modify (Walk.openFrame name); action; modify Walk.closeFrame) fun _ =>
      (notes ["definitions", name]).map Note.deeper := by
  intro walk nonempty
  refine agrees_between (fun _ => rfl) ?_
  have agrees := performs (walk.openFrame name) (List.cons_ne_nil _ _)
  rw [Walk.replay, ← replay_succ_frames]
  exact agrees

theorem performs_recordHop (name : String) {action : Walking Unit}
    {notes : List String → List Note} (performs : Performs action notes) :
    Performs (do modify (Walk.recordHop name); action) fun place =>
      .hop name 0 :: notes place := by
  intro walk nonempty
  have agrees := performs (walk.recordHop name) nonempty
  rw [run_modify_bind, Walk.replay, replay]
  exact @Agrees.of_withRecord walk ⟨walk.found, ⟨name, walk.frames.length⟩ :: walk.hops⟩ _ _ agrees

/-- Meeting a reference: whether it may be followed is decided before it is looked up. -/
theorem performs_resolve (root : Schema) (name : String) {go : Schema → Walking Unit}
    {notes : Schema → List Note} (performs : ∀ target, Performs (go target) fun _ => notes target) :
    Performs (resolve root name go) fun _ => .reference 0 ::
      match root.definition? name with
      | some target => notes target
      | none => [] := by
  intro walk nonempty
  rw [run_resolve, Walk.replay, FormSchema.replay, Nat.add_zero]
  cases walk.limits.tooDeep? walk.frames.length with
  | some limit => exact .halted (.tooDeep limit) walk
  | none =>
      cases root.definition? name with
      | none => exact .done walk.record
      | some target => exact performs target walk nonempty

/-! ## Lists of tasks -/

section Tasks

variable {visitor : Visitor} {tracer : Tracer} {follow : String → List Note}

theorem performs_eachItem (simulates : Simulates visitor tracer) (items : List Json)
    (position : Nat) :
    Performs (eachItem visitor position items) fun place =>
      (items.zipIdx position).flatMap fun (value, index) =>
        (tracer value place none).map (Note.under [toString index]) := by
  induction items generalizing position with
  | nil => exact performs_pure
  | cons value rest inductionHypothesis =>
      exact performs_bind (performs_atInstance (toString position) (simulates value none))
        (inductionHypothesis (position + 1))

theorem performs_eachMember (simulates : Simulates visitor tracer)
    (members : List (String × Json)) :
    Performs (eachMember visitor members) fun place =>
      members.flatMap fun (name, value) =>
        (tracer value place none).map (Note.under [name]) := by
  induction members with
  | nil => exact performs_pure
  | cons member rest inductionHypothesis =>
      exact performs_bind (performs_atInstance member.1 (simulates member.2 none))
        inductionHypothesis

theorem performs_eachUndeclared (declared : String → Bool) (members : List (String × Json)) :
    Performs (eachUndeclared declared members) fun place =>
      ((members.filter fun member => !declared member.1).map fun member =>
        .reject [member.1] place).flatMap (Task.trace follow) := by
  induction members with
  | nil => exact performs_pure
  | cons member rest inductionHypothesis =>
      have rejected := performs_bind (performs_rejectAt member.1) inductionHypothesis
      have accepted := performs_bind performs_pure inductionHypothesis
      cases known : declared member.1 with
      | true => simpa [eachUndeclared, known] using accepted
      | false => simpa [eachUndeclared, known, Task.trace] using rejected

end Tasks

section Fields

variable {α : Type} {visitor : α → Visitor} {tracer : α → Tracer} {follow : String → List Note}

theorem performs_eachRequired (members : List (String × Json)) (fields : List (String × α))
    (simulates : ∀ field ∈ fields, Simulates (visitor field.2) (tracer field.2)) :
    Performs (eachRequired members (Shape.mapFields visitor fields)) fun place =>
      fields.flatMap fun field =>
        match members.lookup field.1 with
        | some value =>
            (tracer field.2 value (place ++ [field.1]) none).map (Note.under [field.1])
        | none => [.finding ⟨[], place ++ [field.1]⟩] := by
  induction fields with
  | nil => exact performs_pure
  | cons field rest inductionHypothesis =>
      have restPerforms := inductionHypothesis fun other isField =>
        simulates other (List.mem_cons_of_mem _ isField)
      cases present : members.lookup field.1 with
      | some value =>
          have visited := performs_atSchema field.1
            (performs_atInstance field.1 (simulates field List.mem_cons_self value none))
          simpa [Shape.mapFields, eachRequired, present] using performs_bind visited restPerforms
      | none =>
          have rejected := performs_atSchema field.1 performs_reject
          simpa [Shape.mapFields, eachRequired, present] using performs_bind rejected restPerforms

theorem performs_eachOptional (members : List (String × Json)) (fields : List (String × α))
    (simulates : ∀ field ∈ fields, Simulates (visitor field.2) (tracer field.2)) :
    Performs (eachOptional members (Shape.mapFields visitor fields)) fun place =>
      fields.flatMap fun field =>
        match members.lookup field.1 with
        | some value =>
            (tracer field.2 value (place ++ [field.1]) none).map (Note.under [field.1])
        | none => [] := by
  induction fields with
  | nil => exact performs_pure
  | cons field rest inductionHypothesis =>
      have restPerforms := inductionHypothesis fun other isField =>
        simulates other (List.mem_cons_of_mem _ isField)
      cases present : members.lookup field.1 with
      | some value =>
          have visited := performs_atSchema field.1
            (performs_atInstance field.1 (simulates field List.mem_cons_self value none))
          simpa [Shape.mapFields, eachOptional, present] using performs_bind visited restPerforms
      | none =>
          have skipped := performs_bind performs_pure restPerforms
          simpa [Shape.mapFields, eachOptional, present] using skipped

/-- The first part of `properties`, which the schema may lack. -/
theorem performs_required (members : List (String × Json))
    (required : Option (List (String × α)))
    (simulates : ∀ field ∈ required.getD [], Simulates (visitor field.2) (tracer field.2)) :
    Performs
      (match required.map (Shape.mapFields visitor) with
        | some fields => atSchema "properties" (eachRequired members fields)
        | none => pure ())
      fun place => (((required.map (Shape.mapFields tracer)).getD []).map
        (Shape.expandRequired members place)).flatMap (Task.trace follow) := by
  cases required with
  | none => exact performs_pure
  | some fields =>
      have performs := performs_atSchema "properties"
        (performs_eachRequired members fields simulates)
      refine performs.congr fun place => ?_
      simp only [Option.map_some, Option.getD_some, Shape.mapFields, List.map_map,
        List.flatMap_map]
      refine List.flatMap_congr fun field _ => ?_
      simp only [Function.comp_apply, Shape.expandRequired]
      cases members.lookup field.1 <;> simp [Task.trace]

/-- The second part of `properties`, which the schema may lack. -/
theorem performs_optional (members : List (String × Json))
    (optional : Option (List (String × α)))
    (simulates : ∀ field ∈ optional.getD [], Simulates (visitor field.2) (tracer field.2)) :
    Performs
      (match optional.map (Shape.mapFields visitor) with
        | some fields => atSchema "optionalProperties" (eachOptional members fields)
        | none => pure ())
      fun place => (((optional.map (Shape.mapFields tracer)).getD []).filterMap
        (Shape.expandOptional members place)).flatMap (Task.trace follow) := by
  cases optional with
  | none => exact performs_pure
  | some fields =>
      have performs := performs_atSchema "optionalProperties"
        (performs_eachOptional members fields simulates)
      refine performs.congr fun place => ?_
      simp only [Option.map_some, Option.getD_some, Shape.mapFields, List.filterMap_map]
      clear simulates performs
      induction fields with
      | nil => rfl
      | cons field rest inductionHypothesis =>
          rw [List.flatMap_cons, inductionHypothesis, List.filterMap_cons]
          simp only [Function.comp_apply, Shape.expandOptional]
          cases members.lookup field.1 <;> simp [Task.trace]

end Fields

/-! ## Shapes, references and schemas -/

section Shapes

variable {α : Type} {visitor : α → Visitor} {tracer : α → Tracer}
  {follow : String → Json → Walking Unit} {notes : String → Json → List Note}

/-- The properties of an object are visited in three parts. -/
theorem properties_eq (required optional : Option (List (String × Visitor))) (additional : Bool)
    (members : List (String × Json)) (tag : Option String) :
    properties required optional additional members tag =
      ((match required with
        | some fields => atSchema "properties" (eachRequired members fields)
        | none => pure ()) >>= fun _ =>
      (match optional with
        | some fields => atSchema "optionalProperties" (eachOptional members fields)
        | none => pure ()) >>= fun _ =>
      if additional then
        pure ()
      else
        eachUndeclared (fun name => Shape.declares required name ||
          Shape.declares optional name || tag = some name) members) := by
  cases required <;> cases optional <;> rfl

theorem performs_properties (required optional : Option (List (String × α)))
    (additional : Bool) (members : List (String × Json)) (tag : Option String)
    (simulates : ∀ inside ∈ (Shape.properties required optional additional).inner,
      Simulates (visitor inside) (tracer inside)) (value : Json) :
    Performs
      (properties (required.map (Shape.mapFields visitor))
        (optional.map (Shape.mapFields visitor)) additional members tag)
      fun place => (Shape.expandProperties (required.map (Shape.mapFields tracer))
        (optional.map (Shape.mapFields tracer)) additional members place tag).flatMap
          (Task.trace fun name => notes name value) := by
  have requiredPart := @performs_required α visitor tracer (fun name => notes name value) members
    required fun field isField =>
      simulates _ (List.mem_append_left _ (List.mem_map_of_mem (f := Prod.snd) isField))
  have optionalPart := @performs_optional α visitor tracer (fun name => notes name value) members
    optional fun field isField =>
      simulates _ (List.mem_append_right _ (List.mem_map_of_mem (f := Prod.snd) isField))
  have undeclaredPart := @performs_eachUndeclared (fun name => notes name value)
    (fun name => Shape.declares (required.map (Shape.mapFields visitor)) name ||
      Shape.declares (optional.map (Shape.mapFields visitor)) name || tag = some name) members
  rw [properties_eq]
  cases additional with
  | true =>
      refine (performs_bind requiredPart (performs_bind optionalPart performs_pure)).congr ?_
      intro place
      simp [Shape.expandProperties]
  | false =>
      refine (performs_bind requiredPart (performs_bind optionalPart undeclaredPart)).congr ?_
      intro place
      simp [Shape.expandProperties]

theorem performs_branches (rule : Discriminator α) (members : List (String × Json))
    (simulates : ∀ inside ∈ (Shape.discriminator rule).inner,
      Simulates (visitor inside) (tracer inside)) (value : Json) :
    Performs
      (atSchema "discriminator"
        (branches ⟨rule.tag, Shape.mapFields visitor rule.mapping⟩ members))
      fun place => [Shape.expandBranches ⟨rule.tag, Shape.mapFields tracer rule.mapping⟩ members
        place].flatMap (Task.trace fun name => notes name value) := by
  simp only [branches, Shape.expandBranches, Shape.lookup_mapFields]
  have unsuitable : Performs (atSchema "discriminator" (atSchema "tag"
      (atInstance rule.tag reject))) fun place =>
        [Task.reject [rule.tag] (place ++ ["discriminator", "tag"])].flatMap
          (Task.trace fun name => notes name value) := by
    refine (performs_atSchema _ (performs_atSchema _ (performs_rejectAt rule.tag))).congr ?_
    simp [Task.trace]
  cases members.lookup rule.tag with
  | none =>
      refine (performs_atSchema _ (performs_atSchema _ performs_reject)).congr ?_
      simp [Task.trace]
  | some tagValue =>
      cases tagValue <;> try exact unsuitable
      rename_i text
      cases mapped : rule.mapping.lookup text with
      | none =>
          simp only [mapped, Option.map_none]
          refine (performs_atSchema _ (performs_atSchema _
            (performs_rejectAt rule.tag))).congr ?_
          simp [Task.trace]
      | some branch =>
          have isInner : branch ∈ (Shape.discriminator rule).inner :=
            List.mem_map_of_mem (f := Prod.snd) (Members.mem_of_lookup mapped)
          simp only [mapped, Option.map_some]
          refine (performs_atSchema _ (performs_atSchema _ (performs_atSchema text
            (simulates branch isInner (.object members) (some rule.tag))))).congr ?_
          simp [Task.trace]

/-- What a shape does amounts to the tasks of its expansion. -/
theorem simulates_visit (shape : Shape α)
    (simulates : ∀ inside ∈ shape.inner, Simulates (visitor inside) (tracer inside))
    (follows : ∀ name value, Performs (follow name value) fun _ => notes name value) :
    Simulates (visit follow (shape.map visitor)) (traceShape notes (shape.map tracer)) := by
  intro value tag
  have rejected (token : String) : Performs (atSchema token reject) fun place =>
      [Task.reject [] (place ++ [token])].flatMap (Task.trace fun name => notes name value) :=
    performs_atSchema token performs_reject
  cases shape with
  | empty => exact performs_pure
  | ref name =>
      refine (follows name value).congr fun place => ?_
      simp [traceShape, Shape.map, Shape.expand, Task.trace]
  | type primitive =>
      simp only [Shape.map, visit, traceShape, Shape.expand, require]
      cases primitive.accepts value with
      | true => exact performs_atSchema "type" performs_pure
      | false => exact rejected "type"
  | enum texts =>
      cases value <;> try exact rejected "enum"
      rename_i text
      simp only [Shape.map, visit, traceShape, Shape.expand, require]
      split
      · exact performs_atSchema "enum" performs_pure
      · exact rejected "enum"
  | elements item =>
      cases value <;> try exact rejected "elements"
      rename_i items
      have performs := performs_atSchema "elements"
        (performs_eachItem (simulates item (List.mem_singleton_self _)) items 0)
      refine performs.congr fun place => ?_
      simp [traceShape, Shape.map, Shape.expand, Task.trace, List.flatMap_map]
  | properties required optional additional =>
      cases value <;> try (cases required <;> exact rejected _)
      rename_i members
      exact performs_properties required optional additional members tag simulates _
  | values member =>
      cases value <;> try exact rejected "values"
      rename_i members
      have performs := performs_atSchema "values"
        (performs_eachMember (simulates member (List.mem_singleton_self _)) members)
      refine performs.congr fun place => ?_
      simp [traceShape, Shape.map, Shape.expand, Task.trace, List.flatMap_map]
  | discriminator rule =>
      cases value <;> try exact rejected "discriminator"
      rename_i members
      exact performs_branches rule members simulates _

end Shapes

theorem performs_follow {root : Schema} {allowance : Nat}
    (simulates : ∀ schema value tag, Performs (walk root allowance schema value tag) fun place =>
      trace root allowance schema value place tag) (name : String) (value : Json) :
    Performs (follow root (allowance + 1) name value) fun _ =>
      traceReference root (allowance + 1) name value := by
  have followed (target : Schema) := performs_recordHop name
    (performs_inFrame name (simulates target value none))
  refine (performs_resolve root name followed).congr fun _ => ?_
  rw [traceReference]
  cases root.definition? name <;> rfl

theorem performs_follow_zero (root : Schema) (name : String) (value : Json) :
    Performs (follow root 0 name value) fun _ => traceReference root 0 name value := by
  have performs : ∀ _ : Schema, Performs (throw .endless) fun _ => [.exhausted] :=
    fun _ walk _ => .halted .endless walk
  refine (performs_resolve root name performs).congr fun _ => ?_
  rw [traceReference]
  cases root.definition? name <;> rfl

/-- A walk with the same allowance as the trace performs it, once it does so whenever it
follows a reference. -/
theorem simulates_walk {root : Schema} {allowance : Nat}
    (follows : ∀ name value, Performs (follow root allowance name value) fun _ =>
      traceReference root allowance name value) (schema : Schema) :
    Simulates (walk root allowance schema) (trace root allowance schema) := by
  induction schema using Schema.shapeInduction with
  | step schema inductionHypothesis =>
      rw [walk, Schema.fold_eq, trace, Schema.fold_eq]
      exact simulates_visit schema.shape inductionHypothesis follows

/-- Every walk performs the trace with the same allowance. -/
theorem performs_walk (root : Schema) (allowance : Nat) (schema : Schema) :
    Simulates (walk root allowance schema) (trace root allowance schema) := by
  induction allowance generalizing schema with
  | zero => exact simulates_walk (performs_follow_zero root) schema
  | succ allowance inductionHypothesis =>
      exact simulates_walk (performs_follow fun schema value tag =>
        inductionHypothesis schema value tag) schema

end Walking

/-! ## Validation -/

theorem runWalk_agrees (limits : Limits) (schema : Schema) (value : Json) :
    Agrees { limits } (runWalk limits schema value)
      (outcome limits (hopAllowance schema value limits) schema value) :=
  Walking.performs_walk schema (hopAllowance schema value limits) schema value none { limits }
    (List.cons_ne_nil _ _)

theorem runWalk_found (limits : Limits) (schema : Schema) (value : Json) :
    (runWalk limits schema value).2.found =
      (outcome limits (hopAllowance schema value limits) schema value).2.found := by
  have agrees := runWalk_agrees limits schema value
  generalize runWalk limits schema value = walked,
    outcome limits (hopAllowance schema value limits) schema value = replayed at agrees ⊢
  cases agrees <;> rfl

/-- What a validation reports last. -/
def lastEvent : Except Halt Unit × Record → Event
  | (.ok (), record) => .validationFinished record.found.reverse.length
  | (.error .enoughFindings, record) => .validationStopped record.found.reverse.length
  | (.error (.tooDeep limit), _) => .validationAborted (.tooDeep limit)
  | (.error .endless, _) => .validationAborted .endless

/-- The validation that an outcome amounts to. -/
def conclude (form : Form) (replayed : Except Halt Unit × Record) : Validation where
  result := verdict replayed
  events := .validationStarted form :: replayed.2.hops.reverse.map .followingRef ++
    [lastEvent replayed]

/-- A validation replays the trace, in its result and in what it reports. -/
theorem validate_eq_conclude (options : Options) (schema : Schema) (value : Json) :
    validate options schema value =
      conclude schema.form (outcome options.limits
        (hopAllowance schema value options.limits) schema value) := by
  have agrees := runWalk_agrees options.limits schema value
  rw [validate]
  generalize runWalk options.limits schema value = walked,
    outcome options.limits (hopAllowance schema value options.limits) schema value = replayed
      at agrees ⊢
  cases agrees with
  | done record => rfl
  | halted halt last => cases halt <;> rfl

/-- The result of a validation is that of replaying the trace. -/
theorem validate_result (options : Options) (schema : Schema) (value : Json) :
    (validate options schema value).result =
      verdict (outcome options.limits (hopAllowance schema value options.limits) schema
        value) := by
  rw [validate_eq_conclude, conclude]

end FormSchema
