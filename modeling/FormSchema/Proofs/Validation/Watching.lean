import FormSchema.Proofs.Schema.WellFormed
import FormSchema.Proofs.Validation.Breach
import FormSchema.Proofs.Validation.Recursion
import FormSchema.Proofs.Validation.Simulation

/-!
# Watching a walk

A `Watch` stands beside a walk.  It is called for every schema that the walk evaluates, with
the value and the tag that the walk passes on, and it acts in place of accepting a value whose
reference names no definition.  What it does is an arbitrary part of a walk: it may stop the
walk, or write down something that remains.  So if a watched walk ends as the walk itself does
whatever the watch does in a certain case, that case does not arise.

A walk only gets to the schemas that are placed in the tree of the outermost schema and of its
definitions.  For a schema that verification accepts, this carries what verification promises
of the tree over to every step of the walk, wherever references lead.
-/

namespace FormSchema

/-! ## Watched walks -/

/-- What is done beside a walk. -/
structure Watch where
  /-- Done before a schema is evaluated for a value, with the tag that chose the schema. -/
  call : Schema → Json → Option String → Walking Unit
  /-- Done in place of accepting a value whose reference names no definition. -/
  dangling : String → Walking Unit

namespace Watch

/-- The watch that does nothing. -/
def idle : Watch :=
  ⟨fun _ _ _ => pure (), fun _ => pure ()⟩

/-- Look up the definition that a reference names and go on with it, under a watch. -/
def resolve (watch : Watch) (root : Schema) (name : String) (go : Schema → Walking Unit) :
    Walking Unit :=
  match root.definition? name with
  | some _ => Walking.resolve root name go
  | none => do
      Walking.resolve root name go
      watch.dangling name

/-- What a schema of some shape does with a value, under a watch. -/
def visit (watch : Watch) (follow : String → Json → Walking Unit) (schema : Schema)
    (shape : Shape Visitor) : Visitor := fun value tag => do
  watch.call schema value tag
  Walking.visit follow shape value tag

/-- Follow a reference, as `Walking.follow` does, under a watch. -/
def follow (watch : Watch) (root : Schema) : Nat → String → Json → Walking Unit
  | 0, name, _ => watch.resolve root name fun _ => throw .endless
  | allowance + 1, name, value =>
      watch.resolve root name fun target => do
        modify (Walk.recordHop name)
        modify (Walk.openFrame name)
        target.foldWith (watch.visit (watch.follow root allowance)) value none
        modify Walk.closeFrame

/-- Walk a value together with a schema, under a watch. -/
def walk (watch : Watch) (root : Schema) (allowance : Nat) (schema : Schema) : Visitor :=
  schema.foldWith (watch.visit (watch.follow root allowance))

/-- Walk a value with a schema from the beginning, under a watch. -/
def run (watch : Watch) (limits : Limits) (schema : Schema) (value : Json) :
    Except Halt Unit × Walk :=
  (watch.walk schema (hopAllowance schema value limits) schema value none).run.run { limits }

theorem walk_eq (watch : Watch) (root : Schema) (allowance : Nat) (schema : Schema)
    (value : Json) (tag : Option String) :
    watch.walk root allowance schema value tag = (do
      watch.call schema value tag
      Walking.visit (watch.follow root allowance)
        (schema.shape.map (watch.walk root allowance)) value tag) := by
  rw [walk, Schema.foldWith_eq]
  rfl

end Watch

/-! ## A visit only calls what its expansion visits -/

namespace Walking

theorem walk_eq (root : Schema) (allowance : Nat) (schema : Schema) (value : Json)
    (tag : Option String) :
    walk root allowance schema value tag =
      visit (follow root allowance) (schema.shape.map (walk root allowance)) value tag := by
  rw [walk, Schema.fold_eq]
  rfl

theorem eachItem_congr {visitor other : Visitor} {items : List Json}
    (same : ∀ value ∈ items, visitor value none = other value none) (position : Nat) :
    eachItem visitor position items = eachItem other position items := by
  induction items generalizing position with
  | nil => rfl
  | cons value rest inductionHypothesis =>
      obtain ⟨sameFirst, sameRest⟩ := List.forall_mem_cons.mp same
      simp only [eachItem, sameFirst, inductionHypothesis sameRest]

theorem eachMember_congr {visitor other : Visitor} {members : List (String × Json)}
    (same : ∀ member ∈ members, visitor member.2 none = other member.2 none) :
    eachMember visitor members = eachMember other members := by
  induction members with
  | nil => rfl
  | cons member rest inductionHypothesis =>
      obtain ⟨sameFirst, sameRest⟩ := List.forall_mem_cons.mp same
      simp only [eachMember, sameFirst, inductionHypothesis sameRest]

section Fields

variable {α : Type} {visitor other : α → Visitor} {members : List (String × Json)}
  {fields : List (String × α)}

theorem eachRequired_congr
    (same : ∀ field ∈ fields, ∀ value, members.lookup field.1 = some value →
      visitor field.2 value none = other field.2 value none) :
    eachRequired members (Shape.mapFields visitor fields) =
      eachRequired members (Shape.mapFields other fields) := by
  induction fields with
  | nil => rfl
  | cons field rest inductionHypothesis =>
      obtain ⟨sameFirst, sameRest⟩ := List.forall_mem_cons.mp same
      have restSame := inductionHypothesis sameRest
      simp only [Shape.mapFields] at restSame
      simp only [Shape.mapFields, List.map_cons, eachRequired, restSame]
      cases present : members.lookup field.1 with
      | none => rfl
      | some value => simp only [sameFirst value present]

theorem eachOptional_congr
    (same : ∀ field ∈ fields, ∀ value, members.lookup field.1 = some value →
      visitor field.2 value none = other field.2 value none) :
    eachOptional members (Shape.mapFields visitor fields) =
      eachOptional members (Shape.mapFields other fields) := by
  induction fields with
  | nil => rfl
  | cons field rest inductionHypothesis =>
      obtain ⟨sameFirst, sameRest⟩ := List.forall_mem_cons.mp same
      have restSame := inductionHypothesis sameRest
      simp only [Shape.mapFields] at restSame
      simp only [Shape.mapFields, List.map_cons, eachOptional, restSame]
      cases present : members.lookup field.1 with
      | none => rfl
      | some value => simp only [sameFirst value present]

end Fields

/-- What a shape does with a value depends on the schemas inside only through the visits of its
expansion, and on how references are followed only if it is one. -/
theorem visit_congr {α : Type} {visitor other : α → Visitor}
    {follow otherFollow : String → Json → Walking Unit} {shape : Shape α} {value : Json}
    {tag : Option String} (place : List String)
    (same : ∀ inner innerValue suffix innerPlace innerTag,
      .visit inner innerValue suffix innerPlace innerTag ∈ shape.expand value place tag →
      visitor inner innerValue innerTag = other inner innerValue innerTag)
    (sameFollow : ∀ name, shape = .ref name → follow name value = otherFollow name value) :
    visit follow (shape.map visitor) value tag =
      visit otherFollow (shape.map other) value tag := by
  cases shape with
  | empty => rfl
  | ref name => exact sameFollow name rfl
  | type primitive => rfl
  | enum texts => rfl
  | elements item =>
      cases value <;> try rfl
      rename_i items
      have sameItems : ∀ value ∈ items, visitor item value none = other item value none := by
        intro value isItem
        obtain ⟨position, isAt⟩ := List.mem_iff_getElem?.mp isItem
        exact same _ _ _ _ _ (List.mem_map_of_mem (List.mk_mem_zipIdx_iff_getElem?.mpr isAt))
      simp only [Shape.map, visit, eachItem_congr sameItems]
  | values member =>
      cases value <;> try rfl
      rename_i members
      have sameMembers :
          ∀ entry ∈ members, visitor member entry.2 none = other member entry.2 none :=
        fun entry isMember => same _ _ _ _ _ (List.mem_map_of_mem isMember)
      simp only [Shape.map, visit, eachMember_congr sameMembers]
  | properties required optional additional =>
      cases value <;> try (cases required <;> rfl)
      rename_i members
      have sameRequired : ∀ field ∈ required.getD [], ∀ value,
          members.lookup field.1 = some value →
            visitor field.2 value none = other field.2 value none := by
        intro field isField value present
        have isTask := List.mem_map_of_mem (f := Shape.expandRequired members place) isField
        simp only [Shape.expandRequired, present] at isTask
        exact same _ _ _ _ _ (List.mem_append_left _ (List.mem_append_left _ isTask))
      have sameOptional : ∀ field ∈ optional.getD [], ∀ value,
          members.lookup field.1 = some value →
            visitor field.2 value none = other field.2 value none := by
        intro field isField value present
        have expanded : Shape.expandOptional members place field = some (.visit field.2 value
            [field.1] (place ++ ["optionalProperties", field.1]) none) := by
          simp only [Shape.expandOptional, present, Option.map_some]
        have isTask := List.mem_filterMap.mpr ⟨_, isField, expanded⟩
        exact same _ _ _ _ _ (List.mem_append_left _ (List.mem_append_right _ isTask))
      simp only [Shape.map, visit, properties_eq, Shape.declares_mapFields]
      congr 1
      · cases required with
        | none => rfl
        | some fields => exact congrArg (atSchema "properties") (eachRequired_congr sameRequired)
      · funext _
        congr 1
        cases optional with
        | none => rfl
        | some fields =>
            exact congrArg (atSchema "optionalProperties") (eachOptional_congr sameOptional)
  | discriminator rule =>
      cases value <;> try rfl
      rename_i members
      simp only [Shape.map, visit, branches, Shape.lookup_mapFields]
      cases tagged : members.lookup rule.tag with
      | none => rfl
      | some tagValue =>
          cases tagValue <;> try rfl
          rename_i text
          cases mapped : rule.mapping.lookup text with
          | none => simp only [mapped, Option.map_none]
          | some branch =>
              have expanded : Shape.expandBranches rule members place = .visit branch
                  (.object members) [] (place ++ ["discriminator", "mapping", text])
                    (some rule.tag) := by
                simp only [Shape.expandBranches, tagged, mapped]
              have sameBranch := same _ _ _ _ _ (List.mem_singleton.mpr expanded.symm)
              simp only [mapped, Option.map_some, sameBranch]

end Walking

/-! ## Where a walk gets to -/

namespace Watch

variable {root : Schema} {watch : Watch}

/-- A watch does nothing in the tree of the outermost schema and of its definitions. -/
structure QuietIn (watch : Watch) (root : Schema) : Prop where
  /-- It does nothing for the schemas there, whatever value they are evaluated for. -/
  call : ∀ place tag schema value, root.Placed place tag schema →
    watch.call schema value tag = pure ()
  /-- It does nothing at references there that name no definition. -/
  dangling : ∀ place tag schema name, root.Placed place tag schema → schema.shape = .ref name →
    root.definition? name = none → watch.dangling name = pure ()

theorem resolve_eq {name : String} (quiet : root.definition? name = none →
      watch.dangling name = pure ()) {go otherGo : Schema → Walking Unit}
    (same : ∀ target, root.definition? name = some target → go target = otherGo target) :
    watch.resolve root name go = Walking.resolve root name otherGo := by
  cases defined : root.definition? name with
  | none =>
      have sameResolve : Walking.resolve root name go = Walking.resolve root name otherGo := by
        simp only [Walking.resolve, defined]
      simp only [resolve, defined, quiet defined, bind_pure_unit, sameResolve]
  | some target => simp only [resolve, Walking.resolve, defined, same target defined]

/-- Following a reference is watched in vain, once the walk of its definition is. -/
theorem follow_eq {allowance : Nat} {name : String} {value : Json}
    (quiet : root.definition? name = none → watch.dangling name = pure ())
    (same : ∀ target less, root.definition? name = some target → allowance = less + 1 →
      watch.walk root less target value none = Walking.walk root less target value none) :
    watch.follow root allowance name value = Walking.follow root allowance name value := by
  cases allowance with
  | zero => exact resolve_eq quiet fun _ _ => rfl
  | succ less =>
      refine resolve_eq quiet fun target defined => ?_
      have sameWalk := same target less defined rfl
      rw [walk, Walking.walk] at sameWalk
      simp only [sameWalk]

/-- A walk evaluates only schemas that are placed in the tree of the outermost schema and of its
definitions, each with the tag that belongs to its place. -/
theorem QuietIn.walk_eq (quiet : watch.QuietIn root) {allowance : Nat} {schema : Schema}
    {value : Json} {place : List String} {tag : Option String}
    (isPlaced : root.Placed place tag schema) :
    watch.walk root allowance schema value tag =
      Walking.walk root allowance schema value tag := by
  induction allowance, schema, value, place, tag using recursionInduction root with
  | step allowance schema value place tag inside behind =>
      rw [Watch.walk_eq, Walking.walk_eq, quiet.call place tag schema value isPlaced]
      refine Walking.visit_congr place ?_ ?_
      · intro inner innerValue suffix innerPlace innerTag isTask
        obtain ⟨tokens, rfl, step, -⟩ := child_of_visit_mem_expand isTask
        exact inside _ _ _ _ _ isTask (.child isPlaced step)
      · intro name shaped
        refine follow_eq (quiet.dangling place tag schema name isPlaced shaped) ?_
        intro target less defined isLess
        exact behind name target less shaped defined isLess (.definition defined)

theorem QuietIn.run_eq (quiet : watch.QuietIn root) (limits : Limits) (value : Json) :
    watch.run limits root value = runWalk limits root value := by
  rw [run, runWalk, quiet.walk_eq .root]

theorem idle_quietIn (root : Schema) : idle.QuietIn root :=
  ⟨fun _ _ _ _ _ => rfl, fun _ _ _ _ _ _ _ => rfl⟩

end Watch

/-! ## What verification promises at every step -/

/-- What verification promises of a schema that is evaluated, chosen by a tag if it is a branch
of a discriminator. -/
structure Promised (root schema : Schema) (tag : Option String) : Prop where
  /-- At most one form has a keyword set. -/
  single : ∀ first second, schema.populates first = true → schema.populates second = true →
    first = second
  /-- The reference names a definition of the outermost schema. -/
  resolved : ∀ name, schema.ref = some name → ∃ target, root.definition? name = some target
  /-- A branch is of the properties form and leaves the tag undeclared. -/
  suited : ∀ name, tag = some name → schema.form = .properties ∧
    name ∉ Members.names (schema.properties.getD []) ∧
    name ∉ Members.names (schema.optionalProperties.getD [])
  /-- No property is both required and optional. -/
  disjoint : ∀ name, name ∈ Members.names (schema.properties.getD []) →
    name ∉ Members.names (schema.optionalProperties.getD [])
  /-- Only the outermost schema has definitions. -/
  outermost : schema = root ∨ schema.definitions.getD [] = []

namespace Schema

variable {root schema : Schema} {place : List String} {tag : Option String}

theorem definition?_of_mem_names {name : String}
    (isName : name ∈ Members.names (root.definitions.getD [])) :
    ∃ target, root.definition? name = some target := by
  cases isSet : root.definitions with
  | none =>
      rw [isSet] at isName
      cases isName
  | some definitions =>
      rw [isSet, Option.getD_some, ← Members.has_iff_mem_names] at isName
      rw [definition?, isSet, Option.bind_some]
      exact Option.isSome_iff_exists.mp isName

theorem Placed.eq_root_of_isEmpty (isPlaced : root.Placed place tag schema)
    (isEmpty : place.isEmpty = true) : schema = root := by
  cases isPlaced with
  | root => rfl
  | definition => cases isEmpty
  | child _ step =>
      obtain ⟨-, none⟩ := List.append_eq_nil_iff.mp (List.isEmpty_iff.mp isEmpty)
      cases step <;> cases none

/-- The promises are kept wherever a verified schema has a schema placed. -/
theorem Placed.promised (verified : root.verify = .ok ())
    (isPlaced : root.Placed place tag schema) : Promised root schema tag := by
  have wellFormed := verify_eq_ok_iff.mp verified
  have lawful := wellFormed place schema isPlaced.contains
  refine ⟨lawful.single, ?resolved, ?suited, lawful.disjoint, ?outermost⟩
  case resolved => exact fun name isSet => definition?_of_mem_names (lawful.resolved name isSet)
  case suited =>
    rintro name rfl
    cases isPlaced with
    | child outer step =>
        have outerLawful := wellFormed _ _ outer.contains
        cases step with
        | branch isSet isBranch =>
            exact ⟨outerLawful.branched _ _ _ isSet isBranch,
              outerLawful.untagged _ _ _ isSet isBranch⟩
  case outermost => exact lawful.placed.imp isPlaced.eq_root_of_isEmpty id

end Schema

open Classical in
/-- The watch that sounds an alarm when a schema is evaluated that does not keep the promises,
and when a reference names no definition. -/
noncomputable def Watch.alarm (root : Schema) (sound : Walking Unit) : Watch where
  call schema _ tag := if Promised root schema tag then pure () else sound
  dangling _ := sound

/-- What would sound the alarm does not stand in the tree of a verified schema. -/
theorem Watch.alarm_quietIn {root : Schema} (verified : root.verify = .ok ())
    (sound : Walking Unit) : (alarm root sound).QuietIn root where
  call place tag schema value isPlaced := if_pos (isPlaced.promised verified)
  dangling place tag schema name isPlaced shaped undefined := by
    obtain ⟨target, defined⟩ :=
      (isPlaced.promised verified).resolved name (Schema.ref_of_shape shaped)
    cases undefined.symm.trans defined

/-- Being watched changes nothing about a walk.  With a schema that verification accepts, an
alarm does not sound either, whatever the value and the limits are: every schema that is
evaluated keeps the promises, and every reference names a definition.  The same holds of the walk
with every allowance of nested references, and so of a walk without an end, as far as it gets. -/
theorem alarm_silent_of_verified (limits : Limits) (schema : Schema) (value : Json) :
    (Watch.idle.run limits schema value = runWalk limits schema value ∧
      ∀ allowance, Watch.idle.walk schema allowance schema value none =
        Walking.walk schema allowance schema value none) ∧
    (schema.verify = .ok () → ∀ sound : Walking Unit,
      (Watch.alarm schema sound).run limits schema value = runWalk limits schema value ∧
      ∀ allowance, (Watch.alarm schema sound).walk schema allowance schema value none =
        Walking.walk schema allowance schema value none) := by
  refine ⟨?_, fun verified sound => ?_⟩
  · have quiet := Watch.idle_quietIn schema
    exact ⟨quiet.run_eq limits value, fun _ => quiet.walk_eq .root⟩
  · have quiet := Watch.alarm_quietIn verified sound
    exact ⟨quiet.run_eq limits value, fun _ => quiet.walk_eq .root⟩

/-- A tree of branches that have boughs, and of leaves that may have a word on them. -/
def boughSchema : Schema where
  definitions := some [
    ("tree", { discriminator := some ⟨"kind", [
      ("branch", { properties := some [("boughs", { elements := some { ref := some "tree" } })] }),
      ("leaf", { optionalProperties := some [("word", { ref := some "word" })] })]⟩ }),
    ("word", { type := some .string })]
  ref := some "tree"

/-- A branch with two leaves.  One has something on it that is no word. -/
def leafyBough : Json :=
  .object [("kind", .string "branch"), ("boughs", .array [
    .object [("kind", .string "leaf"), ("word", .string "oak")],
    .object [("word", .null), ("kind", .string "leaf")]])]

/-- A walk through a tree follows five references, and an alarm that would stop it does not
sound. -/
theorem alarm_silent_of_verified_tree :
    boughSchema.verify = .ok () ∧
    (Watch.alarm boughSchema (throw .endless)).run {} boughSchema leafyBough =
      runWalk {} boughSchema leafyBough ∧
    (runWalk {} boughSchema leafyBough).1 = .ok () ∧
    (runWalk {} boughSchema leafyBough).2.hops.length = 5 ∧
    ∀ allowance, (Watch.alarm boughSchema (throw .endless)).walk boughSchema allowance boughSchema
      leafyBough none = Walking.walk boughSchema allowance boughSchema leafyBough none := by
  have verified : boughSchema.verify = .ok () := rfl
  obtain ⟨silent, always⟩ :=
    (alarm_silent_of_verified {} boughSchema leafyBough).2 verified (throw .endless)
  exact ⟨verified, silent, rfl, rfl, always⟩

/-- A watch is called at a reference without a definition, which verification refuses. -/
example : (Watch.run ⟨fun _ _ _ => pure (), fun _ => throw .endless⟩ {}
    { ref := some "nowhere" } .null).1 = .error .endless :=
  rfl

end FormSchema
