import FormSchema.Proofs.Schema.WellFormed
import FormSchema.Proofs.Validation.Relocation

/-!
# Branches of a discriminator

A discriminator hands the object on to the branch that its tag chooses, and the branch must not
take the tag for an undeclared member.  In a verified schema this comes to removing the tag from
the object: the branch declares no property of that name, so nothing but the check of undeclared
members can come upon the tag in the object itself.  Further inside, nothing is exempt.
-/

namespace FormSchema

/-- The members with other names. -/
def Members.without {α : Type} (removed : String) (members : List (String × α)) :
    List (String × α) :=
  members.filter fun member => member.1 ≠ removed

theorem Members.lookup_without {α : Type} {name removed : String} (differs : name ≠ removed)
    (members : List (String × α)) :
    (without removed members).lookup name = members.lookup name := by
  induction members with
  | nil => rfl
  | cons member rest inductionHypothesis =>
      obtain ⟨other, value⟩ := member
      by_cases isRemoved : other = removed
      · have passed : (name == other) = false := by simp [isRemoved, differs]
        rw [List.lookup_cons, passed]
        simpa [without, isRemoved] using inductionHypothesis
      · have kept : without removed ((other, value) :: rest) =
            (other, value) :: without removed rest := by
          simp [without, isRemoved]
        rw [kept, List.lookup_cons, List.lookup_cons, inductionHypothesis]

/-- Exempting a tag from the check of undeclared members is removing it from the object, if it is
not declared. -/
theorem Shape.expandProperties_without {α : Type} {required optional : Option (List (String × α))}
    {tag : String} (notRequired : tag ∉ Members.names (required.getD []))
    (notOptional : tag ∉ Members.names (optional.getD [])) (additional : Bool)
    (members : List (String × Json)) (place : List String) :
    expandProperties required optional additional members place (some tag) =
      expandProperties required optional additional (Members.without tag members) place none := by
  have sameLookup {fields : List (String × α)} (undeclared : tag ∉ Members.names fields)
      {field : String × α} (isField : field ∈ fields) :
      (Members.without tag members).lookup field.1 = members.lookup field.1 := by
    refine Members.lookup_without ?_ members
    rintro rfl
    exact undeclared (List.mem_map_of_mem isField)
  have requiredTasks : (required.getD []).map (expandRequired members place) =
      (required.getD []).map (expandRequired (Members.without tag members) place) := by
    refine List.map_congr_left fun field isField => ?_
    simp only [expandRequired, sameLookup notRequired isField]
  have optionalTasks : (optional.getD []).filterMap (expandOptional members place) =
      (optional.getD []).filterMap (expandOptional (Members.without tag members) place) := by
    refine List.filterMap_congr fun field isField => ?_
    simp only [expandOptional, sameLookup notOptional isField]
  have sameUndeclared : (members.filter fun member =>
        !(declares required member.1 || declares optional member.1 || some tag = some member.1)) =
      (Members.without tag members).filter fun member =>
        !(declares required member.1 || declares optional member.1 || none = some member.1) := by
    rw [Members.without, List.filter_filter]
    refine List.filter_congr fun member _ => ?_
    simp [eq_comm]
  rw [expandProperties, expandProperties, requiredTasks, optionalTasks, sameUndeclared]

section Trace

variable {root schema branch : Schema} {rule : Discriminator Schema} {tagValue : String}

/-- A branch of a lawful schema treats an object as if the tag were not there. -/
theorem trace_branch {outermost : Bool} (lawful : Schema.Lawful root outermost schema)
    (isSet : schema.discriminator = some rule) (isBranch : (tagValue, branch) ∈ rule.mapping)
    (allowance : Nat) (members : List (String × Json)) (place : List String) :
    trace root allowance branch (.object members) place (some rule.tag) =
      trace root allowance branch (.object (Members.without rule.tag members)) place none := by
  have isProperties := lawful.branched rule tagValue branch isSet isBranch
  obtain ⟨notRequired, notOptional⟩ := lawful.untagged rule tagValue branch isSet isBranch
  have sameTasks : branch.shape.expand (.object members) place (some rule.tag) =
      branch.shape.expand (.object (Members.without rule.tag members)) place none := by
    rw [Schema.form] at isProperties
    cases shaped : branch.shape <;> rw [shaped] at isProperties <;> cases isProperties
    obtain ⟨rfl, rfl, -⟩ := Schema.properties_of_shape shaped
    exact Shape.expandProperties_without notRequired notOptional _ members place
  rw [trace_eq, trace_eq, sameTasks]
  refine List.flatMap_congr fun task isTask => ?_
  cases task with
  | reject suffix rejected => rfl
  | visit inner innerValue suffix innerPlace innerTag => rfl
  | follow name =>
      rw [Schema.form, Shape.follow_mem_expand_iff.mp isTask] at isProperties
      cases isProperties

/-- What a lawful schema of the discriminator form leaves in the trace is what the chosen branch
leaves there for the object without the tag. -/
theorem trace_discriminator {outermost : Bool} (lawful : Schema.Lawful root outermost schema)
    (shaped : schema.shape = .discriminator rule) {members : List (String × Json)}
    (tagged : members.lookup rule.tag = some (.string tagValue))
    (mapped : rule.mapping.lookup tagValue = some branch) (allowance : Nat) (place : List String)
    (tag : Option String) :
    trace root allowance schema (.object members) place tag =
      trace root allowance branch (.object (Members.without rule.tag members))
        (place ++ ["discriminator", "mapping", tagValue]) none := by
  have branchTrace := trace_branch lawful (Schema.discriminator_of_shape shaped)
    (Members.mem_of_lookup mapped) allowance members
    (place ++ ["discriminator", "mapping", tagValue])
  rw [trace_eq, shaped]
  simp [Shape.expand, Shape.expandBranches, tagged, mapped, branchTrace]

end Trace

/-- A branch of a discriminator sees the object without its tag.  If the tag of an object is
mapped to a branch of a verified schema, then validation gives what it gives for the branch as the
outermost schema, with the same definitions, and the object without its tag, whatever the limits
are: it fails in the same way, or has the same findings, one for one in the same order, at the
same places in the value, and in the schema behind the place of the branch, unless a reference has
led to a definition.  So the tag is exempt in the object itself and nowhere further inside. -/
theorem validate_branch_without_tag (options : Options) (schema : Schema)
    (verified : schema.verify = .ok ()) (rule : Discriminator Schema)
    (shaped : schema.shape = .discriminator rule) (members : List (String × Json))
    (tagValue : String) (tagged : members.lookup rule.tag = some (.string tagValue))
    (branch : Schema) (mapped : rule.mapping.lookup tagValue = some branch) :
    (validate options schema (.object members)).result =
      (validate options { branch with definitions := schema.definitions }
        (.object (Members.without rule.tag members))).result.map
          (List.map (Finding.movedTo ["discriminator", "mapping", tagValue])) := by
  have lawful := Schema.verify_eq_ok_iff.mp verified [] schema .self
  refine result_of_verdicts (fun result => result.map
    (List.map (Finding.movedTo ["discriminator", "mapping", tagValue]))) ?_ 0 fun allowance => ?_
  · rintro (abort | findings) <;> simp [Except.map]
  · rw [outcome, Nat.add_zero, trace_discriminator lawful shaped tagged mapped, List.nil_append,
      trace_eq_of_standalone, verdict_replay_moved]
    rfl

/-- A box has a lid with a color, and a label with a text. -/
def boxBranch : Schema where
  properties := some [
    ("lid", { properties := some [("color", { type := some .string })] }),
    ("label", { ref := some "label" })]

/-- Parcels are boxes so far. -/
def parcelSchema : Schema where
  definitions := some [("label", { properties := some [("text", { type := some .string })] })]
  discriminator := some ⟨"kind", [("box", boxBranch)]⟩

/-- A box whose lid and label carry the tag as well, and which has a size. -/
def taggedParcel : List (String × Json) := [
  ("kind", .string "box"),
  ("lid", .object [("color", .string "red"), ("kind", .string "box")]),
  ("label", .object [("kind", .string "box"), ("text", .string "fragile")]),
  ("size", .null)]

/-- The tag is exempt in the parcel, but neither in its lid nor behind the reference to its
label. -/
theorem validate_branch_without_tag_parcel :
    parcelSchema.verify = .ok () ∧
    parcelSchema.shape = .discriminator ⟨"kind", [("box", boxBranch)]⟩ ∧
    taggedParcel.lookup "kind" = some (.string "box") ∧
    List.lookup "box" [("box", boxBranch)] = some boxBranch ∧
    (validate {} { boxBranch with definitions := parcelSchema.definitions }
      (.object (Members.without "kind" taggedParcel))).result = .ok
        [⟨["lid", "kind"], ["properties", "lid"]⟩,
          ⟨["label", "kind"], ["definitions", "label"]⟩, ⟨["size"], []⟩] ∧
    (validate {} parcelSchema (.object taggedParcel)).result = .ok
      [⟨["lid", "kind"], ["discriminator", "mapping", "box", "properties", "lid"]⟩,
        ⟨["label", "kind"], ["definitions", "label"]⟩,
        ⟨["size"], ["discriminator", "mapping", "box"]⟩] :=
  ⟨rfl, rfl, rfl, rfl, rfl,
    validate_branch_without_tag {} parcelSchema rfl ⟨"kind", [("box", boxBranch)]⟩ rfl taggedParcel
      "box" rfl boxBranch rfl⟩

end FormSchema
