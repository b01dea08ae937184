import FormSchema.Proofs.Validation.Trace

/-!
# References on the same value

A schema is about a value and about what lies inside the value.  `Schema.lead` is the
reference that a schema comes to without going inside.  There is at most one, for the only
shapes that stay with the value are references and discriminators, and the latter choose
one branch.

`trace_related` uses this for comparing traces with different allowances: they are related
once the traces of references are, and only that of the lead is about the value itself.
-/

namespace FormSchema

/-! ## The height of what lies inside -/

namespace Json

theorem height_lt_of_mem_items {value : Json} {items : List Json} (isItem : value ∈ items) :
    value.height < (Json.array items).height := by
  rw [height]
  induction items with
  | nil => cases isItem
  | cons first rest inductionHypothesis =>
      rw [heightOfItems]
      rcases List.mem_cons.mp isItem with rfl | isItem
      · omega
      · have smaller := inductionHypothesis isItem
        omega

theorem height_lt_of_mem_members {name : String} {value : Json}
    {members : List (String × Json)} (isMember : (name, value) ∈ members) :
    value.height < (Json.object members).height := by
  rw [height]
  induction members with
  | nil => cases isMember
  | cons first rest inductionHypothesis =>
      obtain ⟨other, otherValue⟩ := first
      rw [heightOfMembers]
      rcases List.mem_cons.mp isMember with same | isMember
      · cases same
        omega
      · have smaller := inductionHypothesis isMember
        omega

end Json

/-! ## Chains of references on one value -/

/-- The reference that a shape comes to on the same value. -/
def leadShape : Shape (Json → Option String) → Json → Option String
  | .ref name, _ => some name
  | .discriminator rule, .object members =>
      match members.lookup rule.tag with
      | some (.string tagValue) =>
          (rule.mapping.lookup tagValue).bind fun branch => branch (.object members)
      | _ => none
  | _, _ => none

/-- The reference that a schema comes to without going into the value: its own, or that of
the branch which the value's tag chooses. -/
def Schema.lead (schema : Schema) : Json → Option String :=
  schema.fold leadShape

theorem Schema.lead_of_ref {schema : Schema} {name : String} (shaped : schema.shape = .ref name)
    (value : Json) : schema.lead value = some name := by
  rw [lead, fold_eq, shaped]
  rfl

/-- A step inward goes into the value, or else it keeps the reference that is led to. -/
theorem Schema.height_lt_or_lead_of_inward {schema inside : Schema} {value innerValue : Json}
    (inward : Shape.Inward schema.shape value inside innerValue) :
    innerValue.height < value.height ∨
      (innerValue = value ∧ schema.lead value = inside.lead value) := by
  generalize shaped : schema.shape = shape at inward
  cases inward with
  | item isItem => exact .inl (Json.height_lt_of_mem_items isItem)
  | required _ present =>
      exact .inl (Json.height_lt_of_mem_members (Members.mem_of_lookup present))
  | optional _ present =>
      exact .inl (Json.height_lt_of_mem_members (Members.mem_of_lookup present))
  | member isMember => exact .inl (Json.height_lt_of_mem_members isMember)
  | branch tagged mapped =>
      refine .inr ⟨rfl, ?_⟩
      rw [lead, fold_eq, shaped]
      simp only [Shape.map, leadShape, tagged, Shape.lookup_mapFields, mapped,
        Option.map_some, Option.bind_some]
      rfl

/-- A schema leads to its own reference, or to that of the branch which the value's tag
chooses. -/
theorem Schema.shape_of_lead {schema : Schema} {value : Json} {name : String}
    (leads : schema.lead value = some name) :
    schema.shape = .ref name ∨ ∃ rule members tagValue branch,
      schema.shape = .discriminator rule ∧ value = .object members ∧
      members.lookup rule.tag = some (.string tagValue) ∧
      rule.mapping.lookup tagValue = some branch ∧ branch.lead value = some name := by
  rw [lead, fold_eq] at leads
  cases shaped : schema.shape with
  | ref other =>
      rw [shaped] at leads
      cases leads
      exact .inl rfl
  | discriminator rule =>
      rw [shaped] at leads
      cases value <;> try cases leads
      rename_i members
      simp only [Shape.map, leadShape, Shape.lookup_mapFields] at leads
      split at leads <;> try cases leads
      rename_i tagValue tagged
      obtain ⟨branch, mapped, branchLeads⟩ := Option.bind_eq_some_iff.mp leads
      obtain ⟨inside, found, rfl⟩ := Option.map_eq_some_iff.mp mapped
      exact .inr ⟨rule, members, tagValue, inside, rfl, rfl, tagged, found, branchLeads⟩
  | type primitive => rw [shaped] at leads; cases leads
  | enum texts => rw [shaped] at leads; cases leads
  | elements item => rw [shaped] at leads; cases leads
  | properties required optional additional => rw [shaped] at leads; cases leads
  | values member => rw [shaped] at leads; cases leads
  | empty => rw [shaped] at leads; cases leads

/-- A schema that leads to a reference leaves nothing behind but what the reference does. -/
theorem trace_of_lead {root schema : Schema} {value : Json} {name : String}
    (leads : schema.lead value = some name) (allowance : Nat) (place : List String)
    (tag : Option String) :
    trace root allowance schema value place tag = traceReference root allowance name value := by
  induction schema using Schema.shapeInduction generalizing place tag with
  | step schema inductionHypothesis =>
      rw [trace_eq]
      rcases Schema.shape_of_lead leads with
        shaped | ⟨rule, members, tagValue, branch, shaped, rfl, tagged, mapped, branchLeads⟩
      · rw [shaped]
        simp [Shape.expand]
      · rw [shaped] at inductionHypothesis ⊢
        have isInner : branch ∈ (Shape.discriminator rule).inner :=
          List.mem_map_of_mem (f := Prod.snd) (Members.mem_of_lookup mapped)
        have branchTrace := inductionHypothesis branch isInner branchLeads
        simp [Shape.expand, Shape.expandBranches, tagged, mapped, branchTrace]

/-! ## Relations between traces -/

/-- A relation between notes that goes along with the ways in which traces are put
together. -/
structure NoteCongruence (relation : List Note → List Note → Prop) : Prop where
  nil : relation [] []
  finding (rejection : Finding) : relation [.finding rejection] [.finding rejection]
  append {first second firstMore secondMore : List Note} :
    relation first second → relation firstMore secondMore →
      relation (first ++ firstMore) (second ++ secondMore)
  under {first second : List Note} (tokens : List String) :
    relation first second →
      relation (first.map (Note.under tokens)) (second.map (Note.under tokens))

theorem NoteCongruence.flatMap {relation : List Note → List Note → Prop}
    (congruence : NoteCongruence relation) {α : Type} {items : List α}
    {first second : α → List Note}
    (related : ∀ item ∈ items, relation (first item) (second item)) :
    relation (items.flatMap first) (items.flatMap second) := by
  induction items with
  | nil => exact congruence.nil
  | cons item rest inductionHypothesis =>
      rw [List.flatMap_cons, List.flatMap_cons]
      apply congruence.append (related item List.mem_cons_self)
      exact inductionHypothesis fun other isItem =>
        related other (List.mem_cons_of_mem _ isItem)

/-- Traces with different allowances are related, once those of the reference that is led
to and of all references inside the value are. -/
theorem trace_related {relation : List Note → List Note → Prop}
    (congruence : NoteCongruence relation) {root : Schema} {allowance other : Nat}
    (schema : Schema) (value : Json)
    (lead : ∀ name, schema.lead value = some name →
      relation (traceReference root allowance name value) (traceReference root other name value))
    (inside : ∀ name innerValue, innerValue.height < value.height →
      relation (traceReference root allowance name innerValue)
        (traceReference root other name innerValue))
    (place : List String) (tag : Option String) :
    relation (trace root allowance schema value place tag)
      (trace root other schema value place tag) := by
  induction schema using Schema.shapeInduction generalizing value place tag with
  | step schema inductionHypothesis =>
      rw [trace_eq, trace_eq]
      apply congruence.flatMap
      intro task isTask
      cases task with
      | reject suffix place => exact congruence.finding ⟨suffix, place⟩
      | follow name =>
          exact lead name (Schema.lead_of_ref (Shape.follow_mem_expand_iff.mp isTask) value)
      | visit inner innerValue suffix innerPlace innerTag =>
          have inward := Shape.inward_of_mem_expand isTask
          apply congruence.under suffix
          apply inductionHypothesis inner inward.mem_inner innerValue
          · intro name leads
            rcases Schema.height_lt_or_lead_of_inward inward with smaller | ⟨rfl, same⟩
            · exact inside name innerValue smaller
            · exact lead name (same.trans leads)
          · intro name smallest smaller
            rcases Schema.height_lt_or_lead_of_inward inward with between | ⟨rfl, -⟩
            · exact inside name smallest (Nat.lt_trans smaller between)
            · exact inside name smallest smaller

end FormSchema
