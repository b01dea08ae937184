import FormSchema.Json.Pointer
import FormSchema.Proofs.Schema.Shape

/-!
# Proper values

A value is proper if no object in it repeats a name.  Members are kept as a list, which could
repeat names, but values that are read are proper, since readers assign members one by one.
In a proper value every member is found under its name.
-/

namespace FormSchema

namespace Json

mutual

/-- Does no object in the value repeat a name? -/
def proper : Json → Bool
  | .array items => properItems items
  | .object members => decide (Members.names members).Nodup && properMembers members
  | _ => true

/-- Are all the items proper? -/
def properItems : List Json → Bool
  | [] => true
  | item :: rest => item.proper && properItems rest

/-- Are the values of all the members proper? -/
def properMembers : List (String × Json) → Bool
  | [] => true
  | (_, value) :: rest => value.proper && properMembers rest

end

theorem properItems_iff {items : List Json} :
    properItems items = true ↔ ∀ item ∈ items, item.proper = true := by
  induction items with
  | nil => exact iff_of_true rfl nofun
  | cons item rest inductionHypothesis =>
      rw [properItems, Bool.and_eq_true, inductionHypothesis, List.forall_mem_cons]

theorem properMembers_iff {members : List (String × Json)} :
    properMembers members = true ↔ ∀ name value, (name, value) ∈ members → value.proper = true := by
  induction members with
  | nil => exact iff_of_true rfl nofun
  | cons member rest inductionHypothesis =>
      obtain ⟨other, first⟩ := member
      rw [properMembers, Bool.and_eq_true, inductionHypothesis]
      constructor
      · rintro ⟨firstProper, restProper⟩ name value isMember
        rcases List.mem_cons.mp isMember with same | isMember
        · cases same
          exact firstProper
        · exact restProper name value isMember
      · intro allProper
        exact ⟨allProper other first List.mem_cons_self, fun name value isMember =>
          allProper name value (List.mem_cons_of_mem _ isMember)⟩

theorem proper_array_iff {items : List Json} :
    (Json.array items).proper = true ↔ ∀ item ∈ items, item.proper = true := by
  rw [proper, properItems_iff]

theorem proper_object_iff {members : List (String × Json)} :
    (Json.object members).proper = true ↔ (Members.names members).Nodup ∧
      ∀ name value, (name, value) ∈ members → value.proper = true := by
  rw [proper, Bool.and_eq_true, decide_eq_true_iff, properMembers_iff]

end Json

namespace Members

variable {α : Type} {name : String} {value : α} {members : List (String × α)}

/-- Where no name is repeated, every member is found under its name. -/
theorem lookup_of_mem (distinct : (names members).Nodup) (isMember : (name, value) ∈ members) :
    members.lookup name = some value := by
  induction members with
  | nil => cases isMember
  | cons member rest inductionHypothesis =>
      obtain ⟨other, first⟩ := member
      rw [names, List.map_cons, List.nodup_cons] at distinct
      rcases List.mem_cons.mp isMember with same | isLater
      · cases same
        exact List.lookup_cons_self
      · have differ : (name == other) = false := by
          rw [beq_eq_false_iff_ne]
          rintro rfl
          exact distinct.1 (List.mem_map.mpr ⟨(name, value), isLater, rfl⟩)
        rw [List.lookup_cons, differ]
        exact inductionHypothesis distinct.2 isLater

/-- Assigning a value to a name repeats no name. -/
theorem nodup_names_put (distinct : (names members).Nodup) :
    (names (put name value members)).Nodup := by
  rw [names_put]
  split
  · exact distinct
  · rename_i absent
    rw [List.nodup_append]
    refine ⟨distinct, List.pairwise_singleton _ _, ?_⟩
    rintro other isName _ isNew rfl
    exact absent (List.mem_singleton.mp isNew ▸ isName)

/-- A value that is assigned to a new name comes last. -/
theorem put_of_not_mem (isNew : name ∉ names members) :
    put name value members = members ++ [(name, value)] := by
  induction members with
  | nil => rfl
  | cons first rest inductionHypothesis =>
      obtain ⟨other, old⟩ := first
      have different : other ≠ name := by
        rintro rfl
        exact isNew List.mem_cons_self
      rw [put, if_neg different, List.cons_append,
        inductionHypothesis fun isLater => isNew (List.mem_cons_of_mem _ isLater)]

/-- After an assignment there is the new member, and there are members from before. -/
theorem mem_put {entry : String × α} (isMember : entry ∈ put name value members) :
    (name, value) = entry ∨ entry ∈ members := by
  induction members with
  | nil => exact .inl (List.mem_singleton.mp isMember).symm
  | cons first rest inductionHypothesis =>
      obtain ⟨other, old⟩ := first
      rw [put] at isMember
      split at isMember
      · rcases List.mem_cons.mp isMember with same | isLater
        · exact .inl same.symm
        · exact .inr (List.mem_cons_of_mem _ isLater)
      · rcases List.mem_cons.mp isMember with same | isLater
        · exact .inr (same ▸ List.mem_cons_self)
        · exact (inductionHypothesis isLater).imp_right (List.mem_cons_of_mem _)

theorem lookup_eq_none_iff : members.lookup name = none ↔ name ∉ names members := by
  rw [← has_iff_mem_names, has]
  cases members.lookup name <;> simp

end Members

namespace Json

/-- What holds of a value once it holds of the items and of the values of the members directly
inside holds of every value. -/
theorem insideInduction {motive : Json → Prop}
    (step : ∀ value : Json,
      (∀ items item, value = .array items → item ∈ items → motive item) →
      (∀ members name inner, value = .object members → (name, inner) ∈ members → motive inner) →
      motive value)
    (value : Json) : motive value :=
  step value (fun _ item _ _ => insideInduction step item)
    fun _ _ inner _ _ => insideInduction step inner
termination_by sizeOf value
decreasing_by
  · subst value
    have smaller := List.sizeOf_lt_of_mem ‹item ∈ _›
    rw [array.sizeOf_spec]
    omega
  · subst value
    have smaller := List.sizeOf_lt_of_mem ‹(_, inner) ∈ _›
    rw [Prod.mk.sizeOf_spec] at smaller
    rw [object.sizeOf_spec]
    omega

/-- What lies one token further in a proper value is proper. -/
theorem proper_of_step? {value inner : Json} {token : String} (isProper : value.proper = true)
    (found : value.step? token = some inner) : inner.proper = true := by
  cases value with
  | array items =>
      obtain ⟨position, -, isItem⟩ := Option.bind_eq_some_iff.mp found
      exact proper_array_iff.mp isProper inner (List.mem_of_getElem? isItem)
  | object members =>
      exact (proper_object_iff.mp isProper).2 token inner (Members.mem_of_lookup found)
  | null => cases found
  | bool value => cases found
  | number value => cases found
  | string value => cases found

/-- What lies inside a proper value is proper. -/
theorem proper_of_at? {value inner : Json} {tokens : List String} (isProper : value.proper = true)
    (found : value.at? tokens = some inner) : inner.proper = true := by
  induction tokens generalizing value with
  | nil =>
      cases found
      exact isProper
  | cons token rest inductionHypothesis =>
      obtain ⟨next, isNext, found⟩ := Option.bind_eq_some_iff.mp found
      exact inductionHypothesis (proper_of_step? isProper isNext) found

/-- Assigning a proper value to a name keeps an object proper. -/
theorem proper_put {members : List (String × Json)} {name : String} {value : Json}
    (isProper : (Json.object members).proper = true) (valueProper : value.proper = true) :
    (Json.object (Members.put name value members)).proper = true := by
  obtain ⟨distinct, proper⟩ := proper_object_iff.mp isProper
  refine proper_object_iff.mpr ⟨Members.nodup_names_put distinct, ?_⟩
  intro other inner isMember
  rcases Members.mem_put isMember with same | isMember
  · cases same
    exact valueProper
  · exact proper other inner isMember

end Json

end FormSchema
