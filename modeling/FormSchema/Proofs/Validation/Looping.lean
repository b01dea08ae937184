import Mathlib.Logic.Relation
import FormSchema.Proofs.Schema.Checked
import FormSchema.Proofs.Schema.WellFormed
import FormSchema.Proofs.Validation.DepthLimit
import FormSchema.Proofs.Validation.Recursion

/-!
# References that loop

Definitions may refer to each other, and to themselves.  That is harmless as long as the
references go into the value in between.  A name is looping if following definitions of the
ref form never leads to a definition of another form, and a validation that meets a reference
to such a name has no end.

For a verified schema the two cases exclude each other and there is no third.  Either no
looping name is met; then on each value at most one hop for each definition follows the other,
and with the height of the value this bounds how deep hops are nested.  Or one is met; then
every limit of depth is exceeded.
-/

namespace FormSchema

/-- The definition with that name is a reference to the next name. -/
def RefersTo (root : Schema) (name next : String) : Prop :=
  ∃ target, root.definition? name = some target ∧ target.shape = .ref next

/-- Following definitions of the ref form from that name leads to definitions of the ref form
only. -/
def Looping (root : Schema) (name : String) : Prop :=
  ∀ last, Relation.ReflTransGen (RefersTo root) name last → ∃ next, RefersTo root last next

/-- The descent of a schema and a value together meets a reference to a looping name. -/
def MeetsLooping (root : Schema) (value : Json) : Prop :=
  ∃ schema inner pending name,
    Descent root value schema inner pending ∧ schema.shape = .ref name ∧ Looping root name

section Chains

variable {root : Schema} {value : Json}

/-- A schema of the properties form goes into the value. -/
theorem Schema.lead_of_form_properties {schema : Schema} (isProperties : schema.form = .properties)
    (value : Json) : schema.lead value = none := by
  rw [form] at isProperties
  rw [lead, fold_eq]
  cases shaped : schema.shape <;> rw [shaped] at isProperties <;> cases isProperties
  rfl

/-- In a verified schema, a value's tag does not choose a reference. -/
theorem Schema.ref_of_lead {schema : Schema} {outermost : Bool} {name : String}
    (passed : check root outermost schema = .ok ()) (leads : schema.lead value = some name) :
    schema.shape = .ref name := by
  rcases shape_of_lead leads with
    shaped | ⟨rule, members, tagValue, branch, shaped, rfl, tagged, mapped, branchLeads⟩
  · exact shaped
  · have isProperties := (lawful_of_check passed).branched rule tagValue branch
      (discriminator_of_shape shaped) (Members.mem_of_lookup mapped)
    cases (lead_of_form_properties isProperties _).symm.trans branchLeads

/-- A name from which chains of references have any length is looping. -/
theorem looping_of_endless (verified : root.verify = .ok ()) {name : String}
    (endless : ∀ length, Chain root value length (some name)) : Looping root name := by
  intro last reached
  have stillEndless : ∀ length, Chain root value length (some last) := by
    induction reached with
    | refl => exact endless
    | tail _ step inductionHypothesis =>
        intro length
        obtain ⟨target, defined, shaped⟩ := step
        obtain ⟨same, definedAs, rest⟩ := inductionHypothesis (length + 1)
        cases defined.symm.trans definedAs
        rwa [Schema.lead_of_ref shaped] at rest
  obtain ⟨target, defined, rest⟩ := stillEndless 2
  cases leads : target.lead value with
  | none =>
      rw [leads] at rest
      exact rest.elim
  | some next =>
      exact ⟨next, target, defined,
        Schema.ref_of_lead (Schema.check_of_definition verified defined) leads⟩

theorem Chain.of_le {length shorter : Nat} {reference : Option String}
    (chain : Chain root value length reference) (fewer : shorter ≤ length) :
    Chain root value shorter reference := by
  rw [chain_iff_iterate] at chain ⊢
  exact fun position inside => chain position (inside.trans_le fewer)

end Chains

section Descent

variable {root : Schema} {value : Json}

/-- All that the descent of a verified schema comes to passes the check. -/
theorem Descent.check (verified : root.verify = .ok ()) {schema : Schema} {inner : Json}
    {pending : Nat} (descent : Descent root value schema inner pending) :
    ∃ outermost, Schema.check root outermost schema = .ok () := by
  induction descent with
  | start => exact ⟨true, verified⟩
  | inward _ step inductionHypothesis =>
      obtain ⟨outermost, passed⟩ := inductionHypothesis
      exact ⟨false, Schema.check_inner passed step.mem_inner⟩
  | hop _ _ defined _ => exact ⟨false, Schema.check_of_definition verified defined⟩

/-- Where no looping name is met, a chain of references on one value has at most one hop for
each definition. -/
theorem Descent.chain_length_le (verified : root.verify = .ok ())
    (quiet : ¬ MeetsLooping root value) {schema : Schema} {inner : Json} {pending : Nat}
    (descent : Descent root value schema inner pending) {length : Nat}
    (chain : Chain root inner length (schema.lead inner)) :
    length ≤ (root.definitions.getD []).length := by
  by_contra long
  cases leads : schema.lead inner with
  | none =>
      rw [leads] at chain
      cases length with
      | zero => exact long (Nat.zero_le _)
      | succ length => exact chain
  | some name =>
      rw [leads] at chain
      obtain ⟨outermost, passed⟩ := descent.check verified
      have endless := chain_of_long (chain.of_le (Nat.lt_of_not_le long))
      exact quiet ⟨schema, inner, pending, name, descent, Schema.ref_of_lead passed leads,
        looping_of_endless verified endless⟩

/-- What is left of a chain on the value at hand still fits under the bound on nested hops.
Going into the value makes room for one more hop for each definition. -/
theorem Descent.pending_add_chain_le (verified : root.verify = .ok ())
    (quiet : ¬ MeetsLooping root value) {schema : Schema} {inner : Json} {pending : Nat}
    (descent : Descent root value schema inner pending) {length : Nat}
    (chain : Chain root inner length (schema.lead inner)) :
    pending + length + (root.definitions.getD []).length * inner.height ≤
      (root.definitions.getD []).length * (value.height + 1) := by
  induction descent generalizing length with
  | start =>
      have bounded := Descent.start.chain_length_le verified quiet chain
      rw [Nat.mul_succ]
      omega
  | @inward schema inside outer inner pending reached step inductionHypothesis =>
      rcases Schema.height_lt_or_lead_of_inward step with smaller | ⟨rfl, same⟩
      · have bounded := (reached.inward step).chain_length_le verified quiet chain
        have room := @inductionHypothesis 0 trivial
        have lower : (root.definitions.getD []).length * (inner.height + 1) ≤
            (root.definitions.getD []).length * outer.height :=
          Nat.mul_le_mul_left _ smaller
        rw [Nat.mul_succ] at lower
        omega
      · rw [← same] at chain
        exact inductionHypothesis chain
  | @hop schema target inner pending name _ shaped defined inductionHypothesis =>
      have longer : Chain root inner (length + 1) (schema.lead inner) := by
        rw [Schema.lead_of_ref shaped]
        exact ⟨target, defined, chain⟩
      have room := inductionHypothesis longer
      omega

/-- Where no looping name is met, at most one hop for each definition is nested at each level
of the value. -/
theorem Descent.pending_le (verified : root.verify = .ok ())
    (quiet : ¬ MeetsLooping root value) {schema : Schema} {inner : Json} {pending : Nat}
    (descent : Descent root value schema inner pending) :
    pending ≤ (root.definitions.getD []).length * (value.height + 1) := by
  have room := @Descent.pending_add_chain_le _ _ verified quiet _ _ _ descent 0 trivial
  omega

/-- An attempted reference of a verified schema is followed, so it fits under the bound
itself. -/
theorem Attempts.pending_lt (verified : root.verify = .ok ())
    (quiet : ¬ MeetsLooping root value) {pending : Nat}
    (attempts : Attempts root value pending) :
    pending < (root.definitions.getD []).length * (value.height + 1) := by
  obtain ⟨schema, inner, name, descent, shaped⟩ := attempts
  obtain ⟨outermost, passed⟩ := descent.check verified
  obtain ⟨target, defined⟩ := Schema.definition_of_check passed shaped
  exact (descent.hop shaped defined).pending_le verified quiet

/-- From a looping name, references are attempted with any number of others pending. -/
theorem attempts_of_looping (further : Nat) {schema : Schema} {inner : Json} {pending : Nat}
    {name : String} (descent : Descent root value schema inner pending)
    (shaped : schema.shape = .ref name) (looping : Looping root name) :
    Attempts root value (pending + further) := by
  induction further generalizing schema pending name with
  | zero => exact ⟨schema, inner, name, descent, shaped⟩
  | succ further inductionHypothesis =>
      obtain ⟨next, target, defined, targetShaped⟩ := looping name .refl
      have nextLooping : Looping root next := fun last reached =>
        looping last (.head ⟨target, defined, targetShaped⟩ reached)
      have deeper := inductionHypothesis (descent.hop shaped defined) targetShaped nextLooping
      rwa [Nat.add_right_comm, Nat.add_assoc] at deeper

end Descent

/-! ## The hops that are logged -/

/-- A replayed hop is noted, and counts the frames that were open before it. -/
theorem hop_of_replay {limits : Limits} {tokens : List String} {frames : Nat}
    {notes : List Note} {record : Record} {hop : Hop}
    (isHop : hop ∈ (replay limits tokens frames notes record).2.hops) :
    hop ∈ record.hops ∨ ∃ definition pending, .hop definition pending ∈ notes ∧
      hop = ⟨definition, frames + pending⟩ := by
  induction notes generalizing record with
  | nil => exact .inl isHop
  | cons note rest inductionHypothesis =>
      have later (reached : Record) (same : reached.hops = record.hops)
          (isHop : hop ∈ (replay limits tokens frames rest reached).2.hops) :
          hop ∈ record.hops ∨ ∃ definition pending, .hop definition pending ∈ note :: rest ∧
            hop = ⟨definition, frames + pending⟩ := by
        rcases inductionHypothesis isHop with before | ⟨definition, pending, isNote, isThis⟩
        · exact .inl (same ▸ before)
        · exact .inr ⟨definition, pending, List.mem_cons_of_mem _ isNote, isThis⟩
      cases note with
      | exhausted => exact .inl isHop
      | finding rejection =>
          simp only [replay] at isHop
          split at isHop
          · exact .inl isHop
          · exact later (record.withFinding _) rfl isHop
      | reference pending =>
          simp only [replay] at isHop
          split at isHop
          · exact .inl isHop
          · exact later _ rfl isHop
      | hop definition pending =>
          simp only [replay] at isHop
          rcases inductionHypothesis isHop with before | ⟨other, otherPending, isNote, isThis⟩
          · rcases List.mem_cons.mp before with isThis | before
            · exact .inr ⟨definition, pending, List.mem_cons_self, isThis⟩
            · exact .inl before
          · exact .inr ⟨other, otherPending, List.mem_cons_of_mem _ isNote, isThis⟩

/-- Every hop that a validation logs was attempted, and its depth counts the references
around it and itself. -/
theorem attempts_of_followingRef {options : Options} {schema : Schema} {value : Json} {hop : Hop}
    (logged : .followingRef hop ∈ (validate options schema value).events) :
    ∃ pending, hop.depth = pending + 1 ∧ Attempts schema value pending := by
  rw [validate_eq_conclude] at logged
  generalize allowed : hopAllowance schema value options.limits = allowance at logged
  have isHop : hop ∈ (outcome options.limits allowance schema value).2.hops := by
    rcases List.mem_append.mp logged with inner | isLast
    · rcases List.mem_cons.mp inner with isFirst | inner
      · cases isFirst
      · obtain ⟨other, isOther, same⟩ := List.mem_map.mp inner
        cases same
        exact List.mem_reverse.mp isOther
    · have last := List.mem_singleton.mp isLast
      unfold lastEvent at last
      split at last <;> cases last
  rcases hop_of_replay isHop with isNothing | ⟨definition, pending, isNote, rfl⟩
  · cases isNothing
  · have attempts := attempts_of_trace Descent.start (reference_mem_of_hop_mem isNote)
    rw [Nat.zero_add] at attempts
    exact ⟨pending, Nat.add_comm 1 pending, attempts⟩

/-! ## The dichotomy -/

section Result

variable {schema : Schema} {value : Json}

/-- Where a looping name is met, every limit of depth is exceeded. -/
theorem tooDeep_of_meetsLooping (meets : MeetsLooping schema value) {bound : Nat}
    (positive : 1 ≤ bound) :
    (validate { maxDepth := some bound } schema value).result = .error (.tooDeep bound) := by
  obtain ⟨inside, inner, pending, name, descent, shaped, looping⟩ := meets
  have attempts := attempts_of_looping bound descent shaped looping
  exact (tooDeep_iff_attempts positive).mpr ⟨pending + bound, by omega, attempts⟩

/-- Where a looping name is met, validation without limits has no end. -/
theorem endless_of_meetsLooping (meets : MeetsLooping schema value) :
    (validate {} schema value).result = .error .endless := by
  rw [validate_endless_iff]
  intro allowance
  by_contra settled
  -- A trace that needs no more than this allowance stays within some limit of depth.
  let limits := Options.limits { maxDepth := some (allowance + 2) }
  have bounded : limits.depth = some (allowance + 2) := depth_limits (Nat.le_add_left 1 _)
  have shallow (limit : Nat) :
      (outcome limits allowance schema value).1 ≠ .error (.tooDeep limit) := by
    intro deep
    obtain ⟨isLimit, pending, noted, forbidden⟩ := reference_of_tooDeep deep
    cases bounded.symm.trans isLimit
    have fits := pending_le_of_reference_mem noted
    omega
  have same : outcome (Options.limits {}) allowance schema value =
      outcome limits allowance schema value :=
    replay_of_looser bounded nofun shallow
  rw [same] at settled
  have deep := tooDeep_of_meetsLooping meets (Nat.le_add_left 1 (allowance + 1))
  rw [validate_result_of_settled settled, verdict_eq_tooDeep_iff] at deep
  exact shallow _ deep

end Result

/-- Recursive definitions end or loop.  Where the descent of a verified schema and a value
meets no reference to a looping name, validation without limits ends, the hops it follows are
nested at most once for each definition at each level of the value, and every depth limit
that leaves room for that many gives the same findings.  Where it meets one, validation
without limits has no end, and without a limit of findings it exceeds every depth limit. -/
theorem validate_ends_or_loops (schema : Schema) (value : Json)
    (verified : schema.verify = .ok ()) :
    (¬ MeetsLooping schema value →
      ∃ findings, (validate {} schema value).result = .ok findings ∧
        (∀ hop, .followingRef hop ∈ (validate {} schema value).events →
          hop.depth ≤ (schema.definitions.getD []).length * (value.height + 1)) ∧
        (∀ inside inner pending, Descent schema value inside inner pending →
          pending ≤ (schema.definitions.getD []).length * (value.height + 1)) ∧
        ∀ bound, (schema.definitions.getD []).length * (value.height + 1) + 1 ≤ bound →
          (validate { maxDepth := some bound } schema value).result = .ok findings) ∧
    (MeetsLooping schema value →
      (validate {} schema value).result = .error .endless ∧
      ∀ bound, 1 ≤ bound →
        (validate { maxDepth := some bound } schema value).result = .error (.tooDeep bound)) := by
  constructor
  · intro quiet
    let least := (schema.definitions.getD []).length * (value.height + 1) + 1
    have positive : 1 ≤ least := Nat.le_add_left 1 _
    have shallow : ¬ ∃ pending, least - 1 ≤ pending ∧ Attempts schema value pending := by
      rintro ⟨pending, many, attempts⟩
      have few := attempts.pending_lt verified quiet
      omega
    rcases @result_of_depth_limit schema value least positive with ⟨findings, result⟩ | deep
    · refine ⟨findings, result_of_looser positive nofun result, ?_, ?_, ?_⟩
      · intro hop logged
        obtain ⟨pending, isDepth, attempts⟩ := attempts_of_followingRef logged
        have few := attempts.pending_lt verified quiet
        omega
      · exact fun inside inner pending descent => descent.pending_le verified quiet
      · intro bound enough
        exact result_of_looser positive (fun other same => by cases same; exact enough) result
    · exact absurd ((tooDeep_iff_attempts positive).mp deep) shallow
  · intro meets
    exact ⟨endless_of_meetsLooping meets, fun bound => tooDeep_of_meetsLooping meets⟩

/-- Lists of lists, to any depth, beside a name that only leads back to itself. -/
def nestSchema : Schema where
  definitions := some [("nest", { elements := some { ref := some "nest" } }),
    ("loop", { ref := some "loop" })]
  properties := some [("nest", { ref := some "nest" })]
  optionalProperties := some [("rest", { ref := some "loop" })]

/-- The name that leads back to itself is looping, and the other is not. -/
theorem looping_nestSchema_iff (name : String) : Looping nestSchema name ↔ name = "loop" := by
  have refersTo (name next : String) :
      RefersTo nestSchema name next ↔ name = "loop" ∧ next = "loop" := by
    constructor
    · rintro ⟨target, defined, shaped⟩
      have isField := Members.mem_of_lookup
        (defined : [("nest", _), ("loop", _)].lookup name = some target)
      simp only [List.mem_cons, Prod.mk.injEq, List.not_mem_nil, or_false] at isField
      rcases isField with ⟨-, rfl⟩ | ⟨rfl, rfl⟩
      · cases shaped
      · cases shaped
        exact ⟨rfl, rfl⟩
    · rintro ⟨rfl, rfl⟩
      exact ⟨{ ref := some "loop" }, rfl, rfl⟩
  constructor
  · intro looping
    obtain ⟨next, refers⟩ := looping name .refl
    exact ((refersTo name next).mp refers).1
  · rintro rfl last reached
    refine ⟨"loop", (refersTo last "loop").mpr ⟨?_, rfl⟩⟩
    induction reached with
    | refl => rfl
    | tail _ step _ => exact ((refersTo _ _).mp step).2

/-- A list in a list, without the member that loops. -/
def nestedList : Json :=
  .object [("nest", .array [.array []])]

/-- What the descent comes to from there. -/
theorem descent_nestedList {schema : Schema} {inner : Json} {pending : Nat}
    (descent : Descent nestSchema nestedList schema inner pending) :
    (schema = nestSchema ∧ inner = nestedList) ∨ schema = { ref := some "nest" } ∨
      schema = { elements := some { ref := some "nest" } } := by
  induction descent with
  | start => exact .inl ⟨rfl, rfl⟩
  | inward _ step inductionHypothesis =>
      rcases inductionHypothesis with ⟨rfl, rfl⟩ | rfl | rfl
      · have inside : Shape.Inward (.properties nestSchema.properties
          nestSchema.optionalProperties false) nestedList _ _ := step
        cases inside with
        | required isField _ =>
            exact .inr (.inl (congrArg Prod.snd (List.mem_singleton.mp isField)))
        | optional isField present =>
            cases List.mem_singleton.mp isField
            cases present
      · cases (step : Shape.Inward (.ref "nest") _ _ _)
      · have inside : Shape.Inward (.elements ({ ref := some "nest" } : Schema)) _ _ _ := step
        cases inside
        exact .inr (.inl rfl)
  | hop _ shaped defined inductionHypothesis =>
      rcases inductionHypothesis with ⟨rfl, rfl⟩ | rfl | rfl
      · cases shaped
      · cases shaped
        cases defined
        exact .inr (.inr rfl)
      · cases shaped

/-- Without the member that loops, a list in a list is validated to its end, and a limit of
seven leaves enough room.  With it, every limit is exceeded. -/
theorem validate_ends_or_loops_nests :
    nestSchema.verify = .ok () ∧
    ¬ MeetsLooping nestSchema nestedList ∧
    (∀ bound, 7 ≤ bound →
      (validate { maxDepth := some bound } nestSchema nestedList).result = .ok []) ∧
    MeetsLooping nestSchema (.object [("nest", .array []), ("rest", .null)]) ∧
    (∀ bound, 1 ≤ bound → (validate { maxDepth := some bound } nestSchema
      (.object [("nest", .array []), ("rest", .null)])).result = .error (.tooDeep bound)) := by
  have verified : nestSchema.verify = .ok () := rfl
  have quiet : ¬ MeetsLooping nestSchema nestedList := by
    rintro ⟨schema, inner, pending, name, descent, shaped, looping⟩
    cases (looping_nestSchema_iff name).mp looping
    rcases descent_nestedList descent with ⟨rfl, -⟩ | rfl | rfl
    · cases shaped
    · exact absurd (Shape.ref.inj shaped) (by decide)
    · cases shaped
  have meets : MeetsLooping nestSchema (.object [("nest", .array []), ("rest", .null)]) := by
    refine ⟨{ ref := some "loop" }, .null, 0, "loop", .inward .start ?_, rfl,
      (looping_nestSchema_iff "loop").mpr rfl⟩
    exact @Shape.Inward.optional _ _ _ _ _ "rest" _ _ List.mem_cons_self rfl
  refine ⟨verified, quiet, ?_, meets, ((validate_ends_or_loops _ _ verified).2 meets).2⟩
  obtain ⟨findings, result, -, -, bounded⟩ := (validate_ends_or_loops _ _ verified).1 quiet
  cases (rfl : (validate {} nestSchema nestedList).result = .ok []).symm.trans result
  exact bounded

end FormSchema
