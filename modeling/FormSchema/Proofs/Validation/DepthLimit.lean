import FormSchema.Proofs.Validation.Allowance
import FormSchema.Proofs.Validation.Descent

/-!
# The limit of depth

A depth limit is a threshold on how many references are pending at once.  Validation is too
deep exactly when the descent attempts a reference with as many pending as the limit allows
frames for, the first frame being that of the schema itself.  Otherwise the limit is
invisible.
-/

namespace FormSchema

section Replay

variable {limits : Limits} {tokens : List String} {frames limit : Nat}

/-- A replay does not pass a reference that the limit forbids. -/
theorem replay_ne_ok_of_reference {notes : List Note} {record : Record} {pending : Nat}
    (bounded : limits.depth = some limit) (isNote : .reference pending ∈ notes)
    (forbidden : limit ≤ frames + pending) :
    (replay limits tokens frames notes record).1 ≠ .ok () := by
  induction notes generalizing record with
  | nil => cases isNote
  | cons note rest inductionHypothesis =>
      rcases List.mem_cons.mp isNote with rfl | isLater
      · have deep : limits.tooDeep? (frames + pending) = some limit := by
          simp only [Limits.tooDeep?, bounded, Option.filter_some, forbidden, decide_true, if_true]
        simp only [replay, deep]
        intro same
        cases same
      · cases note with
        | exhausted =>
            intro same
            cases same
        | hop definition other => exact inductionHypothesis isLater
        | finding rejection =>
            simp only [replay]
            split
            · intro same
              cases same
            · exact inductionHypothesis isLater
        | reference other =>
            simp only [replay]
            split
            · intro same
              cases same
            · exact inductionHypothesis isLater

/-- Without a limit of findings, a replay is not stopped for having enough. -/
theorem replay_ne_enoughFindings (unbounded : limits.findings = none) (notes : List Note)
    (record : Record) :
    (replay limits tokens frames notes record).1 ≠ .error .enoughFindings := by
  induction notes generalizing record with
  | nil =>
      intro same
      cases same
  | cons note rest inductionHypothesis =>
      cases note with
      | exhausted =>
          intro same
          cases same
      | hop definition pending => exact inductionHypothesis _
      | finding rejection =>
          simp only [replay, Limits.enough, unbounded]
          exact inductionHypothesis _
      | reference pending =>
          simp only [replay]
          split
          · intro same
            cases same
          · exact inductionHypothesis record

/-- A depth limit that is not reached may as well be larger, or absent. -/
theorem replay_of_looser {notes : List Note} {record : Record}
    (bounded : limits.depth = some limit) {looser : Option Nat}
    (larger : ∀ other, looser = some other → limit ≤ other)
    (shallow : ∀ other, (replay limits tokens frames notes record).1 ≠ .error (.tooDeep other)) :
    replay { limits with depth := looser } tokens frames notes record =
      replay limits tokens frames notes record := by
  induction notes generalizing record with
  | nil => rfl
  | cons note rest inductionHypothesis =>
      cases note with
      | exhausted => rfl
      | hop definition pending => exact inductionHypothesis shallow
      | finding rejection =>
          simp only [replay] at shallow ⊢
          by_cases enough : limits.enough
              (record.withFinding (rejection.under tokens.reverse)).found.length = true
          · have same : Limits.enough { limits with depth := looser }
                (record.withFinding (rejection.under tokens.reverse)).found.length = true :=
              enough
            rw [if_pos enough, if_pos same]
          · have same : ¬ Limits.enough { limits with depth := looser }
                (record.withFinding (rejection.under tokens.reverse)).found.length = true :=
              enough
            rw [if_neg enough] at shallow ⊢
            rw [if_neg same]
            exact inductionHypothesis shallow
      | reference pending =>
          simp only [replay] at shallow ⊢
          cases allowed : limits.tooDeep? (frames + pending) with
          | some other =>
              rw [allowed] at shallow
              exact absurd rfl (shallow other)
          | none =>
              rw [allowed] at shallow
              have below : frames + pending < limit := by
                simpa [Limits.tooDeep?, bounded] using allowed
              have stillAllowed : Limits.tooDeep? { limits with depth := looser }
                  (frames + pending) = none := by
                cases looser with
                | none => rfl
                | some other =>
                    have bound := larger other rfl
                    simp only [Limits.tooDeep?, Option.filter_eq_none_iff]
                    intro same isOther
                    cases isOther
                    simp only [decide_eq_true_eq]
                    omega
              rw [stillAllowed]
              exact inductionHypothesis shallow

end Replay

section Options

variable {schema : Schema} {value : Json} {bound : Nat}

theorem depth_limits {maxErrors : Option Nat} (positive : 1 ≤ bound) :
    (Options.limits { maxDepth := some bound, maxErrors }).depth = some bound := by
  have counts : 0 < bound := positive
  simp only [Options.limits, Option.filter_some, counts, decide_true, if_true]

/-- With a depth limit alone, validation gives findings or is too deep. -/
theorem result_of_depth_limit (positive : 1 ≤ bound) :
    (∃ findings, (validate { maxDepth := some bound } schema value).result = .ok findings) ∨
      (validate { maxDepth := some bound } schema value).result = .error (.tooDeep bound) := by
  have bounded := @depth_limits bound none positive
  have notEndless := outcome_ne_endless bounded schema value
  rw [validate_result_of_settled notEndless]
  cases ending : (outcome (Options.limits { maxDepth := some bound }) bound schema value).1 with
  | ok => exact .inl ⟨_, verdict_eq_ok_iff.mpr ⟨.inl ending, rfl⟩⟩
  | error halt =>
      cases halt with
      | endless => exact absurd ending notEndless
      | enoughFindings => exact absurd ending (replay_ne_enoughFindings rfl _ _)
      | tooDeep limit =>
          obtain ⟨isBound, -⟩ := reference_of_tooDeep ending
          cases bounded.symm.trans isBound
          exact .inr (verdict_eq_tooDeep_iff.mpr ending)

/-- With a depth limit, validation is too deep exactly if the descent attempts a reference
for which the limit has no frame. -/
theorem tooDeep_iff_attempts (positive : 1 ≤ bound) :
    (validate { maxDepth := some bound } schema value).result = .error (.tooDeep bound) ↔
      ∃ pending, bound - 1 ≤ pending ∧ Attempts schema value pending := by
  have bounded := @depth_limits bound none positive
  constructor
  · intro result
    rw [validate_result, verdict_eq_tooDeep_iff] at result
    obtain ⟨-, pending, noted, forbidden⟩ := reference_of_tooDeep result
    have attempts := attempts_of_trace Descent.start noted
    rw [Nat.zero_add] at attempts
    exact ⟨pending, by omega, attempts⟩
  · rintro ⟨pending, many, attempts⟩
    -- An allowance beyond the pending references shows the attempt in the trace.
    have notOk := @replay_ne_ok_of_reference _ [] 1 bound _ {} pending bounded
      (attempts.reference_mem bound) (by omega)
    have notEndless := (trace_guarded schema (bound + pending) schema value [] none).not_endless
      bounded (by omega : bound ≤ 1 + (bound + pending)) [] {}
    rcases @result_of_depth_limit schema value bound positive with
      ⟨findings, result⟩ | result
    · rw [validate_result_of_settled notEndless, verdict_eq_ok_iff] at result
      rcases result.1 with ending | ending
      · exact absurd ending notOk
      · exact absurd ending (replay_ne_enoughFindings rfl _ _)
    · exact result

/-- Findings within a depth limit are those within every larger limit, and without one. -/
theorem result_of_looser {maxErrors looser : Option Nat} {findings : List Finding}
    (positive : 1 ≤ bound) (larger : ∀ other, looser = some other → bound ≤ other)
    (result : (validate { maxDepth := some bound, maxErrors } schema value).result =
      .ok findings) :
    (validate { maxDepth := looser, maxErrors } schema value).result = .ok findings := by
  let limits := Options.limits { maxDepth := some bound, maxErrors }
  have bounded : limits.depth = some bound := depth_limits positive
  have kept : Options.limits { maxDepth := looser, maxErrors } =
      { limits with depth := looser } := by
    cases looser with
    | none => rfl
    | some other =>
        have counts : 0 < other := positive.trans (larger other rfl)
        simp only [limits, Options.limits, Option.filter_some, counts, decide_true, if_true]
  rw [validate_result, verdict_eq_ok_iff] at result
  have shallow (other : Nat) : (outcome limits (hopAllowance schema value limits) schema
      value).1 ≠ .error (.tooDeep other) := by
    intro deep
    rcases result.1 with ending | ending
    · cases ending.symm.trans deep
    · cases ending.symm.trans deep
  have same := replay_of_looser bounded larger shallow
  have settled : (outcome (Options.limits { maxDepth := looser, maxErrors })
      (hopAllowance schema value limits) schema value).1 ≠ .error .endless := by
    rw [kept, outcome, same]
    intro endless
    rcases result.1 with ending | ending
    · cases ending.symm.trans endless
    · cases ending.symm.trans endless
  rw [validate_result_of_settled settled, kept, outcome, same]
  exact verdict_eq_ok_iff.mpr result

end Options

/-- A depth limit is an exact threshold and otherwise invisible.  Validation ends, and it is
too deep exactly if the descent attempts a reference while all frames but the first are
taken by references pending on its chain.  If not, it gives the findings that every larger
limit gives, and no limit; and whatever the limit of findings is, findings within a depth
limit remain with a larger limit, or with none. -/
theorem validate_maxDepth_threshold (schema : Schema) (value : Json) (bound : Nat)
    (positive : 1 ≤ bound) :
    ((validate { maxDepth := some bound } schema value).result = .error (.tooDeep bound) ↔
      ∃ pending, bound - 1 ≤ pending ∧ Attempts schema value pending) ∧
    ((¬ ∃ pending, bound - 1 ≤ pending ∧ Attempts schema value pending) →
      ∃ findings,
        (validate { maxDepth := some bound } schema value).result = .ok findings ∧
        (∀ larger, bound ≤ larger →
          (validate { maxDepth := some larger } schema value).result = .ok findings) ∧
        (validate {} schema value).result = .ok findings) ∧
    (∀ maxErrors findings,
      (validate { maxDepth := some bound, maxErrors } schema value).result = .ok findings →
        (∀ larger, bound ≤ larger →
          (validate { maxDepth := some larger, maxErrors } schema value).result =
            .ok findings) ∧
        (validate { maxErrors } schema value).result = .ok findings ∧
        (validate { maxDepth := some 0, maxErrors } schema value).result = .ok findings) := by
  have threshold := @tooDeep_iff_attempts schema value bound positive
  have invisible (maxErrors : Option Nat) (findings : List Finding)
      (result : (validate { maxDepth := some bound, maxErrors } schema value).result =
        .ok findings) :
      (∀ larger, bound ≤ larger →
        (validate { maxDepth := some larger, maxErrors } schema value).result = .ok findings) ∧
      (validate { maxErrors } schema value).result = .ok findings := by
    constructor
    · intro larger enough
      exact result_of_looser positive (fun other same => by cases same; exact enough) result
    · exact result_of_looser positive nofun result
  refine ⟨threshold, ?_, ?_⟩
  · intro shallow
    rcases @result_of_depth_limit schema value bound positive with
      ⟨findings, result⟩ | deep
    · exact ⟨findings, result, invisible none findings result⟩
    · exact absurd (threshold.mp deep) shallow
  · intro maxErrors findings result
    obtain ⟨larger, unbounded⟩ := invisible maxErrors findings result
    exact ⟨larger, unbounded, unbounded⟩

/-- A schema with two properties that refer to one definition. -/
def twinSchema : Schema where
  definitions := some [("name", { type := some .string })]
  properties := some [("first", { ref := some "name" }), ("second", { ref := some "name" })]

/-- A limit of one frame forbids the first reference; with two frames both are allowed, for
the first one is finished when the second one is met. -/
theorem validate_maxDepth_twins :
    1 ≤ 1 ∧ 1 ≤ 2 ∧
    (validate { maxDepth := some 1 } twinSchema
      (.object [("first", .string "a"), ("second", .string "b")])).result =
        .error (.tooDeep 1) ∧
    (∀ larger, 2 ≤ larger → (validate { maxDepth := some larger } twinSchema
      (.object [("first", .string "a"), ("second", .string "b")])).result = .ok []) := by
  have attempts : Attempts twinSchema
      (.object [("first", .string "a"), ("second", .string "b")]) 0 := by
    refine ⟨{ ref := some "name" }, .string "a", "name", .inward .start ?_, rfl⟩
    exact @Shape.Inward.required _ _ _ _ _ "first" _ _ List.mem_cons_self rfl
  refine ⟨Nat.le_refl 1, Nat.le_succ 1, ?_, ?_⟩
  · exact (validate_maxDepth_threshold _ _ 1 (Nat.le_refl 1)).1.mpr
      ⟨0, Nat.le_refl 0, attempts⟩
  · exact ((validate_maxDepth_threshold _ _ 2 (Nat.le_succ 1)).2.2 none [] rfl).1

end FormSchema
