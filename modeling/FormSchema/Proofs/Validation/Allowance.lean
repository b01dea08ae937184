import FormSchema.Proofs.Validation.Chain
import FormSchema.Proofs.Validation.Simulation

/-!
# How many hops may be nested

Validation without a depth limit has no end exactly when references lead to each other
without ever going into the value.  The trace shows it as a note, which depends on the
allowance of nested hops, so the question is which allowance is enough.

More allowance changes a trace only from the first exhaustion on.  In the other direction
the value counts: a chain of references on one value has no end, or it goes into the value
after at most one hop for each definition, and then the height decreases.  The main result
is `outcome_settles`: if some allowance lets a validation end, then the allowance that
validation takes does too, with the same outcome.
-/

namespace FormSchema

variable {root : Schema}

/-! ## More allowance -/

/-- More allowance changes nothing before the point where less allowance is exhausted. -/
theorem traceReference_parts_of_le {allowance more : Nat} (enough : allowance ≤ more)
    (name : String) (value : Json) :
    PartsAt Note.Exhausted (fun _ => True) (traceReference root allowance name value)
      (traceReference root more name value) := by
  have congruence := PartsAt.congruence Note.exhausted_stable Note.true_stable
  induction allowance generalizing more name value with
  | zero =>
      cases defined : root.definition? name with
      | none =>
          rw [traceReference_of_undefined defined, traceReference_of_undefined defined]
          exact .inl rfl
      | some target =>
          rw [traceReference_zero defined]
          cases more with
          | zero =>
              rw [traceReference_zero defined]
              exact .inl rfl
          | succ more =>
              rw [traceReference_succ defined]
              exact .inr ⟨[.reference 0], [.exhausted], _, ⟨[], rfl⟩, trivial, rfl, rfl⟩
  | succ allowance inductionHypothesis =>
      obtain ⟨more, rfl⟩ := Nat.exists_eq_add_of_le' enough
      cases defined : root.definition? name with
      | none =>
          rw [traceReference_of_undefined defined, traceReference_of_undefined defined]
          exact .inl rfl
      | some target =>
          rw [← Nat.add_assoc, traceReference_succ defined, traceReference_succ defined]
          apply congruence.append (.inl (Eq.refl [.reference 0, .hop name 0]))
          apply PartsAt.deeper Note.exhausted_stable Note.true_stable
          apply trace_related congruence
          · intro lead _
            exact inductionHypothesis (Nat.le_add_left allowance more) lead value
          · intro lead innerValue _
            exact inductionHypothesis (Nat.le_add_left allowance more) lead innerValue

theorem trace_parts_of_le {allowance more : Nat} (enough : allowance ≤ more) (schema : Schema)
    (value : Json) (place : List String) (tag : Option String) :
    PartsAt Note.Exhausted (fun _ => True) (trace root allowance schema value place tag)
      (trace root more schema value place tag) :=
  trace_related (PartsAt.congruence Note.exhausted_stable Note.true_stable) schema value
    (fun name _ => traceReference_parts_of_le enough name value)
    (fun name innerValue _ => traceReference_parts_of_le enough name innerValue) place tag

/-! ## Enough allowance -/

/-- Allowances of one hop for each definition at each level of the value differ at most in
how long a chain without end is followed. -/
theorem traceReference_parts_of_enough {value : Json} {allowance other : Nat}
    (enough : (root.definitions.getD []).length * (value.height + 1) ≤ allowance)
    (otherEnough : (root.definitions.getD []).length * (value.height + 1) ≤ other)
    (name : String) :
    PartsAt Note.Spins Note.Spins (traceReference root allowance name value)
      (traceReference root other name value) := by
  generalize height : value.height = level at enough otherEnough
  induction level using Nat.strong_induction_on generalizing value allowance other name with
  | _ level inductionHypothesis =>
      by_cases long : Chain root value ((root.definitions.getD []).length + 1) (some name)
      · have spins := spins_of_chain fun length => chain_of_long long length
        exact .inr ⟨[], _, _, spins allowance, spins other, rfl, rfl⟩
      · rw [Nat.mul_succ] at enough otherEnough
        apply traceReference_parts_of_chain_ends _ long enough otherEnough
        intro innerAllowance innerOther next innerValue innerEnough innerOtherEnough smaller
        have fits : (root.definitions.getD []).length * (innerValue.height + 1) ≤
            (root.definitions.getD []).length * level :=
          Nat.mul_le_mul_left _ (by omega)
        exact inductionHypothesis innerValue.height (by omega) next rfl
          (fits.trans innerEnough) (fits.trans innerOtherEnough)

theorem trace_parts_of_enough {value : Json} {allowance other : Nat}
    (enough : (root.definitions.getD []).length * (value.height + 1) ≤ allowance)
    (otherEnough : (root.definitions.getD []).length * (value.height + 1) ≤ other)
    (schema : Schema) (place : List String) (tag : Option String) :
    PartsAt Note.Spins Note.Spins (trace root allowance schema value place tag)
      (trace root other schema value place tag) := by
  apply trace_related (PartsAt.congruence Note.spins_stable Note.spins_stable)
  · intro name _
    exact traceReference_parts_of_enough enough otherEnough name
  · intro name innerValue smaller
    have fits : (root.definitions.getD []).length * (innerValue.height + 1) ≤
        (root.definitions.getD []).length * (value.height + 1) :=
      Nat.mul_le_mul_left _ (by omega)
    exact traceReference_parts_of_enough (fits.trans enough) (fits.trans otherEnough) name

/-! ## What the depth limit guards -/

/-- Wherever the allowance is exhausted, a reference inside that many others was met
before. -/
def Note.GuardedBy (pending : Nat) : List Note → Prop
  | [] => True
  | .finding _ :: rest => GuardedBy pending rest
  | .reference other :: rest => other = pending ∨ GuardedBy pending rest
  | .hop _ _ :: rest => GuardedBy pending rest
  | .exhausted :: _ => False

namespace Note.GuardedBy

variable {pending : Nat}

theorem append {first second : List Note} (firstGuarded : GuardedBy pending first)
    (secondGuarded : GuardedBy pending second) : GuardedBy pending (first ++ second) := by
  induction first with
  | nil => exact secondGuarded
  | cons note rest inductionHypothesis =>
      cases note with
      | finding rejection => exact inductionHypothesis firstGuarded
      | reference other => exact firstGuarded.imp_right inductionHypothesis
      | hop definition other => exact inductionHypothesis firstGuarded
      | exhausted => exact firstGuarded

theorem under (tokens : List String) {notes : List Note} (guarded : GuardedBy pending notes) :
    GuardedBy pending (notes.map (Note.under tokens)) := by
  induction notes with
  | nil => trivial
  | cons note rest inductionHypothesis =>
      cases note with
      | finding rejection => exact inductionHypothesis guarded
      | reference other => exact guarded.imp_right inductionHypothesis
      | hop definition other => exact inductionHypothesis guarded
      | exhausted => exact guarded

theorem deeper {notes : List Note} (guarded : GuardedBy pending notes) :
    GuardedBy (pending + 1) (notes.map Note.deeper) := by
  induction notes with
  | nil => trivial
  | cons note rest inductionHypothesis =>
      cases note with
      | finding rejection => exact inductionHypothesis guarded
      | reference other => exact guarded.imp (congrArg (· + 1)) inductionHypothesis
      | hop definition other => exact inductionHypothesis guarded
      | exhausted => exact guarded

theorem congruence : NoteCongruence fun notes _ => GuardedBy pending notes where
  nil := trivial
  finding _ := trivial
  append := append
  under tokens := under tokens

/-- A depth limit that does not allow for the guarding reference stops a validation
before its allowance is exhausted. -/
theorem not_endless {notes : List Note} (guarded : GuardedBy pending notes) {limits : Limits}
    {limit frames : Nat} (bounded : limits.depth = some limit) (reached : limit ≤ frames + pending)
    (tokens : List String) (record : Record) :
    (replay limits tokens frames notes record).1 ≠ .error .endless := by
  induction notes generalizing record with
  | nil =>
      intro same
      cases same
  | cons note rest inductionHypothesis =>
      cases note with
      | exhausted => exact guarded.elim
      | hop definition other => exact inductionHypothesis guarded _
      | finding rejection =>
          simp only [replay]
          split
          · intro same
            cases same
          · exact inductionHypothesis guarded _
      | reference other =>
          simp only [replay]
          split
          · intro same
            cases same
          · rename_i allowed
            rcases guarded with rfl | guarded
            · simp only [Limits.tooDeep?, bounded, Option.filter_some, reached, decide_true,
                if_true, reduceCtorEq] at allowed
            · exact inductionHypothesis guarded _

end Note.GuardedBy

theorem trace_guarded (root : Schema) (allowance : Nat) (schema : Schema) (value : Json)
    (place : List String) (tag : Option String) :
    Note.GuardedBy allowance (trace root allowance schema value place tag) := by
  have guardedReference (allowance : Nat) : ∀ name value,
      Note.GuardedBy allowance (traceReference root allowance name value) := by
    induction allowance with
    | zero =>
        intro name value
        rw [traceReference]
        cases root.definition? name with
        | none => exact .inl rfl
        | some target => exact .inl rfl
    | succ allowance inductionHypothesis =>
        intro name value
        cases defined : root.definition? name with
        | none =>
            rw [traceReference_of_undefined defined]
            exact .inr trivial
        | some target =>
            rw [traceReference_succ defined]
            refine .inr (Note.GuardedBy.deeper ?_)
            exact @trace_related _ Note.GuardedBy.congruence root _ 0 target value
              (fun name _ => inductionHypothesis name value)
              (fun name innerValue _ => inductionHypothesis name innerValue) _ _
  exact @trace_related _ Note.GuardedBy.congruence root _ 0 schema value
    (fun name _ => guardedReference allowance name value)
    (fun name innerValue _ => guardedReference allowance name innerValue) place tag

/-! ## Settled outcomes -/

/-- Once an allowance lets a validation end, more allowance makes no difference. -/
theorem outcome_of_le {limits : Limits} {allowance more : Nat} {schema : Schema} {value : Json}
    (enough : allowance ≤ more)
    (settled : (outcome limits allowance schema value).1 ≠ .error .endless) :
    outcome limits more schema value = outcome limits allowance schema value :=
  (trace_parts_of_le enough schema value [] none).replay_eq
    (fun _ reached exhausted => exhausted.endless limits [] 1 reached) settled

/-- If some allowance lets a validation end, then it ends in the same way with the
allowance that it takes. -/
theorem outcome_settles {limits : Limits} {allowance : Nat} {schema : Schema} {value : Json}
    (settled : (outcome limits allowance schema value).1 ≠ .error .endless) :
    outcome limits (hopAllowance schema value limits) schema value =
      outcome limits allowance schema value := by
  let taken := hopAllowance schema value limits
  rcases Nat.le_total allowance taken with enough | excess
  · exact outcome_of_le enough settled
  · cases bounded : limits.depth with
    | some limit =>
        have isLimit : taken = limit := by
          simp only [taken, hopAllowance, bounded]
        have guarded := trace_guarded schema taken schema value [] none
        have ends := guarded.not_endless bounded (by omega : limit ≤ 1 + taken) [] {}
        exact (outcome_of_le excess ends).symm
    | none =>
        have isLevels : taken = (schema.definitions.getD []).length * (value.height + 1) := by
          simp only [taken, hopAllowance, bounded]
        have parts := @trace_parts_of_enough schema value allowance taken (isLevels ▸ excess)
          (Nat.le_of_eq isLevels.symm) schema [] none
        exact parts.replay_eq (fun notes reached spins => spins.endless bounded [] 1 reached)
          settled

/-- With a depth limit, a validation always ends. -/
theorem outcome_ne_endless {limits : Limits} {limit : Nat} (bounded : limits.depth = some limit)
    (schema : Schema) (value : Json) :
    (outcome limits limit schema value).1 ≠ .error .endless :=
  (trace_guarded schema limit schema value [] none).not_endless bounded (Nat.le_add_left _ _) [] {}

/-- A validation has no end exactly when no allowance lets it end. -/
theorem validate_endless_iff (options : Options) (schema : Schema) (value : Json) :
    (validate options schema value).result = .error .endless ↔
      ∀ allowance, (outcome options.limits allowance schema value).1 = .error .endless := by
  rw [validate_result, verdict_eq_endless_iff]
  constructor
  · intro endless allowance
    by_contra settled
    rw [outcome_settles settled] at endless
    exact settled endless
  · intro endless
    exact endless _

/-- The result of a validation may be read off with any allowance that lets it end. -/
theorem validate_result_of_settled {options : Options} {schema : Schema} {value : Json}
    {allowance : Nat}
    (settled : (outcome options.limits allowance schema value).1 ≠ .error .endless) :
    (validate options schema value).result =
      verdict (outcome options.limits allowance schema value) := by
  rw [validate_result, outcome_settles settled]

/-- Two validations have corresponding results if they have with all allowances, where the one may
take some more allowance than the other. -/
theorem result_of_verdicts {options otherOptions : Options} {schema other : Schema}
    {value otherValue : Json} (change : Except Abort (List Finding) → Except Abort (List Finding))
    (endless : ∀ result, change result = .error .endless ↔ result = .error .endless) (extra : Nat)
    (verdicts : ∀ allowance, verdict (outcome options.limits (allowance + extra) schema value) =
      change (verdict (outcome otherOptions.limits allowance other otherValue))) :
    (validate options schema value).result =
      change (validate otherOptions other otherValue).result := by
  by_cases settled : ∃ allowance,
      (outcome otherOptions.limits allowance other otherValue).1 ≠ .error .endless
  · obtain ⟨allowance, ends⟩ := settled
    have sameEnds : (outcome options.limits (allowance + extra) schema value).1 ≠
        .error .endless := by
      rwa [Ne, ← verdict_eq_endless_iff, verdicts, endless, verdict_eq_endless_iff]
    rw [validate_result_of_settled ends, validate_result_of_settled sameEnds, verdicts]
  · have otherEndless (allowance : Nat) :
        (outcome otherOptions.limits allowance other otherValue).1 = .error .endless :=
      not_not.mp fun ends => settled ⟨allowance, ends⟩
    have isEndless (allowance : Nat) :
        (outcome options.limits allowance schema value).1 = .error .endless := by
      by_contra ends
      rw [← outcome_of_le (Nat.le_add_right allowance extra) ends, ← verdict_eq_endless_iff,
        verdicts, endless, verdict_eq_endless_iff] at ends
      exact ends (otherEndless allowance)
    rw [(validate_endless_iff options schema value).mpr isEndless,
      (validate_endless_iff otherOptions other otherValue).mpr otherEndless]
    exact ((endless _).mpr rfl).symm

/-- A validation is aborted at the limit for the depth, and without such a limit only if it has
no end. -/
theorem limit_of_abort {options : Options} {schema : Schema} {value : Json} {abort : Abort}
    (aborts : (validate options schema value).result = .error abort) :
    (∃ limit, options.limits.depth = some limit ∧ abort = .tooDeep limit) ∨
      options.limits.depth = none ∧ abort = .endless := by
  cases abort with
  | endless =>
      refine .inr ⟨?_, rfl⟩
      cases isLimit : options.limits.depth with
      | none => rfl
      | some limit =>
          exact absurd ((validate_endless_iff options schema value).mp aborts limit)
            (outcome_ne_endless isLimit schema value)
  | tooDeep limit =>
      refine .inl ⟨limit, ?_, rfl⟩
      rw [validate_result, verdict_eq_tooDeep_iff] at aborts
      exact (reference_of_tooDeep aborts).1

end FormSchema
