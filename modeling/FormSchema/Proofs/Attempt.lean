import Mathlib.Data.List.Forall2

/-!
# Computations that may fail

When a step after another, a changed result and a list of computations succeed, and when they fail.
Of a list the first failure is the failure of the whole.
-/

namespace FormSchema

namespace Attempt

variable {ε δ α β : Type} {error : ε}

/-- A step after another succeeds exactly if both do. -/
theorem bind_eq_ok_iff {first : Except ε α} {next : α → Except ε β} {result : β} :
    first >>= next = .ok result ↔ ∃ between, first = .ok between ∧ next between = .ok result := by
  cases first with
  | error error => exact iff_of_false nofun nofun
  | ok between =>
      constructor
      · intro same
        exact ⟨between, rfl, same⟩
      · rintro ⟨_, ⟨⟩, same⟩
        exact same

/-- A step fails if it fails to begin with, or afterwards. -/
theorem bind_eq_error_iff {first : Except ε α} {next : α → Except ε β} :
    first >>= next = .error error ↔
      first = .error error ∨ ∃ between, first = .ok between ∧ next between = .error error := by
  cases first with
  | error other =>
      constructor
      · rintro ⟨⟩
        exact .inl rfl
      · rintro (same | ⟨_, ⟨⟩, _⟩)
        cases same
        rfl
  | ok between =>
      constructor
      · intro same
        exact .inr ⟨between, rfl, same⟩
      · rintro (⟨⟨⟩⟩ | ⟨_, ⟨⟩, same⟩)
        exact same

/-- A result that is changed afterwards. -/
theorem map_eq_ok_iff {change : α → β} {outcome : Except ε α} {result : β} :
    outcome.map change = .ok result ↔ ∃ value, outcome = .ok value ∧ change value = result := by
  cases outcome with
  | error error => exact iff_of_false nofun nofun
  | ok value =>
      constructor
      · rintro ⟨⟩
        exact ⟨value, rfl, rfl⟩
      · rintro ⟨_, ⟨⟩, rfl⟩
        rfl

theorem map_eq_error_iff {change : α → β} {outcome : Except ε α} :
    change <$> outcome = .error error ↔ outcome = .error error := by
  cases outcome <;> simp [Functor.map, Except.map]

/-- What becomes of errors does not matter for what succeeds. -/
theorem mapError_eq_ok_iff {change : ε → δ} {outcome : Except ε α} {result : α} :
    outcome.mapError change = .ok result ↔ outcome = .ok result := by
  cases outcome with
  | error error => exact iff_of_false nofun nofun
  | ok value =>
      constructor
      · rintro ⟨⟩
        rfl
      · rintro ⟨⟩
        rfl

theorem mapError_eq_error_iff {change : ε → δ} {outcome : Except ε α} {changed : δ} :
    outcome.mapError change = .error changed ↔
      ∃ error, outcome = .error error ∧ changed = change error := by
  cases outcome with
  | error error =>
      constructor
      · rintro ⟨⟩
        exact ⟨error, rfl, rfl⟩
      · rintro ⟨_, ⟨⟩, rfl⟩
        rfl
  | ok value => exact iff_of_false nofun (by rintro ⟨_, ⟨⟩, _⟩)

variable {action : α → Except ε β}

/-- All of a list is done if each of it is. -/
theorem mapM_eq_ok_iff {items : List α} {results : List β} :
    items.mapM action = .ok results ↔
      List.Forall₂ (fun item result => action item = .ok result) items results := by
  induction items generalizing results with
  | nil =>
      rw [List.mapM_nil, List.forall₂_nil_left_iff]
      exact ⟨fun same => (Except.ok.inj same).symm, fun same => congrArg Except.ok same.symm⟩
  | cons item rest inductionHypothesis =>
      rw [List.mapM_cons, bind_eq_ok_iff, List.forall₂_cons_left_iff]
      refine exists_congr fun first => ?_
      rw [bind_eq_ok_iff]
      constructor
      · rintro ⟨isDone, others, areDone, ⟨⟩⟩
        exact ⟨others, isDone, inductionHypothesis.mp areDone, rfl⟩
      · rintro ⟨others, isDone, areDone, rfl⟩
        exact ⟨isDone, others, inductionHypothesis.mpr areDone, rfl⟩

/-- A list fails with the first of it that fails. -/
theorem mapM_eq_error_iff {items : List α} :
    items.mapM action = .error error ↔
      ∃ before item after, items = before ++ item :: after ∧
        (∀ earlier ∈ before, ∃ result, action earlier = .ok result) ∧
        action item = .error error := by
  induction items with
  | nil =>
      refine iff_of_false nofun ?_
      rintro ⟨before, item, after, split, -⟩
      exact absurd split.symm (by simp)
  | cons first rest inductionHypothesis =>
      rw [List.mapM_cons, bind_eq_error_iff]
      constructor
      · rintro (fails | ⟨result, isDone, fails⟩)
        · exact ⟨[], first, rest, rfl, nofun, fails⟩
        · rw [bind_eq_error_iff] at fails
          obtain fails | ⟨_, _, ⟨⟩⟩ := fails
          obtain ⟨before, item, after, rfl, areDone, fails⟩ := inductionHypothesis.mp fails
          exact ⟨first :: before, item, after, rfl,
            List.forall_mem_cons.mpr ⟨⟨result, isDone⟩, areDone⟩, fails⟩
      · rintro ⟨before, item, after, split, areDone, fails⟩
        cases before with
        | nil =>
            cases split
            exact .inl fails
        | cons earlier before =>
            cases split
            obtain ⟨⟨result, isDone⟩, areDone⟩ := List.forall_mem_cons.mp areDone
            have failsLater := inductionHypothesis.mpr ⟨before, item, after, rfl, areDone, fails⟩
            exact .inr ⟨result, isDone, bind_eq_error_iff.mpr (.inl failsLater)⟩

/-- All of some outcomes are results if the list of them is a list of results. -/
theorem mapM_id_eq_ok_iff {outcomes : List (Except ε α)} {results : List α} :
    outcomes.mapM id = .ok results ↔ outcomes = results.map .ok := by
  rw [mapM_eq_ok_iff, ← List.forall₂_eq_eq_eq, List.forall₂_map_right_iff]
  rfl

end Attempt

end FormSchema
