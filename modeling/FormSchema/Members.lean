/-!
# Lists of named values

Names with values, in the order in which they were written first.  A name is meant to occur once;
`Members.put` is how lists are built so that it does.  Names are mostly strings, but anything with
decidable equality will do.
-/

namespace FormSchema.Members

variable {κ α : Type}

/-- The names, in order. -/
def names (members : List (κ × α)) : List κ :=
  members.map Prod.fst

/-- Is the name among the members? -/
def has [BEq κ] (name : κ) (members : List (κ × α)) : Bool :=
  (members.lookup name).isSome

variable [DecidableEq κ]

/-- Assign a value to a name.  A name that is already present keeps its position and
takes the new value. -/
def put (name : κ) (value : α) : List (κ × α) → List (κ × α)
  | [] => [(name, value)]
  | (other, old) :: rest =>
      if other = name then (name, value) :: rest else (other, old) :: put name value rest

/-- Looking up the name that was assigned last gives its value. -/
@[simp]
theorem lookup_put_self [BEq κ] [LawfulBEq κ] (name : κ) (value : α) (members : List (κ × α)) :
    (put name value members).lookup name = some value := by
  induction members with
  | nil => simp [put]
  | cons entry rest inductionHypothesis =>
      obtain ⟨other, old⟩ := entry
      by_cases same : other = name
      · simp [put, same]
      · have differ : (name == other) = false := by simp [Ne.symm same]
        simp [put, same, List.lookup_cons, differ, inductionHypothesis]

/-- Assigning a value to a name leaves the values of other names alone. -/
theorem lookup_put_of_ne [BEq κ] [LawfulBEq κ] {name other : κ} (value : α)
    (members : List (κ × α)) (different : other ≠ name) :
    (put name value members).lookup other = members.lookup other := by
  induction members with
  | nil =>
      have differ : (other == name) = false := by simp [different]
      simp [put, List.lookup_cons, differ]
  | cons entry rest inductionHypothesis =>
      obtain ⟨first, old⟩ := entry
      by_cases same : first = name
      · subst same
        have differ : (other == first) = false := by simp [different]
        simp [put, List.lookup_cons, differ]
      · simp [put, same, List.lookup_cons, inductionHypothesis]

/-- Assigning a value adds its name behind the others, unless it is among them. -/
theorem names_put (name : κ) (value : α) (members : List (κ × α)) :
    names (put name value members) =
      if name ∈ names members then names members else names members ++ [name] := by
  induction members with
  | nil => simp [put, names]
  | cons entry rest inductionHypothesis =>
      obtain ⟨other, old⟩ := entry
      simp only [names] at inductionHypothesis
      by_cases same : other = name
      · simp [put, names, same]
      · by_cases present : name ∈ rest.map Prod.fst
        · simp [put, names, same, inductionHypothesis, present]
        · simp [put, names, same, Ne.symm same, inductionHypothesis, present]

end FormSchema.Members
