import FormSchema.Proofs.Validation.Lead
import FormSchema.Proofs.Validation.Replay

/-!
# Where traces part

Traces of one value with different allowances are equal, or they part where one of the
allowances is exhausted.  A validation that ends does not get that far, and so it has the
same outcome with either trace.
-/

namespace FormSchema

/-- A property of notes that more notes behind them and other places do not change. -/
structure NoteStable (property : List Note → Prop) : Prop where
  append {notes : List Note} (more : List Note) : property notes → property (notes ++ more)
  under {notes : List Note} (tokens : List String) :
    property notes → property (notes.map (Note.under tokens))
  deeper {notes : List Note} : property notes → property (notes.map Note.deeper)

/-- Two lists of notes are equal, or they part at some point, from where on they have the
given properties. -/
def PartsAt (firstEnds secondEnds : List Note → Prop) (first second : List Note) : Prop :=
  first = second ∨
    ∃ common firstRest secondRest, firstEnds firstRest ∧ secondEnds secondRest ∧
      first = common ++ firstRest ∧ second = common ++ secondRest

theorem PartsAt.congruence {firstEnds secondEnds : List Note → Prop}
    (firstStable : NoteStable firstEnds) (secondStable : NoteStable secondEnds) :
    NoteCongruence (PartsAt firstEnds secondEnds) where
  nil := .inl rfl
  finding rejection := .inl rfl
  append := by
    rintro first second firstMore secondMore firstParts secondParts
    rcases firstParts with rfl | ⟨common, firstRest, secondRest, firstEnd, secondEnd, rfl, rfl⟩
    · rcases secondParts with
        rfl | ⟨common, firstRest, secondRest, firstEnd, secondEnd, rfl, rfl⟩
      · exact .inl rfl
      · refine .inr ⟨first ++ common, firstRest, secondRest, firstEnd, secondEnd, ?_, ?_⟩
        · rw [List.append_assoc]
        · rw [List.append_assoc]
    · refine .inr ⟨common, firstRest ++ firstMore, secondRest ++ secondMore,
        firstStable.append _ firstEnd, secondStable.append _ secondEnd, ?_, ?_⟩
      · rw [List.append_assoc]
      · rw [List.append_assoc]
  under := by
    rintro first second tokens
      (rfl | ⟨common, firstRest, secondRest, firstEnd, secondEnd, rfl, rfl⟩)
    · exact .inl rfl
    · exact .inr ⟨common.map (Note.under tokens), _, _, firstStable.under tokens firstEnd,
        secondStable.under tokens secondEnd, List.map_append, List.map_append⟩

theorem PartsAt.deeper {firstEnds secondEnds : List Note → Prop}
    (firstStable : NoteStable firstEnds) (secondStable : NoteStable secondEnds)
    {first second : List Note} (parts : PartsAt firstEnds secondEnds first second) :
    PartsAt firstEnds secondEnds (first.map Note.deeper) (second.map Note.deeper) := by
  rcases parts with rfl | ⟨common, firstRest, secondRest, firstEnd, secondEnd, rfl, rfl⟩
  · exact .inl rfl
  · exact .inr ⟨common.map Note.deeper, _, _, firstStable.deeper firstEnd,
      secondStable.deeper secondEnd, List.map_append, List.map_append⟩

/-- If the first list ends a validation where they part, then a validation that ends
otherwise does not come to that point, and the second list has the same outcome. -/
theorem PartsAt.replay_eq {firstEnds secondEnds : List Note → Prop} {first second : List Note}
    (parts : PartsAt firstEnds secondEnds first second) {limits : Limits} {tokens : List String}
    {frames : Nat} {record : Record}
    (ends : ∀ notes reached, firstEnds notes →
      (replay limits tokens frames notes reached).1 = .error .endless)
    (settled : (replay limits tokens frames first record).1 ≠ .error .endless) :
    replay limits tokens frames second record = replay limits tokens frames first record := by
  rcases parts with rfl | ⟨common, firstRest, secondRest, firstEnd, -, rfl, rfl⟩
  · rfl
  · rw [replay_append] at settled ⊢
    rw [replay_append]
    generalize replay limits tokens frames common record = middle at settled ⊢
    obtain ⟨ending, reached⟩ := middle
    cases ending with
    | ok => exact absurd (ends firstRest reached firstEnd) settled
    | error halt => rfl

/-! ## Where the allowance is exhausted -/

namespace Note

/-- Is it a note on a reference or a hop? -/
def Silent : Note → Prop
  | reference _ => True
  | hop _ _ => True
  | _ => False

/-- The notes begin where the allowance is exhausted. -/
def Exhausted (notes : List Note) : Prop :=
  ∃ rest, notes = .exhausted :: rest

/-- The notes come to where the allowance is exhausted, over references only. -/
def Spins (notes : List Note) : Prop :=
  ∃ silent rest, (∀ note ∈ silent, Silent note) ∧ notes = silent ++ .exhausted :: rest

@[simp]
theorem silent_under_iff {note : Note} {tokens : List String} :
    Silent (note.under tokens) ↔ Silent note := by
  cases note <;> exact Iff.rfl

@[simp]
theorem silent_deeper_iff {note : Note} : Silent note.deeper ↔ Silent note := by
  cases note <;> exact Iff.rfl

theorem true_stable : NoteStable fun _ => True :=
  ⟨fun _ _ => trivial, fun _ _ => trivial, fun _ => trivial⟩

theorem exhausted_stable : NoteStable Exhausted where
  append := by
    rintro _ more ⟨rest, rfl⟩
    exact ⟨rest ++ more, rfl⟩
  under := by
    rintro _ tokens ⟨rest, rfl⟩
    exact ⟨rest.map (under tokens), rfl⟩
  deeper := by
    rintro _ ⟨rest, rfl⟩
    exact ⟨rest.map deeper, rfl⟩

theorem spins_stable : NoteStable Spins where
  append := by
    rintro _ more ⟨silent, rest, allSilent, rfl⟩
    exact ⟨silent, rest ++ more, allSilent, by rw [List.append_assoc, List.cons_append]⟩
  under := by
    rintro _ tokens ⟨silent, rest, allSilent, rfl⟩
    refine ⟨silent.map (under tokens), rest.map (under tokens), ?_, by simp⟩
    intro note isNote
    obtain ⟨other, isOther, rfl⟩ := List.mem_map.mp isNote
    exact silent_under_iff.mpr (allSilent other isOther)
  deeper := by
    rintro _ ⟨silent, rest, allSilent, rfl⟩
    refine ⟨silent.map deeper, rest.map deeper, ?_, by simp⟩
    intro note isNote
    obtain ⟨other, isOther, rfl⟩ := List.mem_map.mp isNote
    exact silent_deeper_iff.mpr (allSilent other isOther)

theorem Exhausted.endless {notes : List Note} (exhausted : Exhausted notes) (limits : Limits)
    (tokens : List String) (frames : Nat) (record : Record) :
    (replay limits tokens frames notes record).1 = .error .endless := by
  obtain ⟨rest, rfl⟩ := exhausted
  rfl

/-- Without a depth limit, nothing stops a validation that only meets references before
its allowance is exhausted. -/
theorem Spins.endless {notes : List Note} (spins : Spins notes) {limits : Limits}
    (unbounded : limits.depth = none) (tokens : List String) (frames : Nat) (record : Record) :
    (replay limits tokens frames notes record).1 = .error .endless := by
  obtain ⟨silent, rest, allSilent, rfl⟩ := spins
  induction silent generalizing record with
  | nil => rfl
  | cons note others inductionHypothesis =>
      have first := allSilent note List.mem_cons_self
      have later (other : Note) (isOther : other ∈ others) :=
        allSilent other (List.mem_cons_of_mem _ isOther)
      cases note with
      | finding rejection => cases first
      | exhausted => cases first
      | hop definition pending => exact inductionHypothesis _ later
      | reference pending =>
          have allowed : limits.tooDeep? (frames + pending) = none := by
            rw [Limits.tooDeep?, unbounded, Option.filter_none]
          simp only [List.cons_append, replay, allowed]
          exact inductionHypothesis _ later

end Note

end FormSchema
