import FormSchema.Proofs.Validation.DepthLimit
import FormSchema.Proofs.Validation.Relocation

/-!
# References are transparent

A reference on its own gives what the definition behind it gives as the outermost schema: the
same findings in the same order, at the place of the definition.  It takes one frame, so that a
depth limit has to be larger by one.  This goes for the whole of a validation, the references
back to the same definition included, and for every limit of findings.
-/

namespace FormSchema

/-- The failure with one more frame around. -/
def Abort.deeper : Abort → Abort
  | tooDeep limit => .tooDeep (limit + 1)
  | endless => .endless

/-- Limits that allow one more frame, where there is a limit of frames. -/
def Limits.deeper (limits : Limits) : Limits :=
  { limits with depth := limits.depth.map (· + 1) }

section Replay

variable {limits : Limits}

theorem Limits.tooDeep?_deeper (limits : Limits) (frames : Nat) :
    limits.deeper.tooDeep? (frames + 1) = (limits.tooDeep? frames).map (· + 1) := by
  cases bounded : limits.depth with
  | none => simp [tooDeep?, deeper, bounded]
  | some limit =>
      simp only [tooDeep?, deeper, bounded, Option.map_some, Option.filter_some,
        Nat.add_le_add_iff_right]
      split <;> rfl

/-- Replaying inside one more frame, with limits that allow for it, gives the same findings, or
fails at the same note. -/
theorem verdict_replay_deeper (frames : Nat) (notes : List Note) {record other : Record}
    (sameFound : other.found = record.found) :
    verdict (replay limits.deeper [] (frames + 1) notes other) =
      (verdict (replay limits [] frames notes record)).mapError Abort.deeper := by
  have sameFindings (record other : Record) (sameFound : other.found = record.found) :
      (.ok other.found.reverse : Except Abort (List Finding)) = .ok record.found.reverse := by
    rw [sameFound]
  induction notes generalizing record other with
  | nil => exact sameFindings record other sameFound
  | cons note rest inductionHypothesis =>
      cases note with
      | exhausted => rfl
      | hop definition pending =>
          exact @inductionHypothesis (record.withHop _) (other.withHop _) sameFound
      | finding rejection =>
          have grown : (other.withFinding rejection).found =
              (record.withFinding rejection).found :=
            congrArg (rejection :: ·) sameFound
          have sameEnough : limits.deeper.enough (other.found.length + 1) =
              limits.enough (record.found.length + 1) := by
            rw [sameFound]
            rfl
          rw [replay_finding, replay_finding, sameEnough]
          split
          · exact sameFindings _ _ grown
          · exact inductionHypothesis grown
      | reference pending =>
          simp only [replay, Nat.add_right_comm frames 1 pending, Limits.tooDeep?_deeper]
          cases limits.tooDeep? (frames + pending) with
          | some limit => rfl
          | none => exact inductionHypothesis sameFound

end Replay

section Reference

variable {definitions : List (String × Schema)} {name : String} {body : Schema}

/-- What a reference on its own leaves in the trace: itself, the hop, and one deeper what the
definition leaves as the outermost schema, at the place of the definition. -/
theorem trace_reference_root (defined : definitions.lookup name = some body) (allowance : Nat)
    (value : Json) :
    trace { definitions := some definitions, ref := some name } (allowance + 1)
        { definitions := some definitions, ref := some name } value [] none =
      .reference 0 :: .hop name 0 ::
        ((trace { body with definitions := some definitions } allowance
          { body with definitions := some definitions } value [] none).map
            (Note.movedTo ["definitions", name])).map Note.deeper := by
  let referring : Schema := { definitions := some definitions, ref := some name }
  have isDefined : referring.definition? name = some body := defined
  rw [trace_of_lead (Schema.lead_of_ref rfl value), traceReference_succ isDefined,
    trace_eq_of_standalone]

/-- However many hops may be nested, a reference on its own comes to what its definition comes to
with one hop less. -/
theorem verdict_outcome_reference (defined : definitions.lookup name = some body)
    {limits : Limits} (unblocked : limits.depth ≠ some 0) (allowance : Nat) (value : Json) :
    verdict (outcome limits.deeper (allowance + 1)
        { definitions := some definitions, ref := some name } value) =
      ((verdict (outcome limits allowance { body with definitions := some definitions }
        value)).map (List.map (Finding.movedTo ["definitions", name]))).mapError Abort.deeper := by
  have allowed : limits.deeper.tooDeep? 1 = none := by
    rw [← Nat.zero_add 1, Limits.tooDeep?_deeper, Option.map_eq_none_iff, Limits.tooDeep?,
      Option.filter_eq_none_iff]
    intro limit isLimit
    rw [decide_eq_true_eq, Nat.le_zero]
    rintro rfl
    exact unblocked isLimit
  rw [outcome, trace_reference_root defined]
  simp only [replay, Nat.add_zero, allowed]
  have sameFound : (Record.withHop ⟨name, 1⟩ {}).found = ({} : Record).found := rfl
  rw [← replay_succ_frames, verdict_replay_deeper 1 _ sameFound, verdict_replay_moved]
  rfl

end Reference

/-- A reference is transparent, and takes exactly one level of depth.  For every name that is
defined, whatever the limit of findings is, a reference to the definition gives the findings that
the definition gives as the outermost schema with the same definitions, one for one in the same
order: at the same places in the value, and in the schema behind the place of the definition,
unless a further reference has led to a definition.  If a depth limit makes the one fail,
then the limit that is larger by one makes the other fail.  Without a depth limit both have the
same findings, unless neither has an end. -/
theorem validate_ref_transparent (definitions : List (String × Schema)) (name : String)
    (body : Schema) (defined : definitions.lookup name = some body) (value : Json)
    (maxDepth maxErrors : Option Nat) (limited : maxDepth ≠ some 0) :
    (validate { maxDepth := maxDepth.map (· + 1), maxErrors }
        { definitions := some definitions, ref := some name } value).result =
      ((validate { maxDepth, maxErrors } { body with definitions := some definitions }
        value).result.map (List.map (Finding.movedTo ["definitions", name]))).mapError
          Abort.deeper := by
  have isDeeper : Options.limits { maxDepth := maxDepth.map (· + 1), maxErrors } =
      (Options.limits { maxDepth, maxErrors }).deeper := by
    cases maxDepth with
    | none => rfl
    | some bound =>
        have counts : 0 < bound := Nat.pos_of_ne_zero fun same => limited (congrArg some same)
        simp [Options.limits, Limits.deeper, Option.filter_some, counts]
  have unblocked : (Options.limits { maxDepth, maxErrors }).depth ≠ some 0 := by
    intro blocked
    have positive := (Option.filter_eq_some_iff.mp blocked).2
    cases positive
  refine result_of_verdicts (fun result =>
    (result.map (List.map (Finding.movedTo ["definitions", name]))).mapError Abort.deeper) ?_ 1 ?_
  · rintro (abort | findings)
    · cases abort <;> simp [Except.map, Except.mapError, Abort.deeper]
    · simp [Except.map, Except.mapError]
  · intro allowance
    rw [isDeeper]
    exact verdict_outcome_reference defined unblocked allowance value

/-- An entry of an outline has a title, and may have further entries. -/
def outlineEntry : Schema where
  properties := some [("title", { ref := some "title" })]
  optionalProperties := some [("entries", { elements := some { ref := some "entry" } })]

def outlineDefinitions : List (String × Schema) :=
  [("entry", outlineEntry), ("title", { type := some .string })]

/-- An entry without a title, with an entry inside whose title is no text and another one that
has no title either. -/
def untitledOutline : Json :=
  .object [("entries", .array [.object [("title", .null)], .object []])]

/-- The definition needs three frames for the outline, and a reference to it needs four.  Only
the first finding is made at the place of the reference, and moves with it. -/
theorem validate_ref_transparent_outline :
    outlineDefinitions.lookup "entry" = some outlineEntry ∧ some 3 ≠ some 0 ∧ some 2 ≠ some 0 ∧
    (validate { maxDepth := some 3 } { outlineEntry with definitions := some outlineDefinitions }
      untitledOutline).result = .ok
        [⟨[], ["properties", "title"]⟩,
          ⟨["entries", "0", "title"], ["definitions", "title", "type"]⟩,
          ⟨["entries", "1"], ["definitions", "entry", "properties", "title"]⟩] ∧
    (validate { maxDepth := some 4 } { definitions := some outlineDefinitions, ref := some "entry" }
      untitledOutline).result = .ok
        [⟨[], ["definitions", "entry", "properties", "title"]⟩,
          ⟨["entries", "0", "title"], ["definitions", "title", "type"]⟩,
          ⟨["entries", "1"], ["definitions", "entry", "properties", "title"]⟩] ∧
    (validate { maxDepth := some 3 } { definitions := some outlineDefinitions, ref := some "entry" }
      untitledOutline).result = .error (.tooDeep 3) := by
  have transparent (bound : Nat) (positive : some bound ≠ some 0) :=
    validate_ref_transparent outlineDefinitions "entry" outlineEntry rfl untitledOutline
      (some bound) none positive
  exact ⟨rfl, by decide, by decide, rfl, transparent 3 (by decide), transparent 2 (by decide)⟩

end FormSchema
