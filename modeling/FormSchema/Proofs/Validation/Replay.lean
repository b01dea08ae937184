import FormSchema.Validation.Event
import FormSchema.Proofs.Validation.Trace

/-!
# Replaying a trace

The limits of a validation have no part in its trace.  `replay` goes through the notes of
a trace, writes down what a walk would write down, and stops where a limit is reached.
`outcome` replays the whole trace of a value, and `verdict` turns how that ends into the
result of the validation.
-/

namespace FormSchema

/-- What a walk has written down, the latest first. -/
structure Record where
  found : List Finding := []
  hops : List Hop := []

namespace Record

/-- Write down a finding. -/
def withFinding (rejection : Finding) (record : Record) : Record :=
  { record with found := rejection :: record.found }

/-- Write down a hop. -/
def withHop (hop : Hop) (record : Record) : Record :=
  { record with hops := hop :: record.hops }

end Record

/-- Are so many findings as many as wanted? -/
def Limits.enough (limits : Limits) (count : Nat) : Bool :=
  match limits.findings with
  | some limit => limit ≤ count
  | none => false

/-- Would a further frame be one too many, with so many open? -/
def Limits.tooDeep? (limits : Limits) (frames : Nat) : Option Nat :=
  limits.depth.filter (· ≤ frames)

/-- Go through notes that are relative to the instance tokens (innermost first) and to the
number of frames. -/
def replay (limits : Limits) (tokens : List String) (frames : Nat) :
    List Note → Record → Except Halt Unit × Record
  | [], record => (.ok (), record)
  | .finding rejection :: rest, record =>
      let grown := record.withFinding (rejection.under tokens.reverse)
      if limits.enough grown.found.length then
        (.error .enoughFindings, grown)
      else
        replay limits tokens frames rest grown
  | .reference pending :: rest, record =>
      match limits.tooDeep? (frames + pending) with
      | some limit => (.error (.tooDeep limit), record)
      | none => replay limits tokens frames rest record
  | .hop definition pending :: rest, record =>
      replay limits tokens frames rest (record.withHop ⟨definition, frames + pending⟩)
  | .exhausted :: _, record => (.error .endless, record)

section Replay

/-- Replaying a finding at the beginning of the value. -/
theorem replay_finding (limits : Limits) (frames : Nat) (rejection : Finding)
    (rest : List Note) (record : Record) :
    replay limits [] frames (.finding rejection :: rest) record =
      if limits.enough (record.found.length + 1) then
        (.error .enoughFindings, record.withFinding rejection)
      else
        replay limits [] frames rest (record.withFinding rejection) := by
  simp only [replay, List.reverse_nil, Finding.under_nil]
  rfl

variable {limits : Limits} {tokens : List String} {frames : Nat}

/-- Notes are replayed one list after the other, as long as nothing stops them. -/
theorem replay_append (first second : List Note) (record : Record) :
    replay limits tokens frames (first ++ second) record =
      match replay limits tokens frames first record with
      | (.ok (), reached) => replay limits tokens frames second reached
      | (.error halt, reached) => (.error halt, reached) := by
  induction first generalizing record with
  | nil => rfl
  | cons note rest inductionHypothesis =>
      cases note with
      | finding rejection =>
          simp only [List.cons_append, replay]
          split
          · rfl
          · exact inductionHypothesis _
      | reference pending =>
          simp only [List.cons_append, replay]
          split
          · rfl
          · exact inductionHypothesis _
      | hop definition pending => exact inductionHypothesis _
      | exhausted => rfl

/-- An instance token may as well be put before the places that are noted. -/
theorem replay_cons_token (token : String) (notes : List Note) (record : Record) :
    replay limits (token :: tokens) frames notes record =
      replay limits tokens frames (notes.map (Note.under [token])) record := by
  induction notes generalizing record with
  | nil => rfl
  | cons note rest inductionHypothesis =>
      cases note <;> simp [replay, inductionHypothesis, Finding.under_append]

/-- A frame may as well be counted with the references that are noted. -/
theorem replay_succ_frames (notes : List Note) (record : Record) :
    replay limits tokens (frames + 1) notes record =
      replay limits tokens frames (notes.map Note.deeper) record := by
  have shifted (pending : Nat) : frames + 1 + pending = frames + (pending + 1) := by omega
  induction notes generalizing record with
  | nil => rfl
  | cons note rest inductionHypothesis =>
      cases note <;> simp [replay, inductionHypothesis, shifted]

/-- Replaying only adds to what has been found. -/
theorem replay_found_suffix (notes : List Note) (record : Record) :
    record.found <:+ (replay limits [] frames notes record).2.found := by
  induction notes generalizing record with
  | nil => exact List.suffix_refl _
  | cons note rest inductionHypothesis =>
      cases note with
      | finding rejection =>
          have grows : record.found <:+ (record.withFinding rejection).found :=
            List.suffix_cons rejection record.found
          rw [replay_finding]
          split
          · exact grows
          · exact grows.trans (inductionHypothesis _)
      | reference pending =>
          simp only [replay]
          split
          · exact List.suffix_refl _
          · exact inductionHypothesis record
      | hop definition pending => exact inductionHypothesis (record.withHop _)
      | exhausted => exact List.suffix_refl _

/-- A finding that is replayed remains. -/
theorem withFinding_found_suffix (rejection : Finding) (rest : List Note) (record : Record) :
    (record.withFinding rejection).found <:+
      (replay limits [] frames (.finding rejection :: rest) record).2.found := by
  rw [replay_finding]
  split
  · exact List.suffix_refl _
  · exact replay_found_suffix rest _

/-- A replay is too deep only at a reference that the limit forbids. -/
theorem reference_of_tooDeep {notes : List Note} {record : Record} {limit : Nat}
    (deep : (replay limits tokens frames notes record).1 = .error (.tooDeep limit)) :
    limits.depth = some limit ∧
      ∃ pending, .reference pending ∈ notes ∧ limit ≤ frames + pending := by
  induction notes generalizing record with
  | nil => cases deep
  | cons note rest inductionHypothesis =>
      have later (reached : Record)
          (deep : (replay limits tokens frames rest reached).1 = .error (.tooDeep limit)) :
          limits.depth = some limit ∧
            ∃ pending, .reference pending ∈ note :: rest ∧ limit ≤ frames + pending := by
        obtain ⟨bounded, pending, isNote, reached⟩ := inductionHypothesis deep
        exact ⟨bounded, pending, List.mem_cons_of_mem _ isNote, reached⟩
      cases note with
      | exhausted => cases deep
      | hop definition pending => exact later _ deep
      | finding rejection =>
          simp only [replay] at deep
          split at deep
          · cases deep
          · exact later _ deep
      | reference pending =>
          simp only [replay] at deep
          split at deep
          · rename_i reached isLimit
            cases deep
            obtain ⟨bounded, forbidden⟩ := Option.filter_eq_some_iff.mp isLimit
            exact ⟨bounded, pending, List.mem_cons_self, by simpa using forbidden⟩
          · exact later _ deep

end Replay

/-- How validating a value ends when that many hops may be nested, and what it writes
down. -/
def outcome (limits : Limits) (allowance : Nat) (schema : Schema) (value : Json) :
    Except Halt Unit × Record :=
  replay limits [] 1 (trace schema allowance schema value [] none) {}

/-- The result that an ending and a record stand for. -/
def verdict : Except Halt Unit × Record → Except Abort (List Finding)
  | (.ok (), record) => .ok record.found.reverse
  | (.error .enoughFindings, record) => .ok record.found.reverse
  | (.error (.tooDeep limit), _) => .error (.tooDeep limit)
  | (.error .endless, _) => .error .endless

theorem verdict_eq_ok_iff {replayed : Except Halt Unit × Record} {findings : List Finding} :
    verdict replayed = .ok findings ↔
      (replayed.1 = .ok () ∨ replayed.1 = .error .enoughFindings) ∧
        replayed.2.found.reverse = findings := by
  obtain ⟨ending, record⟩ := replayed
  cases ending with
  | ok => simp [verdict]
  | error halt => cases halt <;> simp [verdict]

theorem verdict_eq_tooDeep_iff {replayed : Except Halt Unit × Record} {limit : Nat} :
    verdict replayed = .error (.tooDeep limit) ↔ replayed.1 = .error (.tooDeep limit) := by
  obtain ⟨ending, record⟩ := replayed
  cases ending with
  | ok => simp [verdict]
  | error halt => cases halt <;> simp [verdict]

theorem verdict_eq_endless_iff {replayed : Except Halt Unit × Record} :
    verdict replayed = .error .endless ↔ replayed.1 = .error .endless := by
  obtain ⟨ending, record⟩ := replayed
  cases ending with
  | ok => simp [verdict]
  | error halt => cases halt <;> simp [verdict]

end FormSchema
