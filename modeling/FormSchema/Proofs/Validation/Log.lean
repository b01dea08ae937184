import Mathlib.Data.List.Chain
import FormSchema.Proofs.Validation.FindingLimit
import FormSchema.Proofs.Validation.Reordering

/-!
# The log of a validation

A trace is well nested: a reference is refused, dangling, or followed by a hop to a definition,
and what is noted on the definition stands right behind the hop, counted one deeper.  `WellNested`
is the grammar of such notes, and everything about the hops of a validation comes from it by
induction: they name definitions, they go down one frame at a time, and none of them is made
where the depth limit forbids its reference.

A replay stops somewhere in the trace, so what it logs is the beginning of what the whole trace
has.  The last event tells how the replay has ended, which is also what its result comes from.
-/

namespace FormSchema

/-! ## Well-nested notes -/

/-- Notes as validation makes them, relative to the frame that they are made in. -/
inductive Note.WellNested (root : Schema) : List Note → Prop where
  | nil : WellNested root []
  | finding {rest : List Note} (rejection : Finding) (later : WellNested root rest) :
      WellNested root (.finding rejection :: rest)
  /-- A reference that leads nowhere. -/
  | dangling {rest : List Note} (later : WellNested root rest) :
      WellNested root (.reference 0 :: rest)
  | exhausted {rest : List Note} (later : WellNested root rest) :
      WellNested root (.reference 0 :: .exhausted :: rest)
  /-- A reference, the hop to its definition, and what is noted on the definition. -/
  | followed {name : String} {target : Schema} {inner rest : List Note}
      (defined : root.definition? name = some target) (inside : WellNested root inner)
      (later : WellNested root rest) :
      WellNested root (.reference 0 :: .hop name 0 :: (inner.map Note.deeper ++ rest))

namespace Note.WellNested

variable {root : Schema} {notes others : List Note}

theorem append (nested : WellNested root notes) (later : WellNested root others) :
    WellNested root (notes ++ others) := by
  induction nested with
  | nil => exact later
  | finding rejection _ inductionHypothesis => exact .finding rejection inductionHypothesis
  | dangling _ inductionHypothesis => exact .dangling inductionHypothesis
  | exhausted _ inductionHypothesis => exact .exhausted inductionHypothesis
  | followed defined inside _ _ inductionHypothesis =>
      simp only [List.cons_append, List.append_assoc]
      exact .followed defined inside inductionHypothesis

theorem under (tokens : List String) (nested : WellNested root notes) :
    WellNested root (notes.map (Note.under tokens)) := by
  induction nested with
  | nil => exact .nil
  | finding rejection _ inductionHypothesis => exact .finding _ inductionHypothesis
  | dangling _ inductionHypothesis => exact .dangling inductionHypothesis
  | exhausted _ inductionHypothesis => exact .exhausted inductionHypothesis
  | @followed name target inner rest defined _ _ insideMoved laterMoved =>
      have commutes : (inner.map Note.deeper).map (Note.under tokens) =
          (inner.map (Note.under tokens)).map Note.deeper := by
        rw [List.map_map, List.map_map]
        apply List.map_congr_left
        intro note _
        cases note <;> rfl
      simp only [List.map_cons, List.map_append, Note.under_reference, Note.under_hop, commutes]
      exact .followed defined insideMoved laterMoved

theorem flatMap {α : Type} {items : List α} {noted : α → List Note}
    (nested : ∀ item ∈ items, WellNested root (noted item)) :
    WellNested root (items.flatMap noted) := by
  induction items with
  | nil => exact .nil
  | cons item rest inductionHypothesis =>
      rcases List.forall_mem_cons.mp nested with ⟨first, later⟩
      rw [List.flatMap_cons]
      exact first.append (inductionHypothesis later)

end Note.WellNested

/-- Every trace is well nested. -/
theorem trace_wellNested (root : Schema) (allowance : Nat) (schema : Schema) (value : Json)
    (place : List String) (tag : Option String) :
    Note.WellNested root (trace root allowance schema value place tag) := by
  induction allowance, schema, value, place, tag using recursionInduction root with
  | step allowance schema value place tag inside behind =>
      rw [trace_eq]
      apply Note.WellNested.flatMap
      intro task isTask
      cases task with
      | reject suffix place => exact .finding _ .nil
      | visit inner innerValue suffix innerPlace innerTag =>
          exact (inside _ _ _ _ _ isTask).under suffix
      | follow name =>
          rw [traceTask_follow]
          cases defined : root.definition? name with
          | none =>
              rw [traceReference_of_undefined defined]
              exact .dangling .nil
          | some target =>
              cases allowance with
              | zero =>
                  rw [traceReference_zero defined]
                  exact .exhausted .nil
              | succ less =>
                  have nested := behind name target less (Shape.follow_mem_expand_iff.mp isTask)
                    defined rfl
                  rw [traceReference_succ defined, ← List.append_nil (List.map Note.deeper _)]
                  exact .followed defined nested .nil

/-! ## Hops -/

/-- The hop that is noted, if it is one, with so many frames open. -/
def Note.hop? (frames : Nat) : Note → Option Hop
  | hop definition pending => some ⟨definition, frames + pending⟩
  | _ => none

/-- The hops among notes that are made with so many frames open. -/
def hopsFrom (frames : Nat) (notes : List Note) : List Hop :=
  notes.filterMap (Note.hop? frames)

theorem hopsFrom_append (frames : Nat) (notes others : List Note) :
    hopsFrom frames (notes ++ others) = hopsFrom frames notes ++ hopsFrom frames others :=
  List.filterMap_append

theorem hopsFrom_deeper (frames : Nat) (notes : List Note) :
    hopsFrom frames (notes.map Note.deeper) = hopsFrom (frames + 1) notes := by
  rw [hopsFrom, hopsFrom, List.filterMap_map]
  apply List.filterMap_congr
  intro note _
  cases note <;> simp [Note.hop?, Note.deeper, Nat.add_assoc, Nat.add_comm 1]

/-- Hops begin at a depth, do not come out above it, and go down one level at a time. -/
structure Hop.NestFrom (depth : Nat) (hops : List Hop) : Prop where
  first : ∀ hop ∈ hops.head?, hop.depth = depth
  least : ∀ hop ∈ hops, depth ≤ hop.depth
  steps : hops.IsChain fun hop next => next.depth ≤ hop.depth + 1

namespace Hop.NestFrom

variable {depth : Nat} {hops others : List Hop}

theorem nil (depth : Nat) : NestFrom depth [] where
  first := nofun
  least := nofun
  steps := .nil

theorem append (nested : NestFrom depth hops) (later : NestFrom depth others) :
    NestFrom depth (hops ++ others) where
  first := by
    intro hop isFirst
    rw [List.head?_append] at isFirst
    cases hops with
    | nil => exact later.first hop isFirst
    | cons first rest => exact nested.first hop isFirst
  least := by
    intro hop isHop
    rcases List.mem_append.mp isHop with isEarlier | isLater
    · exact nested.least hop isEarlier
    · exact later.least hop isLater
  steps := by
    rw [List.isChain_append]
    refine ⟨nested.steps, later.steps, ?_⟩
    intro last isLast next isNext
    have bound := nested.least last (List.mem_of_mem_getLast? isLast)
    rw [later.first next isNext]
    omega

/-- A hop may stand in front of those that are one deeper. -/
theorem cons (definition : String) (nested : NestFrom (depth + 1) hops) :
    NestFrom depth (⟨definition, depth⟩ :: hops) where
  first := by
    rintro hop ⟨⟩
    rfl
  least := by
    intro hop isHop
    rcases List.mem_cons.mp isHop with rfl | isLater
    · exact Nat.le_refl depth
    · exact Nat.le_of_succ_le (nested.least hop isLater)
  steps := by
    apply nested.steps.cons
    intro next isNext
    rw [nested.first next isNext]

theorem shorter (nested : NestFrom depth hops) (isPrefix : others <+: hops) :
    NestFrom depth others where
  first := by
    rcases isPrefix with ⟨rest, rfl⟩
    intro hop isFirst
    apply nested.first hop
    rw [List.head?_append, Option.mem_def.mp isFirst]
    rfl
  least := fun hop isHop => nested.least hop (isPrefix.subset isHop)
  steps := nested.steps.prefix isPrefix

end Hop.NestFrom

section WellNested

variable {root : Schema} {notes : List Note}

/-- The hops of well-nested notes go down one frame at a time. -/
theorem Note.WellNested.nestFrom (nested : WellNested root notes) (frames : Nat) :
    Hop.NestFrom frames (hopsFrom frames notes) := by
  induction nested generalizing frames with
  | nil => exact .nil frames
  | finding _ _ inductionHypothesis => exact inductionHypothesis frames
  | dangling _ inductionHypothesis => exact inductionHypothesis frames
  | exhausted _ inductionHypothesis => exact inductionHypothesis frames
  | @followed name _ inner rest _ _ _ insideNests laterNests =>
      have split : hopsFrom frames (.reference 0 :: .hop name 0 ::
          (inner.map Note.deeper ++ rest)) =
            (⟨name, frames⟩ :: hopsFrom (frames + 1) inner) ++ hopsFrom frames rest := by
        rw [List.cons_append, ← hopsFrom_deeper, ← hopsFrom_append]
        rfl
      rw [split]
      exact ((insideNests (frames + 1)).cons name).append (laterNests frames)

/-- The hops of well-nested notes name definitions. -/
theorem Note.WellNested.defined (nested : WellNested root notes) {frames : Nat} :
    ∀ hop ∈ hopsFrom frames notes, ∃ target, root.definition? hop.definition = some target := by
  induction nested generalizing frames with
  | nil => exact nofun
  | finding _ _ inductionHypothesis => exact inductionHypothesis
  | dangling _ inductionHypothesis => exact inductionHypothesis
  | exhausted _ inductionHypothesis => exact inductionHypothesis
  | @followed name target inner rest defined _ _ insideDefined laterDefined =>
      intro hop isHop
      rcases List.mem_cons.mp isHop with rfl | isFurther
      · exact ⟨target, defined⟩
      · rw [← hopsFrom, hopsFrom_append, hopsFrom_deeper] at isFurther
        rcases List.mem_append.mp isFurther with isInside | isLater
        · exact insideDefined hop isInside
        · exact laterDefined hop isLater

end WellNested

/-! ## What a replay logs -/

section Replay

variable {limits : Limits}

/-- A replay logs the first ones of the hops that are noted. -/
theorem replay_hops_prefix (frames : Nat) (notes : List Note) (record : Record) :
    (replay limits [] frames notes record).2.hops.reverse <+:
      record.hops.reverse ++ hopsFrom frames notes := by
  induction notes generalizing record with
  | nil => exact List.prefix_append _ _
  | cons note rest inductionHypothesis =>
      cases note with
      | exhausted => exact List.prefix_append _ _
      | finding rejection =>
          rw [replay_finding]
          split
          · exact List.prefix_append _ _
          · exact inductionHypothesis (record.withFinding rejection)
      | reference pending =>
          simp only [replay]
          split
          · exact List.prefix_append _ _
          · exact inductionHypothesis record
      | hop definition pending =>
          have grown : record.hops.reverse ++ hopsFrom frames (.hop definition pending :: rest) =
              (record.withHop ⟨definition, frames + pending⟩).hops.reverse ++
                hopsFrom frames rest := by
            simp [Record.withHop, hopsFrom, Note.hop?]
          rw [grown]
          exact inductionHypothesis (record.withHop ⟨definition, frames + pending⟩)

/-- A replay that goes to the end logs all hops that are noted. -/
theorem replay_hops_of_ok {frames : Nat} {notes : List Note} {record : Record}
    (ends : (replay limits [] frames notes record).1 = .ok ()) :
    (replay limits [] frames notes record).2.hops.reverse =
      record.hops.reverse ++ hopsFrom frames notes := by
  induction notes generalizing record with
  | nil => simp [replay, hopsFrom]
  | cons note rest inductionHypothesis =>
      cases note with
      | exhausted => cases ends
      | finding rejection =>
          rw [replay_finding] at ends ⊢
          split at ends
          · cases ends
          · rename_i notEnough
            rw [if_neg notEnough]
            exact inductionHypothesis ends
      | reference pending =>
          simp only [replay] at ends ⊢
          split at ends
          · cases ends
          · exact inductionHypothesis ends
      | hop definition pending =>
          have later := @inductionHypothesis (record.withHop _) ends
          simpa [replay, Record.withHop, hopsFrom, Note.hop?] using later

/-- No hop is logged where the depth limit forbids its reference. -/
theorem depth_lt_of_replay {root : Schema} {notes : List Note}
    (nested : Note.WellNested root notes) {bound : Nat} (bounded : limits.depth = some bound)
    {frames : Nat} {record : Record} {hop : Hop}
    (isHop : hop ∈ (replay limits [] frames notes record).2.hops) :
    hop ∈ record.hops ∨ hop.depth < bound := by
  induction nested generalizing frames record with
  | nil => exact .inl isHop
  | finding rejection _ inductionHypothesis =>
      rw [replay_finding] at isHop
      split at isHop
      · exact .inl isHop
      · exact @inductionHypothesis frames (record.withFinding rejection) isHop
  | dangling _ inductionHypothesis =>
      simp only [replay] at isHop
      split at isHop
      · exact .inl isHop
      · exact inductionHypothesis isHop
  | exhausted _ _ =>
      simp only [replay] at isHop
      split at isHop
      · exact .inl isHop
      · exact .inl isHop
  | @followed name target inner rest _ _ _ insideBounded laterBounded =>
      simp only [replay, Nat.add_zero] at isHop
      split at isHop
      · exact .inl isHop
      · rename_i allowed
        have below : frames < bound := by
          simpa [Limits.tooDeep?, bounded] using allowed
        -- The hop itself is within the bound, so what comes behind the definition matters.
        have ofInside (isHop : hop ∈ (replay limits [] frames (inner.map Note.deeper)
            (record.withHop ⟨name, frames⟩)).2.hops) : hop ∈ record.hops ∨ hop.depth < bound := by
          rw [← replay_succ_frames] at isHop
          rcases insideBounded isHop with isEarlier | isBelow
          · rcases List.mem_cons.mp isEarlier with rfl | isBefore
            · exact .inr below
            · exact .inl isBefore
          · exact .inr isBelow
        rw [replay_append] at isHop
        generalize replay limits [] frames (inner.map Note.deeper)
          (record.withHop ⟨name, frames⟩) = middle at isHop ofInside
        rcases middle with ⟨ending, reached⟩
        cases ending with
        | error halt => exact ofInside isHop
        | ok =>
            rcases laterBounded isHop with isEarlier | isBelow
            · exact ofInside isEarlier
            · exact .inr isBelow

/-- A replay with a limit of findings stops for having enough when it has as many as wanted, and
otherwise it has fewer. -/
theorem replay_found_length {wanted : Nat} (limited : limits.findings = some wanted)
    (frames : Nat) (notes : List Note) {record : Record} (fewer : record.found.length < wanted) :
    ((replay limits [] frames notes record).1 = .error .enoughFindings ∧
        (replay limits [] frames notes record).2.found.length = wanted) ∨
      ((replay limits [] frames notes record).1 ≠ .error .enoughFindings ∧
        (replay limits [] frames notes record).2.found.length < wanted) := by
  induction notes generalizing record with
  | nil => exact .inr ⟨nofun, fewer⟩
  | cons note rest inductionHypothesis =>
      cases note with
      | exhausted => exact .inr ⟨nofun, fewer⟩
      | hop definition pending => exact @inductionHypothesis (record.withHop _) fewer
      | reference pending =>
          simp only [replay]
          split
          · refine .inr ⟨?_, fewer⟩
            intro same
            cases same
          · exact inductionHypothesis fewer
      | finding rejection =>
          rw [replay_finding]
          split
          · rename_i enough
            have reached : wanted ≤ record.found.length + 1 := by
              simpa [Limits.enough, limited] using enough
            exact .inl ⟨rfl, Nat.le_antisymm fewer reached⟩
          · rename_i notEnough
            have still : record.found.length + 1 < wanted := by
              simpa [Limits.enough, limited] using notEnough
            exact @inductionHypothesis (record.withFinding rejection) still

end Replay

/-! ## The events of a validation -/

/-- The hop that an event reports, if it does. -/
def Event.hop? : Event → Option Hop
  | followingRef hop => some hop
  | _ => none

/-- The hops that a validation reports, in order. -/
def Validation.hops (validation : Validation) : List Hop :=
  validation.events.filterMap Event.hop?

/-- The last event of a validation that has recorded some findings, and which result it goes
with. -/
inductive Event.Concludes (limits : Limits) (recorded : List Finding) :
    Except Abort (List Finding) → Event → Prop where
  /-- Fewer findings than the limit, if there is one, and all of them are the result. -/
  | finished (few : ∀ wanted, limits.findings = some wanted → recorded.length < wanted) :
      Concludes limits recorded (.ok recorded) (.validationFinished recorded.length)
  /-- As many findings as the limit. -/
  | stopped {wanted : Nat} (limited : limits.findings = some wanted)
      (enough : recorded.length = wanted) :
      Concludes limits recorded (.ok recorded) (.validationStopped wanted)
  /-- Fewer findings than the limit, but no frame for a reference. -/
  | aborted {bound : Nat} (bounded : limits.depth = some bound)
      (few : ∀ wanted, limits.findings = some wanted → recorded.length < wanted) :
      Concludes limits recorded (.error (.tooDeep bound)) (.validationAborted (.tooDeep bound))

theorem limits_findings_pos {options : Options} {wanted : Nat}
    (limited : options.limits.findings = some wanted) : 0 < wanted := by
  simpa using (Option.filter_eq_some_iff.mp limited).2

section Log

variable {options : Options} {schema : Schema} {value : Json}

theorem lastEvent_hop? (replayed : Except Halt Unit × Record) :
    (lastEvent replayed).hop? = none := by
  rcases replayed with ⟨ending, record⟩
  cases ending with
  | ok => rfl
  | error halt => cases halt <;> rfl

/-- A validation reports the hops that its replay logs. -/
theorem validate_hops (options : Options) (schema : Schema) (value : Json) :
    (validate options schema value).hops =
      (outcome options.limits (hopAllowance schema value options.limits) schema
        value).2.hops.reverse := by
  have ofHops (hops : List Hop) :
      (hops.map Event.followingRef).filterMap Event.hop? = hops := by
    rw [List.filterMap_map]
    exact List.filterMap_some
  rw [Validation.hops, validate_eq_conclude, conclude, List.cons_append,
    List.filterMap_cons_none rfl, List.filterMap_append, ofHops,
    List.filterMap_cons_none (lastEvent_hop? _), List.filterMap_nil, List.append_nil]

/-- The last event goes with the result. -/
theorem concludes_lastEvent
    (returns : (validate options schema value).result ≠ .error .endless) :
    Event.Concludes options.limits (recordedFindings options schema value)
      (validate options schema value).result
      (lastEvent (outcome options.limits (hopAllowance schema value options.limits) schema
        value)) := by
  have counted (wanted : Nat) (limited : options.limits.findings = some wanted) :=
    @replay_found_length _ _ limited 1
      (trace schema (hopAllowance schema value options.limits) schema value [] none) {}
      (limits_findings_pos limited)
  have unlimited (unbounded : options.limits.findings = none) :=
    @replay_ne_enoughFindings _ [] 1 unbounded
      (trace schema (hopAllowance schema value options.limits) schema value [] none) {}
  have bounded {bound : Nat} := @reference_of_tooDeep options.limits [] 1
    (trace schema (hopAllowance schema value options.limits) schema value [] none) {} bound
  rw [validate_result] at returns ⊢
  rw [recordedFindings_eq]
  rw [← outcome] at counted unlimited bounded
  generalize outcome options.limits (hopAllowance schema value options.limits) schema value =
    replayed at returns counted unlimited bounded ⊢
  rcases replayed with ⟨ending, record⟩
  have few (other : ending ≠ .error .enoughFindings) (wanted : Nat)
      (limited : options.limits.findings = some wanted) :
      record.found.reverse.length < wanted := by
    rw [List.length_reverse]
    rcases counted wanted limited with ⟨enough, -⟩ | ⟨-, fewer⟩
    · exact absurd enough other
    · exact fewer
  cases ending with
  | ok => exact .finished (few (by simp))
  | error halt =>
      cases halt with
      | endless => exact absurd rfl returns
      | tooDeep bound => exact .aborted (bounded rfl).1 (few (by simp))
      | enoughFindings =>
          cases limited : options.limits.findings with
          | none => exact absurd rfl (unlimited limited)
          | some wanted =>
              rcases counted wanted limited with ⟨-, enough⟩ | ⟨other, -⟩
              · rw [← List.length_reverse] at enough
                rw [lastEvent, enough]
                exact .stopped limited enough
              · exact absurd rfl other

/-- With limits a validation reports the first ones of the hops that it reports without. -/
theorem hops_prefix_of_limits
    (returns : (validate options schema value).result ≠ .error .endless)
    (ends : (validate {} schema value).result ≠ .error .endless) :
    (validate options schema value).hops <+: (validate {} schema value).hops := by
  rw [validate_result, Ne, verdict_eq_endless_iff] at returns ends
  rw [validate_hops, validate_hops]
  -- Both replay the trace with the larger of the two allowances.
  let allowance := max (hopAllowance schema value options.limits)
    (hopAllowance schema value (Options.limits {}))
  have same := outcome_of_le (Nat.le_max_left _ _ : _ ≤ allowance) returns
  have sameEnds := outcome_of_le (Nat.le_max_right _ _ : _ ≤ allowance) ends
  rw [← sameEnds] at ends
  rw [← same, ← sameEnds]
  have endsOk : (outcome (Options.limits {}) allowance schema value).1 = .ok () := by
    cases ending : (outcome (Options.limits {}) allowance schema value).1 with
    | ok => rfl
    | error halt =>
        cases halt with
        | endless => exact absurd ending ends
        | enoughFindings => exact absurd ending (replay_ne_enoughFindings rfl _ _)
        | tooDeep bound => cases (reference_of_tooDeep ending).1
  have whole := replay_hops_of_ok endsOk
  rw [← outcome] at whole
  rw [whole]
  exact replay_hops_prefix 1 _ {}

end Log

/-- The log of a validation is faithful.  If a validation returns, then it reports its start with
the form of the schema, then hops, and then one last event, which goes with the result and with
the findings that were recorded.  The hops name definitions, they are made within the depth limit,
and they begin at the first level and go down one level at a time.  If a validation without limits
has an end, then its hops begin with those that are reported with limits. -/
theorem validate_log_faithful (options : Options) (schema : Schema) (value : Json)
    (returns : (validate options schema value).result ≠ .error .endless) :
    (∃ last, Event.Concludes options.limits (recordedFindings options schema value)
        (validate options schema value).result last ∧
      (validate options schema value).events = .validationStarted schema.form ::
        ((validate options schema value).hops.map .followingRef ++ [last])) ∧
    (∀ hop ∈ (validate options schema value).hops,
      (∃ target, schema.definition? hop.definition = some target) ∧
      ∀ bound, options.limits.depth = some bound → hop.depth < bound) ∧
    Hop.NestFrom 1 (validate options schema value).hops ∧
    ((validate {} schema value).result ≠ .error .endless →
      (validate options schema value).hops <+: (validate {} schema value).hops) := by
  have nested := trace_wellNested schema (hopAllowance schema value options.limits) schema value []
    none
  have isPrefix : (validate options schema value).hops <+: hopsFrom 1
      (trace schema (hopAllowance schema value options.limits) schema value [] none) := by
    rw [validate_hops]
    exact replay_hops_prefix 1 _ {}
  refine ⟨⟨_, concludes_lastEvent returns, ?_⟩, ?_, (nested.nestFrom 1).shorter isPrefix,
    hops_prefix_of_limits returns⟩
  · rw [validate_hops, validate_eq_conclude]
    rfl
  · intro hop isHop
    refine ⟨nested.defined hop (isPrefix.subset isHop), ?_⟩
    intro bound bounded
    rw [validate_hops, List.mem_reverse] at isHop
    rcases depth_lt_of_replay nested bounded isHop with isNothing | isBelow
    · cases isNothing
    · exact isBelow

/-- A schema of two properties whose references lead through one definition to another. -/
def relayedSchema : Schema where
  definitions := some [("relay", { ref := some "text" }), ("text", { type := some .string })]
  properties := some [("first", { ref := some "relay" }), ("second", { ref := some "relay" })]

/-- A validation that stops at its first finding reports the hops up to there. -/
theorem validate_log_faithful_stopped :
    (validate { maxDepth := some 3, maxErrors := some 1 } relayedSchema
      (.object [("first", .null), ("second", .null)])).events =
        [.validationStarted .properties, .followingRef ⟨"relay", 1⟩, .followingRef ⟨"text", 2⟩,
          .validationStopped 1] ∧
    Hop.NestFrom 1 [⟨"relay", 1⟩, ⟨"text", 2⟩] ∧
    [⟨"relay", 1⟩, ⟨"text", 2⟩] <+:
      (validate {} relayedSchema (.object [("first", .null), ("second", .null)])).hops := by
  have returns : (validate { maxDepth := some 3, maxErrors := some 1 } relayedSchema
      (.object [("first", .null), ("second", .null)])).result =
        .ok [⟨["first"], ["definitions", "text", "type"]⟩] := rfl
  have ends : (validate {} relayedSchema
      (.object [("first", .null), ("second", .null)])).result =
        .ok [⟨["first"], ["definitions", "text", "type"]⟩,
          ⟨["second"], ["definitions", "text", "type"]⟩] := rfl
  have faithful := validate_log_faithful { maxDepth := some 3, maxErrors := some 1 } relayedSchema
    (.object [("first", .null), ("second", .null)]) (by rw [returns]; simp)
  exact ⟨rfl, faithful.2.2.1, faithful.2.2.2 (by rw [ends]; simp)⟩

end FormSchema
