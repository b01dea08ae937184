import FormSchema.Proofs.Validation.Stepping

/-!
# What a walk keeps

A walk that goes into a part of a schema and is not stopped there comes back with the stacks that it
had.  Meanwhile what it had stays below what it adds, so that every finding belongs to the part that
the walk went into, and neither limit is exceeded.

All of this is one invariant of moments, `Moment.Keeps`, that every step preserves.  The stacks are
described by what is still to be done: taking off the tokens and frames that are to be taken off
leads back to where the walk went in.

A walk that is stopped keeps the tokens and frames that it has put on.  That is the state after a
halt as it is modelled here.  A program that returns through its calls takes the frames off again,
one after the other; `Work.unwind` takes that way back step by step, and the bounds on the number of
frames are proved all along it.
-/

namespace FormSchema

/-! ## Limits -/

namespace Walk

/-- There are fewer findings than wanted. -/
def Few (walk : Walk) : Prop :=
  ∀ limit, walk.limits.findings = some limit → walk.found.length < limit

/-- There are no more frames than may be open. -/
def Shallow (walk : Walk) : Prop :=
  ∀ limit, walk.limits.depth = some limit → walk.frames.length ≤ limit

variable {walk reached : Walk}

theorem Few.of_same (few : walk.Few) (limits : reached.limits = walk.limits)
    (found : reached.found = walk.found) : reached.Few := by
  rwa [Few, limits, found]

theorem Shallow.of_le (shallow : walk.Shallow) (limits : reached.limits = walk.limits)
    (frames : reached.frames.length ≤ walk.frames.length) : reached.Shallow := by
  intro limit isLimit
  rw [limits] at isLimit
  exact Nat.le_trans frames (shallow limit isLimit)

/-- Unless there are enough findings, there are few. -/
theorem few_of_hasEnough (notEnough : walk.hasEnough = false) : walk.Few := by
  intro limit isLimit
  rw [hasEnough, isLimit] at notEnough
  exact Nat.not_le.mp (of_decide_eq_false notEnough)

/-- There are enough findings exactly if one more than a few are as many as wanted. -/
theorem findings_of_hasEnough (few : walk.Few) (enough : walk.recordFinding.hasEnough = true) :
    walk.limits.findings = some walk.recordFinding.found.length := by
  rw [hasEnough] at enough
  have sameLimits : walk.recordFinding.limits = walk.limits := rfl
  rw [sameLimits] at enough
  cases isLimit : walk.limits.findings with
  | none =>
      rw [isLimit] at enough
      cases enough
  | some limit =>
      rw [isLimit] at enough
      have reached : limit ≤ walk.found.length + 1 := of_decide_eq_true enough
      exact congrArg some (Nat.le_antisymm reached (few limit isLimit))

/-- Where a reference may be followed, there is room for a frame. -/
theorem Shallow.openFrame (allowed : walk.limits.tooDeep? walk.frames.length = none)
    (name : String) : (walk.openFrame name).Shallow := by
  intro limit isLimit
  have sameLimits : (walk.openFrame name).limits = walk.limits := rfl
  rw [sameLimits] at isLimit
  rw [Limits.tooDeep?, isLimit] at allowed
  have below : walk.frames.length < limit := by simpa using allowed
  exact below

end Walk

namespace Walk

theorem limits_pushSchemaToken (token : String) (walk : Walk) :
    (walk.pushSchemaToken token).limits = walk.limits := by
  obtain ⟨limits, instanceTokens, frames, found, hops⟩ := walk
  cases frames <;> rfl

theorem found_pushSchemaToken (token : String) (walk : Walk) :
    (walk.pushSchemaToken token).found = walk.found := by
  obtain ⟨limits, instanceTokens, frames, found, hops⟩ := walk
  cases frames <;> rfl

theorem length_frames_pushSchemaToken (token : String) (walk : Walk) :
    (walk.pushSchemaToken token).frames.length = walk.frames.length := by
  obtain ⟨limits, instanceTokens, frames, found, hops⟩ := walk
  cases frames <;> rfl

end Walk

/-! ## Stacks -/

/-- The frame begins at a definition. -/
def BeginsAtDefinition (root : Schema) (frame : List String) : Prop :=
  ∃ name target, root.definition? name = some target ∧ [name, "definitions"] <:+ frame

/-- The stacks of a walk are those that it had at the entry with something on top: tokens on the
place in the value and on the innermost frame, and frames of definitions. -/
structure Inside (root : Schema) (entry walk : Walk) : Prop where
  tokens : entry.instanceTokens <:+ walk.instanceTokens
  frames : ∃ inner tokens,
    walk.frames = inner ++ (tokens ++ entry.frames.headD []) :: entry.frames.tail ∧
      ∀ frame ∈ inner, BeginsAtDefinition root frame

/-- The finding belongs to the part of a walk behind the entry: its place in the value is in the
one at the entry, and its place in the schema is behind the one at the entry, or in a definition. -/
def Finding.Belongs (root : Schema) (entry : Walk) (rejection : Finding) : Prop :=
  entry.instanceTokens.reverse <+: rejection.instancePath ∧
    (entry.place <+: rejection.schemaPath ∨
      ∃ name target rest, root.definition? name = some target ∧
        rejection.schemaPath = "definitions" :: name :: rest)

section Stacks

variable {root : Schema} {entry walk : Walk}

namespace Inside

theorem refl (framed : entry.frames ≠ [])
    (instanceTokens : walk.instanceTokens = entry.instanceTokens)
    (frames : walk.frames = entry.frames) : Inside root entry walk := by
  obtain ⟨frame, outer, isFrames⟩ := List.exists_cons_of_ne_nil framed
  refine ⟨instanceTokens ▸ List.suffix_refl _, [], [], ?_, List.forall_mem_nil _⟩
  rw [frames, isFrames]
  rfl

theorem one_le_frames (inside : Inside root entry walk) : 1 ≤ walk.frames.length := by
  obtain ⟨inner, tokens, isFrames, -⟩ := inside.frames
  rw [isFrames, List.length_append, List.length_cons]
  omega

theorem pushInstanceToken (inside : Inside root entry walk) (token : String) :
    Inside root entry (walk.pushInstanceToken token) :=
  ⟨inside.tokens.trans (List.suffix_cons token _), inside.frames⟩

theorem pushSchemaToken (inside : Inside root entry walk) (token : String) :
    Inside root entry (walk.pushSchemaToken token) := by
  obtain ⟨limits, instanceTokens, frames, found, hops⟩ := walk
  obtain ⟨inner, tokens, rfl, areDefinitions⟩ := inside.frames
  cases inner with
  | nil => exact ⟨inside.tokens, [], token :: tokens, rfl, List.forall_mem_nil _⟩
  | cons frame inner =>
      refine ⟨inside.tokens, (token :: frame) :: inner, tokens, rfl, ?_⟩
      obtain ⟨⟨name, target, defined, begins⟩, others⟩ := List.forall_mem_cons.mp areDefinitions
      refine List.forall_mem_cons.mpr ⟨⟨name, target, defined, ?_⟩, others⟩
      exact begins.trans (List.suffix_cons token frame)

theorem openFrame (inside : Inside root entry walk) {name : String} {target : Schema}
    (defined : root.definition? name = some target) :
    Inside root entry (walk.openFrame name) := by
  obtain ⟨inner, tokens, isFrames, areDefinitions⟩ := inside.frames
  refine ⟨inside.tokens, [name, "definitions"] :: inner, tokens, ?_, ?_⟩
  · rw [Walk.openFrame, isFrames, List.cons_append]
  · exact List.forall_mem_cons.mpr ⟨⟨name, target, defined, List.suffix_refl _⟩, areDefinitions⟩

theorem withRecord (inside : Inside root entry walk) (record : Record) :
    Inside root entry (walk.withRecord record) :=
  ⟨inside.tokens, inside.frames⟩

/-- What is rejected inside belongs there. -/
theorem belongs_findingHere (inside : Inside root entry walk) :
    walk.findingHere.Belongs root entry := by
  refine ⟨List.reverse_prefix.mpr inside.tokens, ?_⟩
  obtain ⟨inner, tokens, isFrames, areDefinitions⟩ := inside.frames
  rw [Walk.findingHere, isFrames]
  cases inner with
  | nil =>
      refine .inl (List.reverse_prefix.mpr ?_)
      exact List.suffix_append tokens _
  | cons frame inner =>
      obtain ⟨name, target, defined, before, rfl⟩ := areDefinitions frame List.mem_cons_self
      refine .inr ⟨name, target, before.reverse, defined, ?_⟩
      simp

end Inside

/-! ## The way back -/

/-- Take off the stacks what a work takes off in the end. -/
def Work.undo : Work → Walk → Walk
  | run _, walk => walk
  | popSchema, walk => walk.popSchemaToken
  | popInstance, walk => walk.popInstanceToken
  | closeFrame, walk => walk.closeFrame

theorem Work.limits_undo (work : Work) (walk : Walk) : (work.undo walk).limits = walk.limits := by
  obtain ⟨limits, instanceTokens, frames, found, hops⟩ := walk
  cases work with
  | run | popInstance | closeFrame => rfl
  | popSchema => cases frames <;> rfl

theorem Work.found_undo (work : Work) (walk : Walk) : (work.undo walk).found = walk.found := by
  obtain ⟨limits, instanceTokens, frames, found, hops⟩ := walk
  cases work with
  | run | popInstance | closeFrame => rfl
  | popSchema => cases frames <;> rfl

theorem Work.length_frames_undo_le (work : Work) (walk : Walk) :
    (work.undo walk).frames.length ≤ walk.frames.length := by
  obtain ⟨limits, instanceTokens, frames, found, hops⟩ := walk
  cases work with
  | run | popInstance => exact Nat.le_refl _
  | popSchema => cases frames <;> exact Nat.le_refl _
  | closeFrame =>
      rw [undo, Walk.closeFrame, List.length_tail]
      exact Nat.sub_le _ _

theorem Work.undo_withRecord (work : Work) (walk : Walk) (record : Record) :
    work.undo (walk.withRecord record) = (work.undo walk).withRecord record := by
  obtain ⟨limits, instanceTokens, frames, found, hops⟩ := walk
  cases work with
  | run | popInstance | closeFrame => rfl
  | popSchema => cases frames <;> rfl

/-- Taking off what is to be taken off leads back to the entry, and stays inside all the way. -/
def Returns (root : Schema) (entry : Walk) : List Work → Walk → Prop
  | [], walk => walk.instanceTokens = entry.instanceTokens ∧ walk.frames = entry.frames
  | work :: rest, walk => Inside root entry walk ∧ Returns root entry rest (work.undo walk)

namespace Returns

variable {works : List Work}

theorem inside (framed : entry.frames ≠ []) (returns : Returns root entry works walk) :
    Inside root entry walk := by
  cases works with
  | nil => exact .refl framed returns.1 returns.2
  | cons work rest => exact returns.1

theorem withRecord (returns : Returns root entry works walk) (record : Record) :
    Returns root entry works (walk.withRecord record) := by
  induction works generalizing walk with
  | nil => exact returns
  | cons work rest inductionHypothesis =>
      refine ⟨returns.1.withRecord record, ?_⟩
      rw [Work.undo_withRecord]
      exact inductionHypothesis returns.2

end Returns

end Stacks

/-! ## What every step preserves -/

/-- What a walk has found since the entry belongs to the part behind the entry. -/
def Grown (root : Schema) (entry walk : Walk) : Prop :=
  ∃ added, walk.found.reverse = entry.found.reverse ++ added ∧
    ∀ rejection ∈ added, rejection.Belongs root entry

/-- What holds at every moment of a walk behind the entry. -/
structure Moment.Keeps (root : Schema) (entry : Walk) (moment : Moment) : Prop where
  limits : moment.walk.limits = entry.limits
  returns : Returns root entry moment.works moment.walk
  shallow : moment.walk.Shallow
  few : moment.walk.Few
  grown : Grown root entry moment.walk

section Steps

variable {root : Schema} {entry walk : Walk} {work : Work} {rest : List Work}

theorem Grown.recordFinding (grown : Grown root entry walk) (inside : Inside root entry walk) :
    Grown root entry walk.recordFinding := by
  obtain ⟨added, isFound, belong⟩ := grown
  refine ⟨added ++ [walk.findingHere], ?_, ?_⟩
  · rw [Walk.recordFinding, List.reverse_cons, isFound, List.append_assoc]
  · refine List.forall_mem_append.mpr ⟨belong, ?_⟩
    exact List.forall_mem_singleton.mpr inside.belongs_findingHere

namespace Moment

/-- A step that only changes the stacks, and opens no frame. -/
theorem Keeps.of_stacks (keeps : Keeps root entry ⟨work :: rest, walk⟩) {works : List Work}
    {reached : Walk} (returns : Returns root entry works reached)
    (limits : reached.limits = walk.limits) (found : reached.found = walk.found)
    (frames : reached.frames.length ≤ walk.frames.length) : Keeps root entry ⟨works, reached⟩ where
  limits := limits.trans keeps.limits
  returns := returns
  shallow := keeps.shallow.of_le limits frames
  few := keeps.few.of_same limits found
  grown := by
    rw [Grown, found]
    exact keeps.grown

/-- A step that takes something off the stacks. -/
theorem Keeps.undo (keeps : Keeps root entry ⟨work :: rest, walk⟩) :
    Keeps root entry ⟨rest, work.undo walk⟩ :=
  keeps.of_stacks keeps.returns.2 (work.limits_undo walk) (work.found_undo walk)
    (work.length_frames_undo_le walk)

/-- A finding that is not the last one that is wanted. -/
theorem Keeps.recordFinding {script : Script} (keeps : Keeps root entry ⟨.run script :: rest, walk⟩)
    (notEnough : walk.recordFinding.hasEnough = false) :
    Keeps root entry ⟨rest, walk.recordFinding⟩ where
  limits := keeps.limits
  returns := keeps.returns.2.withRecord ⟨walk.findingHere :: walk.found, walk.hops⟩
  shallow := keeps.shallow
  few := Walk.few_of_hasEnough notEnough
  grown := keeps.grown.recordFinding keeps.returns.1

/-- A step into a definition that may be entered. -/
theorem Keeps.openFrame {script : Script} (keeps : Keeps root entry ⟨.run script :: rest, walk⟩)
    {name : String} {target : Schema} (value : Json)
    (allowed : walk.limits.tooDeep? walk.frames.length = none)
    (defined : root.definition? name = some target) :
    Keeps root entry ⟨.run (.eval target value none) :: .closeFrame :: rest,
      (walk.recordHop name).openFrame name⟩ := by
  let hopped : Record := ⟨walk.found, ⟨name, walk.frames.length⟩ :: walk.hops⟩
  have opened : Inside root entry ((walk.withRecord hopped).openFrame name) :=
    (keeps.returns.1.withRecord hopped).openFrame defined
  exact {
    limits := keeps.limits
    returns := ⟨opened, opened, keeps.returns.2.withRecord hopped⟩
    shallow := Walk.Shallow.openFrame allowed name
    few := keeps.few
    grown := keeps.grown }

/-- A step down in the schema. -/
theorem Keeps.pushSchemaToken {script : Script}
    (keeps : Keeps root entry ⟨.run script :: rest, walk⟩) (token : String) (next : Script) :
    Keeps root entry ⟨.run next :: .popSchema :: rest, walk.pushSchemaToken token⟩ := by
  have pushed := keeps.returns.1.pushSchemaToken token
  have popped : Work.popSchema.undo (walk.pushSchemaToken token) = walk :=
    Walk.popSchemaToken_pushSchemaToken token walk
  have back : Returns root entry rest (Work.popSchema.undo (walk.pushSchemaToken token)) := by
    rw [popped]
    exact keeps.returns.2
  exact keeps.of_stacks ⟨pushed, pushed, back⟩ (walk.limits_pushSchemaToken token)
    (walk.found_pushSchemaToken token) (Nat.le_of_eq (walk.length_frames_pushSchemaToken token))

/-- A step preserves what holds, one case for each kind of work. -/
theorem Keeps.act (keeps : Keeps root entry ⟨work :: rest, walk⟩) {more : List Work}
    {reached : Walk} (acts : work.act root walk = (.ok more, reached)) :
    Keeps root entry ⟨more ++ rest, reached⟩ := by
  obtain ⟨inside, back⟩ := keeps.returns
  cases work with
  | popSchema | popInstance | closeFrame =>
      cases acts
      exact keeps.undo
  | run script =>
      cases script with
      | skip =>
          cases acts
          exact keeps.undo
      | reject =>
          cases enough : walk.recordFinding.hasEnough with
          | true =>
              simp only [Work.act, enough, if_true] at acts
              cases acts
          | false =>
              simp only [Work.act, enough, Bool.false_eq_true, if_false] at acts
              cases acts
              exact keeps.recordFinding enough
      | eval schema value tag =>
          cases acts
          exact keeps.of_stacks ⟨inside, back⟩ rfl rfl (Nat.le_refl _)
      | follow name value =>
          simp only [Work.act] at acts
          split at acts
          · cases acts
          · rename_i allowed
            split at acts
            · rename_i target defined
              cases acts
              exact keeps.openFrame value allowed defined
            · cases acts
              exact keeps.undo
      | seq first next =>
          cases acts
          exact keeps.of_stacks ⟨inside, inside, back⟩ rfl rfl (Nat.le_refl _)
      | inSchema token next =>
          cases acts
          exact keeps.pushSchemaToken token next
      | inInstance token next =>
          cases acts
          have pushed := inside.pushInstanceToken token
          exact keeps.of_stacks ⟨pushed, pushed, back⟩ rfl rfl (Nat.le_refl _)

theorem Keeps.next {moment later : Moment} (keeps : Keeps root entry moment)
    (steps : moment.next root = some later) : Keeps root entry later := by
  obtain ⟨works, walk⟩ := moment
  cases works with
  | nil => cases steps
  | cons work rest =>
      rw [Moment.next] at steps
      split at steps
      · rename_i acts
        cases steps
        exact keeps.act acts
      · cases steps

/-- What holds at the entry holds however many steps later. -/
theorem Keeps.after {start moment : Moment} (keeps : Keeps root entry start) {count : Nat}
    (leads : Moment.after root count start = some moment) : Keeps root entry moment := by
  induction count generalizing start with
  | zero =>
      cases leads
      exact keeps
  | succ count inductionHypothesis =>
      obtain ⟨later, steps, leads⟩ := Option.bind_eq_some_iff.mp leads
      exact inductionHypothesis (keeps.next steps) leads

end Moment

end Steps

/-! ## The way back from a moment -/

section Unwinding

variable {root : Schema} {entry walk : Walk} {works : List Work}

/-- Take off the stacks what the first of the works take off in the end. -/
def Work.unwind (works : List Work) (walk : Walk) (undone : Nat) : Walk :=
  (works.take undone).foldl (fun walk work => work.undo walk) walk

/-- On the way back, every state is inside. -/
theorem Returns.unwind (framed : entry.frames ≠ []) (returns : Returns root entry works walk)
    (undone : Nat) : Inside root entry (Work.unwind works walk undone) := by
  induction undone generalizing works walk with
  | zero => exact returns.inside framed
  | succ undone inductionHypothesis =>
      cases works with
      | nil => exact returns.inside framed
      | cons work rest => exact inductionHypothesis returns.2

/-- On the way back, no frame is opened. -/
theorem Work.length_frames_unwind_le (works : List Work) (walk : Walk) (undone : Nat) :
    (unwind works walk undone).frames.length ≤ walk.frames.length := by
  induction undone generalizing works walk with
  | zero => exact Nat.le_refl _
  | succ undone inductionHypothesis =>
      cases works with
      | nil => exact Nat.le_refl _
      | cons work rest =>
          calc
            (unwind rest (work.undo walk) undone).frames.length
              ≤ (work.undo walk).frames.length := inductionHypothesis rest (work.undo walk)
            _ ≤ walk.frames.length := work.length_frames_undo_le walk

/-- At a moment and on the way back from it, there is a frame and there are not too many. -/
theorem Moment.Keeps.unwind {moment : Moment} (keeps : moment.Keeps root entry)
    (framed : entry.frames ≠ []) (undone : Nat) :
    1 ≤ (Work.unwind moment.works moment.walk undone).frames.length ∧
      ∀ limit, entry.limits.depth = some limit →
        (Work.unwind moment.works moment.walk undone).frames.length ≤ limit := by
  constructor
  · exact (keeps.returns.unwind framed undone).one_le_frames
  · intro limit isLimit
    rw [← keeps.limits] at isLimit
    calc
      (Work.unwind moment.works moment.walk undone).frames.length
        ≤ moment.walk.frames.length := Work.length_frames_unwind_le _ _ _
      _ ≤ limit := keeps.shallow limit isLimit

end Unwinding

/-! ## Endings -/

/-- How a part of a walk behind an entry leaves the walk. -/
structure Kept (root : Schema) (entry : Walk) (ending : Except Halt Unit) (last : Walk) : Prop where
  limits : last.limits = entry.limits
  /-- What has been found is found behind what had been found before. -/
  grown : Grown root entry last
  returned : ending = .ok () →
    last.instanceTokens = entry.instanceTokens ∧ last.frames = entry.frames ∧ last.Few
  enough : ending = .error .enoughFindings → entry.limits.findings = some last.found.length
  tooDeep : ∀ limit, ending = .error (.tooDeep limit) →
    entry.limits.depth = some limit ∧ last.Few

/-- Where the steps end, they leave the walk as they should. -/
theorem Moment.Keeps.kept {root : Schema} {entry : Walk} {moment : Moment}
    (keeps : moment.Keeps root entry) {ending : Except Halt Unit} {last : Walk}
    (ends : moment.ending? root = some (ending, last)) : Kept root entry ending last := by
  obtain ⟨works, walk⟩ := moment
  cases works with
  | nil =>
      cases ends
      exact {
        limits := keeps.limits
        grown := keeps.grown
        returned := fun _ => ⟨keeps.returns.1, keeps.returns.2, keeps.few⟩
        enough := fun same => by cases same
        tooDeep := fun _ same => by cases same }
  | cons work rest =>
      rw [Moment.ending?] at ends
      split at ends
      · cases ends
      · rename_i acts
        cases ends
        obtain ⟨rfl, rfl, enough⟩ | ⟨limit, rfl, rfl, tooDeep⟩ := Work.halts_cases acts
        · exact {
            limits := keeps.limits
            grown := keeps.grown.recordFinding keeps.returns.1
            returned := fun same => by cases same
            enough := fun _ => keeps.limits ▸ Walk.findings_of_hasEnough keeps.few enough
            tooDeep := fun _ same => by cases same }
        · have isLimit : entry.limits.depth = some limit :=
            keeps.limits ▸ (Option.filter_eq_some_iff.mp tooDeep).1
          exact {
            limits := keeps.limits
            grown := keeps.grown
            returned := fun same => by cases same
            enough := fun same => by cases same
            tooDeep := fun _ same => by
              cases same
              exact ⟨isLimit, keeps.few⟩ }

/-! ## Calls -/

/-- The ways to go into a part of a schema with a value. -/
inductive Call where
  | eval (schema : Schema) (value : Json) (tag : Option String)
  /-- Evaluate a schema for each item of a list. -/
  | elements (item : Schema) (value : Json)
  /-- Evaluate the branch that the tag of an object chooses. -/
  | discriminator (rule : Discriminator Schema) (value : Json)
  /-- Evaluate a schema for a member of an object. -/
  | member (name : String) (schema : Schema) (value : Json)

namespace Call

/-- The part of a walk that a call is. -/
def action (root : Schema) (allowance : Nat) : Call → Walking Unit
  | eval schema value tag => Walking.walk root allowance schema value tag
  | elements item value =>
      match value with
      | .array values => Walking.eachItem (Walking.walk root allowance item) 0 values
      | _ => Walking.reject
  | discriminator rule value =>
      match value with
      | .object values =>
          Walking.branches ⟨rule.tag, Shape.mapFields (Walking.walk root allowance) rule.mapping⟩
            values
      | _ => Walking.reject
  | member name schema value =>
      Walking.atInstance name (Walking.walk root allowance schema value none)

def script : Call → Script
  | eval schema value tag => .eval schema value tag
  | elements item value => .elements item value
  | discriminator rule value => .discriminator rule value
  | member name schema value => .inInstance name (.eval schema value none)

/-- The moment at which a call is to be done, and nothing else. -/
def start (call : Call) (entry : Walk) : Moment :=
  ⟨[.run call.script], entry⟩

theorem action_script (call : Call) (root : Schema) (allowance : Nat) :
    call.script.action root allowance = call.action root allowance := by
  cases call with
  | eval | member => rfl
  | elements item value => exact Script.action_elements root allowance item value
  | discriminator rule value => exact Script.action_discriminator root allowance rule value

end Call

theorem Call.keeps_start (root : Schema) (call : Call) {entry : Walk} (framed : entry.frames ≠ [])
    (few : entry.Few) (shallow : entry.Shallow) : (call.start entry).Keeps root entry where
  limits := rfl
  returns := ⟨.refl framed rfl rfl, rfl, rfl⟩
  shallow := shallow
  few := few
  grown := ⟨[], (List.append_nil _).symm, List.forall_mem_nil _⟩

/-- A call from a walk with a frame and within its limits leaves the walk as it was, with more
findings, or stops it exactly at a limit.  At every moment of the call, and on the way back from
there, there is a frame and there are not too many.  The moments are those of the walk: they end
exactly as it ends, and come to wherever it is cut off for want of an allowance. -/
theorem call_keeps_walk (root : Schema) (call : Call) (entry : Walk) (framed : entry.frames ≠ [])
    (few : entry.Few) (shallow : entry.Shallow) :
    (∀ count moment, Moment.after root count (call.start entry) = some moment → ∀ undone,
      1 ≤ (Work.unwind moment.works moment.walk undone).frames.length ∧
        ∀ limit, entry.limits.depth = some limit →
          (Work.unwind moment.works moment.walk undone).frames.length ≤ limit) ∧
    (∀ ending last, (call.start entry).Ends root ending last ↔
      ∃ allowance, (call.action root allowance).run.run entry = (ending, last) ∧
        ending ≠ .error .endless) ∧
    (∀ allowance last, (call.action root allowance).run.run entry = (.error .endless, last) →
      ∃ count moment, allowance ≤ count ∧
        Moment.after root count (call.start entry) = some moment ∧ moment.walk = last) ∧
    ∀ allowance ending last, (call.action root allowance).run.run entry = (ending, last) →
      ending ≠ .error .endless → Kept root entry ending last := by
  have keeps : (call.start entry).Keeps root entry := call.keeps_start root framed few shallow
  have endsAsRun (ending : Except Halt Unit) (last : Walk) :
      (call.start entry).Ends root ending last ↔
        ∃ allowance, (call.action root allowance).run.run entry = (ending, last) ∧
          ending ≠ .error .endless := by
    simp only [Call.start, Script.ends_iff, Call.action_script]
  refine ⟨?_, endsAsRun, ?_, ?_⟩
  · intro count moment leads undone
    exact (keeps.after leads).unwind framed undone
  · intro allowance last isCut
    rw [← call.action_script root allowance] at isCut
    exact Script.exists_after_of_endless isCut
  · intro allowance ending last isRun isEnding
    obtain ⟨count, moment, leads, ends⟩ := (endsAsRun ending last).mpr ⟨allowance, isRun, isEnding⟩
    exact (keeps.after leads).kept ends

/-- A list whose first item is no text: with room for two findings the call comes back, and with
room for one it stops with the token and the frames that it has put on. -/
theorem call_keeps_walk_list_of_texts :
    let root : Schema := { definitions := some [("text", { type := some .string })] }
    let call : Call := .elements { ref := some "text" } (.array [.null, .string "x"])
    let before : Finding := ⟨["name"], ["properties", "name", "type"]⟩
    let entry (wanted : Nat) : Walk :=
      { limits := ⟨some 2, some wanted⟩
        instanceTokens := ["list"]
        frames := [["elements", "list", "properties"]]
        found := [before] }
    let rejection : Finding := ⟨["list", "0"], ["definitions", "text", "type"]⟩
    let back : Walk :=
      { entry 3 with
        found := [rejection, before]
        hops := [⟨"text", 1⟩, ⟨"text", 1⟩] }
    let stopped : Walk :=
      { limits := ⟨some 2, some 2⟩
        instanceTokens := ["0", "list"]
        frames := [["type", "text", "definitions"], ["elements", "list", "properties"]]
        found := [rejection, before]
        hops := [⟨"text", 1⟩] }
    (∀ wanted ∈ [2, 3], ∀ count moment,
      Moment.after root count (call.start (entry wanted)) = some moment →
        1 ≤ (Work.unwind moment.works moment.walk 0).frames.length) ∧
    Kept root (entry 3) (.ok ()) back ∧
    Kept root (entry 2) (.error .enoughFindings) stopped := by
  intro root call before entry rejection back stopped
  have framed (wanted : Nat) : (entry wanted).frames ≠ [] := List.cons_ne_nil _ _
  have shallow (wanted : Nat) : (entry wanted).Shallow := by
    intro limit isLimit
    cases isLimit
    exact Nat.le_succ 1
  have few (wanted : Nat) (room : 1 < wanted) : (entry wanted).Few := by
    intro limit isLimit
    cases isLimit
    exact room
  have two := call_keeps_walk root call (entry 2) (framed 2) (few 2 (by decide)) (shallow 2)
  have three := call_keeps_walk root call (entry 3) (framed 3) (few 3 (by decide)) (shallow 3)
  refine ⟨?_, ?_, ?_⟩
  · intro wanted isWanted count moment leads
    rcases List.mem_pair.mp isWanted with rfl | rfl
    · exact (two.1 count moment leads 0).1
    · exact (three.1 count moment leads 0).1
  · have isRun : (call.action root 1).run.run (entry 3) = (.ok (), back) := rfl
    apply three.2.2.2 1 _ _ isRun
    intro same
    cases same
  · have isRun : (call.action root 1).run.run (entry 2) = (.error .enoughFindings, stopped) := rfl
    apply two.2.2.2 1 _ _ isRun
    intro same
    cases same

end FormSchema
