import FormSchema.Proofs.Validation.Scripts

/-!
# A walk, step by step

A `Moment` of a walk is its state together with what is still to be done.  From moment to moment a
walk does one thing: it puts a token on a stack or takes one off, opens a frame or closes one, or
rejects the value.  What is to be done afterwards is a list of works, so that the steps need no
recursion and no allowance of hops.

Going from moment to moment ends as the walk ends.  Where the allowance of a walk is exhausted,
there are at least as many steps as the allowance has hops; so with steps that end, some allowance
is enough.
-/

namespace FormSchema

/-- Something that is still to be done: a script, or taking off what a script has put on. -/
inductive Work where
  | run (script : Script)
  | popSchema
  | popInstance
  | closeFrame

/-- Do one step of a work: what is to be done instead of it, or why the walk stops. -/
def Work.act (root : Schema) : Work → Walk → Except Halt (List Work) × Walk
  | .run .skip, walk => (.ok [], walk)
  | .run .reject, walk =>
      (if walk.recordFinding.hasEnough then .error .enoughFindings else .ok [], walk.recordFinding)
  | .run (.eval schema value tag), walk =>
      (.ok [.run (.ofShape schema.shape value tag)], walk)
  | .run (.follow name value), walk =>
      match walk.limits.tooDeep? walk.frames.length with
      | some limit => (.error (.tooDeep limit), walk)
      | none =>
          match root.definition? name with
          | some target =>
              (.ok [.run (.eval target value none), .closeFrame],
                (walk.recordHop name).openFrame name)
          | none => (.ok [], walk)
  | .run (.seq first next), walk => (.ok [.run first, .run next], walk)
  | .run (.inSchema token inside), walk =>
      (.ok [.run inside, .popSchema], walk.pushSchemaToken token)
  | .run (.inInstance token inside), walk =>
      (.ok [.run inside, .popInstance], walk.pushInstanceToken token)
  | .popSchema, walk => (.ok [], walk.popSchemaToken)
  | .popInstance, walk => (.ok [], walk.popInstanceToken)
  | .closeFrame, walk => (.ok [], walk.closeFrame)

/-- A work stops a walk with the last finding that is wanted, or at a reference. -/
theorem Work.halts_cases {root : Schema} {work : Work} {walk last : Walk} {halt : Halt}
    (acts : work.act root walk = (.error halt, last)) :
    (halt = .enoughFindings ∧ last = walk.recordFinding ∧
        walk.recordFinding.hasEnough = true) ∨
      ∃ limit, halt = .tooDeep limit ∧ last = walk ∧
        walk.limits.tooDeep? walk.frames.length = some limit := by
  unfold act at acts
  split at acts
  case h_2 =>
    split at acts
    · rename_i enough
      cases acts
      exact .inl ⟨rfl, rfl, enough⟩
    · cases acts
  case h_4 =>
    split at acts
    · rename_i limit tooDeep
      cases acts
      exact .inr ⟨limit, rfl, rfl, tooDeep⟩
    · split at acts <;> cases acts
  all_goals cases acts

/-- A walk between two steps. -/
structure Moment where
  works : List Work
  walk : Walk

namespace Moment

variable (root : Schema)

/-- The next moment, unless the walk ends. -/
def next : Moment → Option Moment
  | ⟨[], _⟩ => none
  | ⟨work :: rest, walk⟩ =>
      match work.act root walk with
      | (.ok more, reached) => some ⟨more ++ rest, reached⟩
      | (.error _, _) => none

/-- How the walk ends and in which state, if it ends with the next step. -/
def ending? : Moment → Option (Except Halt Unit × Walk)
  | ⟨[], walk⟩ => some (.ok (), walk)
  | ⟨work :: _, walk⟩ =>
      match work.act root walk with
      | (.ok _, _) => none
      | (.error halt, last) => some (.error halt, last)

/-- The moment so many steps later, unless the walk ends before. -/
def after : Nat → Moment → Option Moment
  | 0, moment => some moment
  | count + 1, moment => (moment.next root).bind (after count)

/-- The steps from a moment end, in this way and this state. -/
def Ends (start : Moment) (ending : Except Halt Unit) (last : Walk) : Prop :=
  ∃ count moment, after root count start = some moment ∧ moment.ending? root = some (ending, last)

section Steps

variable {root} {start moment : Moment} {work : Work} {rest : List Work} {walk last : Walk}

theorem next_of_act {more : List Work} {reached : Walk}
    (acts : work.act root walk = (.ok more, reached)) :
    next root ⟨work :: rest, walk⟩ = some ⟨more ++ rest, reached⟩ := by
  rw [next, acts]

theorem ending?_of_act {halt : Halt} (acts : work.act root walk = (.error halt, last)) :
    ending? root ⟨work :: rest, walk⟩ = some (.error halt, last) := by
  rw [ending?, acts]

theorem after_add (count more : Nat) (start : Moment) :
    after root (count + more) start = (after root count start).bind (after root more) := by
  induction count generalizing start with
  | zero => rw [Nat.zero_add, after, Option.bind_some]
  | succ count inductionHypothesis =>
      rw [Nat.succ_add, after, after, Option.bind_assoc]
      exact congrArg _ (funext inductionHypothesis)

/-- There is no next moment where the walk ends. -/
theorem next_of_ending? {outcome : Except Halt Unit × Walk}
    (ends : moment.ending? root = some outcome) : moment.next root = none := by
  obtain ⟨works, walk⟩ := moment
  cases works with
  | nil => rfl
  | cons work rest =>
      rw [ending?] at ends
      split at ends
      · cases ends
      · rename_i acts
        rw [next, acts]

/-- Behind the end there is no moment. -/
theorem after_of_ending? {count more : Nat} {outcome : Except Halt Unit × Walk}
    (leads : after root count start = some moment) (ends : moment.ending? root = some outcome)
    (later : count < more) : after root more start = none := by
  obtain ⟨extra, rfl⟩ := Nat.exists_eq_add_of_lt later
  rw [Nat.add_assoc, after_add, leads, Option.bind_some, after, next_of_ending? ends,
    Option.bind_none]

/-- The steps end in one way. -/
theorem ending_unique {count other : Nat} {outcome : Except Halt Unit × Walk} {place : Moment}
    {otherOutcome : Except Halt Unit × Walk} (leads : after root count start = some moment)
    (ends : moment.ending? root = some outcome) (otherLeads : after root other start = some place)
    (otherEnds : place.ending? root = some otherOutcome) : outcome = otherOutcome := by
  rcases Nat.lt_trichotomy count other with before | rfl | behind
  · rw [after_of_ending? leads ends before] at otherLeads
    cases otherLeads
  · cases leads.symm.trans otherLeads
    exact Option.some.inj (ends.symm.trans otherEnds)
  · rw [after_of_ending? otherLeads otherEnds behind] at leads
    cases leads

/-- Steps do not end for want of an allowance. -/
theorem ne_endless_of_ending? {ending : Except Halt Unit}
    (ends : moment.ending? root = some (ending, last)) : ending ≠ .error .endless := by
  obtain ⟨works, walk⟩ := moment
  rintro rfl
  cases works with
  | nil => cases ends
  | cons work rest =>
      rw [ending?] at ends
      split at ends
      · cases ends
      · rename_i acts
        cases ends
        obtain ⟨⟨⟩, -⟩ | ⟨_, ⟨⟩, -⟩ := Work.halts_cases acts

end Steps

end Moment

/-! ## Steps follow a walk -/

/-- The steps from a moment follow part of a walk: they come to the moment at which only the rest is
to be done, or end as the walk does.  If the allowance is exhausted, they come to the state in which
the walk is cut off, and there are at least as many steps as it has hops. -/
inductive Follows (root : Schema) (allowance : Nat) (rest : List Work) (start : Moment) :
    Except Halt Unit × Walk → Prop where
  | done {count : Nat} {reached : Walk}
      (leads : Moment.after root count start = some ⟨rest, reached⟩) :
      Follows root allowance rest start (.ok (), reached)
  | halted {count : Nat} {moment : Moment} {halt : Halt} {last : Walk}
      (leads : Moment.after root count start = some moment)
      (ends : moment.ending? root = some (.error halt, last)) :
      Follows root allowance rest start (.error halt, last)
  | endless {count : Nat} {moment : Moment}
      (leads : Moment.after root count start = some moment) (long : allowance ≤ count) :
      Follows root allowance rest start (.error .endless, moment.walk)

namespace Follows

variable {root : Schema} {allowance : Nat} {rest between : List Work} {start moment : Moment}
  {walked : Except Halt Unit × Walk}

/-- Without a step, there is nothing to do for the walk. -/
theorem here (walk : Walk) : Follows root allowance rest ⟨rest, walk⟩ (.ok (), walk) := by
  have leads : Moment.after root 0 ⟨rest, walk⟩ = some ⟨rest, walk⟩ := rfl
  exact .done leads

/-- Before the steps there may be another one, and it may be for one hop more. -/
theorem step {less : Nat} (steps : start.next root = some moment)
    (follows : Follows root less rest moment walked) (small : allowance ≤ less + 1) :
    Follows root allowance rest start walked := by
  have stepped (count : Nat) :
      Moment.after root (count + 1) start = Moment.after root count moment := by
    rw [Moment.after, steps, Option.bind_some]
  cases follows with
  | done leads => exact .done ((stepped _).trans leads)
  | halted leads ends => exact .halted ((stepped _).trans leads) ends
  | endless leads long =>
      exact .endless ((stepped _).trans leads) (Nat.le_trans small (Nat.succ_le_succ long))

/-- Steps for one part of a walk go on with the steps for the next one, unless the walk ends. -/
theorem bind {first : Walking Unit} {next : Unit → Walking Unit} {walk : Walk}
    (firstFollows : Follows root allowance between start (first.run.run walk))
    (nextFollows : ∀ reached,
      Follows root allowance rest ⟨between, reached⟩ ((next ()).run.run reached)) :
    Follows root allowance rest start ((first >>= next : Walking Unit).run.run walk) := by
  rw [Walking.run_bind]
  generalize first.run.run walk = middle at firstFollows ⊢
  cases firstFollows with
  | halted leads ends => exact .halted leads ends
  | endless leads long => exact .endless leads long
  | @done count reached leads =>
      have joined (more : Nat) : Moment.after root (count + more) start =
          Moment.after root more ⟨between, reached⟩ := by
        rw [Moment.after_add, leads, Option.bind_some]
      have later := nextFollows reached
      dsimp only
      generalize (next ()).run.run reached = walked at later ⊢
      cases later with
      | done leadsOn => exact .done ((joined _).trans leadsOn)
      | halted leadsOn ends => exact .halted ((joined _).trans leadsOn) ends
      | endless leadsOn long =>
          exact .endless ((joined _).trans leadsOn) (Nat.le_trans long (Nat.le_add_left _ _))

/-- A change of the state is a step of its own. -/
theorem change {work : Work} {change : Walk → Walk} {walk : Walk}
    (acts : work.act root walk = (.ok [], change walk)) :
    Follows root allowance rest ⟨work :: rest, walk⟩
      ((modify change : Walking Unit).run.run walk) :=
  step (Moment.next_of_act acts) (here (change walk)) (Nat.le_succ allowance)

end Follows

/-- Doing a script step by step follows the part of a walk that it stands for. -/
def Script.Followed (root : Schema) (allowance : Nat) (script : Script) : Prop :=
  ∀ rest walk, Follows root allowance rest ⟨.run script :: rest, walk⟩
    ((script.action root allowance).run.run walk)

section Scripts

variable {root : Schema} {allowance : Nat}

/-- A part of a walk between a change of the stacks and the change that undoes it. -/
theorem Follows.between {work undo : Work} {enter leave : Walk → Walk} {script : Script}
    {walk : Walk} (followed : script.Followed root allowance)
    (enters : work.act root walk = (.ok [.run script, undo], enter walk))
    (leaves : ∀ reached, undo.act root reached = (.ok [], leave reached)) (rest : List Work) :
    Follows root allowance rest ⟨work :: rest, walk⟩
      ((do modify enter; script.action root allowance; modify leave : Walking Unit).run.run
        walk) := by
  rw [Walking.run_modify_bind]
  refine .step (Moment.next_of_act enters) ?_ (Nat.le_succ allowance)
  exact (followed (undo :: rest) (enter walk)).bind fun reached => .change (leaves reached)

/-- A script is followed if the schemas that it evaluates and the references that it meets are. -/
theorem Script.followed_of_parts {script : Script}
    (evaluates : script.Evaluates fun schema =>
      ∀ value tag, (Script.eval schema value tag).Followed root allowance)
    (follows : ∀ name value, (Script.follow name value).Followed root allowance) :
    script.Followed root allowance := by
  intro rest walk
  induction script generalizing rest walk with
  | skip => exact .step (Moment.next_of_act rfl) (.here walk) (Nat.le_succ allowance)
  | reject =>
      have acts : Work.act root (.run .reject) walk =
          (if walk.recordFinding.hasEnough then .error .enoughFindings else .ok [],
            walk.recordFinding) := rfl
      rw [action, Walking.reject, Walking.run_modify_bind, Walking.run_get_bind]
      cases enough : walk.recordFinding.hasEnough with
      | false =>
          rw [enough, if_neg Bool.false_ne_true] at acts
          exact .step (Moment.next_of_act acts) (.here walk.recordFinding) (Nat.le_succ allowance)
      | true =>
          rw [enough, if_pos rfl] at acts
          have leads : Moment.after root 0 ⟨.run .reject :: rest, walk⟩ =
              some ⟨.run .reject :: rest, walk⟩ := rfl
          exact .halted leads (Moment.ending?_of_act acts)
  | eval schema value tag => exact evaluates value tag rest walk
  | follow name value => exact follows name value rest walk
  | seq first next firstFollowed nextFollowed =>
      refine .step (Moment.next_of_act rfl) ?_ (Nat.le_succ allowance)
      exact (firstFollowed evaluates.1 _ walk).bind fun reached =>
        nextFollowed evaluates.2 rest reached
  | inSchema token inside insideFollowed =>
      exact .between (insideFollowed evaluates) rfl (fun _ => rfl) rest
  | inInstance token inside insideFollowed =>
      exact .between (insideFollowed evaluates) rfl (fun _ => rfl) rest

/-- Evaluating a schema is followed if the references in it are. -/
theorem followed_eval
    (follows : ∀ name value, (Script.follow name value).Followed root allowance)
    (schema : Schema) (value : Json) (tag : Option String) :
    (Script.eval schema value tag).Followed root allowance := by
  induction schema using Schema.shapeInduction generalizing value tag with
  | step schema inductionHypothesis =>
      intro rest walk
      have isVisit : (Script.eval schema value tag).action root allowance =
          (Script.ofShape schema.shape value tag).action root allowance := by
        rw [Script.action_ofShape, Script.action, Walking.walk, Schema.fold_eq]
        rfl
      rw [isVisit]
      refine .step (Moment.next_of_act rfl) ?_ (Nat.le_succ allowance)
      refine Script.followed_of_parts ?_ follows rest walk
      exact (Script.evaluates_ofShape schema.shape value tag).mono inductionHypothesis

end Scripts

section References

variable {root : Schema}

/-- Where a reference must not be followed or leads nowhere, one step follows the walk. -/
theorem follows_resolve {allowance : Nat} {name : String} {value : Json}
    {go : Schema → Walking Unit} {rest : List Work} {walk : Walk}
    (goes : ∀ target, walk.limits.tooDeep? walk.frames.length = none →
      root.definition? name = some target →
      Follows root allowance rest ⟨.run (.follow name value) :: rest, walk⟩
        ((go target).run.run walk)) :
    Follows root allowance rest ⟨.run (.follow name value) :: rest, walk⟩
      ((Walking.resolve root name go).run.run walk) := by
  rw [Walking.run_resolve]
  cases allowed : walk.limits.tooDeep? walk.frames.length with
  | some limit =>
      have leads : Moment.after root 0 ⟨.run (.follow name value) :: rest, walk⟩ =
          some ⟨.run (.follow name value) :: rest, walk⟩ := rfl
      have acts : Work.act root (.run (.follow name value)) walk =
          (.error (.tooDeep limit), walk) := by
        rw [Work.act, allowed]
      exact .halted leads (Moment.ending?_of_act acts)
  | none =>
      cases defined : root.definition? name with
      | some target => exact goes target allowed defined
      | none =>
          have acts : Work.act root (.run (.follow name value)) walk = (.ok [], walk) := by
            rw [Work.act, allowed]
            dsimp only
            rw [defined]
          exact .step (Moment.next_of_act acts) (.here walk) (Nat.le_succ allowance)

theorem followed_follow_zero (name : String) (value : Json) :
    (Script.follow name value).Followed root 0 := by
  intro rest walk
  refine follows_resolve fun target _ _ => ?_
  have leads : Moment.after root 0 ⟨.run (.follow name value) :: rest, walk⟩ =
      some ⟨.run (.follow name value) :: rest, walk⟩ := rfl
  exact .endless leads (Nat.le_refl 0)

theorem followed_follow_succ {allowance : Nat}
    (followed : ∀ schema value tag, (Script.eval schema value tag).Followed root allowance)
    (name : String) (value : Json) : (Script.follow name value).Followed root (allowance + 1) := by
  intro rest walk
  refine follows_resolve fun target allowed defined => ?_
  have acts : Work.act root (.run (.follow name value)) walk =
      (.ok [.run (.eval target value none), .closeFrame],
        (walk.recordHop name).openFrame name) := by
    rw [Work.act, allowed]
    dsimp only
    rw [defined]
  rw [Walking.run_modify_bind, Walking.run_modify_bind]
  refine .step (Moment.next_of_act acts) ?_ (Nat.le_refl (allowance + 1))
  exact (followed target value none (.closeFrame :: rest) _).bind fun reached => .change rfl

/-- Doing any script step by step follows the part of a walk that it stands for. -/
theorem Script.followed (allowance : Nat) (script : Script) : script.Followed root allowance := by
  have follows (name : String) (value : Json) :
      (Script.follow name value).Followed root allowance := by
    induction allowance generalizing name value with
    | zero => exact followed_follow_zero name value
    | succ allowance inductionHypothesis =>
        exact followed_follow_succ (followed_eval inductionHypothesis) name value
  exact followed_of_parts (evaluates_of_forall (followed_eval follows) script) follows

/-- The steps of a script end exactly as the part of a walk that it stands for, if the allowance is
large enough. -/
theorem Script.ends_iff {script : Script} {walk last : Walk} {ending : Except Halt Unit} :
    Moment.Ends root ⟨[.run script], walk⟩ ending last ↔
      ∃ allowance, (script.action root allowance).run.run walk = (ending, last) ∧
        ending ≠ .error .endless := by
  constructor
  · rintro ⟨count, moment, leads, ends⟩
    refine ⟨count + 1, ?_, Moment.ne_endless_of_ending? ends⟩
    have follows : Follows root (count + 1) [] ⟨[.run script], walk⟩ _ :=
      script.followed (count + 1) [] walk
    generalize (script.action root (count + 1)).run.run walk = walked at follows ⊢
    cases follows with
    | done leadsToo => exact Moment.ending_unique leadsToo rfl leads ends
    | halted leadsToo endsToo => exact Moment.ending_unique leadsToo endsToo leads ends
    | endless leadsToo long =>
        rw [Moment.after_of_ending? leads ends long] at leadsToo
        cases leadsToo
  · rintro ⟨allowance, isWalked, isEnding⟩
    have follows : Follows root allowance [] ⟨[.run script], walk⟩ _ :=
      script.followed allowance [] walk
    rw [isWalked] at follows
    cases follows with
    | done leads => exact ⟨_, _, leads, rfl⟩
    | halted leads ends => exact ⟨_, _, leads, ends⟩
    | endless => exact absurd rfl isEnding

/-- Where a part of a walk is cut off for want of an allowance, the steps of its script come to the
state in which it is, and there are at least as many of them as the allowance has hops. -/
theorem Script.exists_after_of_endless {script : Script} {allowance : Nat} {walk last : Walk}
    (isCut : (script.action root allowance).run.run walk = (.error .endless, last)) :
    ∃ count moment, allowance ≤ count ∧
      Moment.after root count ⟨[.run script], walk⟩ = some moment ∧ moment.walk = last := by
  have follows : Follows root allowance [] ⟨[.run script], walk⟩ _ :=
    script.followed allowance [] walk
  rw [isCut] at follows
  cases follows with
  | halted leads ends => exact absurd rfl (Moment.ne_endless_of_ending? ends)
  | endless leads long => exact ⟨_, _, long, leads, rfl⟩

end References

end FormSchema
