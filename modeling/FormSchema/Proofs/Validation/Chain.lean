import Mathlib.Data.Finset.Card
import FormSchema.Proofs.Validation.Parting

/-!
# Chains of references on one value

A reference may lead to another on the same value, and so on.  The definitions can name
only so many references, so a chain with more hops than there are definitions comes back
to one of them and has no end.  Then it uses up any allowance.  A shorter chain ends with
a schema that goes into the value.
-/

namespace FormSchema

variable {root : Schema}

/-- At least so many hops follow each other on one value, from the given reference on. -/
def Chain (root : Schema) (value : Json) : Nat → Option String → Prop
  | 0, _ => True
  | _ + 1, none => False
  | length + 1, some name =>
      ∃ target, root.definition? name = some target ∧ Chain root value length (target.lead value)

/-- The reference that comes next on the same value. -/
def nextReference (root : Schema) (value : Json) (reference : Option String) : Option String :=
  reference.bind fun name => (root.definition? name).bind fun target => target.lead value

theorem chain_iff_iterate {value : Json} {length : Nat} {reference : Option String} :
    Chain root value length reference ↔
      ∀ position < length, ∃ name, (nextReference root value)^[position] reference = some name ∧
        (root.definition? name).isSome := by
  induction length generalizing reference with
  | zero => simp [Chain]
  | succ length inductionHypothesis =>
      constructor
      · intro chain position inside
        cases reference with
        | none => exact chain.elim
        | some name =>
            obtain ⟨target, defined, rest⟩ := chain
            cases position with
            | zero => exact ⟨name, rfl, by rw [defined]; rfl⟩
            | succ position =>
                rw [Function.iterate_succ_apply]
                have next : nextReference root value (some name) = target.lead value := by
                  rw [nextReference, Option.bind_some, defined, Option.bind_some]
                rw [next]
                exact inductionHypothesis.mp rest position (by omega)
      · intro defined
        obtain ⟨name, isFirst, isDefined⟩ := defined 0 (Nat.succ_pos length)
        rw [Function.iterate_zero_apply] at isFirst
        subst isFirst
        obtain ⟨target, definedAs⟩ := Option.isSome_iff_exists.mp isDefined
        refine ⟨target, definedAs, inductionHypothesis.mpr fun position inside => ?_⟩
        have later := defined (position + 1) (by omega)
        rw [Function.iterate_succ_apply, nextReference, Option.bind_some, definedAs,
          Option.bind_some] at later
        exact later

/-- A chain with more hops than there are definitions comes back to one of them, and then
has no end. -/
theorem chain_of_long {value : Json} {reference : Option String}
    (long : Chain root value ((root.definitions.getD []).length + 1) reference) (length : Nat) :
    Chain root value length reference := by
  let names := (Members.names (root.definitions.getD [])).map some
  let next := nextReference root value
  rw [chain_iff_iterate] at long ⊢
  have amongNames (position : Nat) (inside : position < (root.definitions.getD []).length + 1) :
      next^[position] reference ∈ names.toFinset := by
    obtain ⟨name, isName, isDefined⟩ := long position inside
    obtain ⟨target, defined⟩ := Option.isSome_iff_exists.mp isDefined
    obtain ⟨definitions, hasDefinitions, found⟩ := Option.bind_eq_some_iff.mp defined
    have isField := Members.mem_of_lookup found
    have isMember : name ∈ Members.names (root.definitions.getD []) := by
      rw [hasDefinitions]
      exact List.mem_map_of_mem (f := Prod.fst) isField
    rw [List.mem_toFinset, show next^[position] reference = some name from isName]
    exact List.mem_map_of_mem isMember
  have fewer : names.toFinset.card <
      (Finset.range ((root.definitions.getD []).length + 1)).card := by
    have bounded := List.toFinset_card_le names
    have counted : names.length = (root.definitions.getD []).length := by
      rw [List.length_map, Members.names, List.length_map]
    rw [Finset.card_range]
    omega
  obtain ⟨first, isFirst, second, isSecond, differ, same⟩ :=
    Finset.exists_ne_map_eq_of_card_lt_of_maps_to fewer
      (f := fun position => next^[position] reference)
      (fun position inside => amongNames position (Finset.mem_range.mp inside))
  obtain ⟨early, late, before, bounded, repeats⟩ : ∃ early late, early < late ∧
      late < (root.definitions.getD []).length + 1 ∧
      next^[early] reference = next^[late] reference := by
    rcases Nat.lt_or_gt_of_ne differ with before | before
    · exact ⟨first, second, before, Finset.mem_range.mp isSecond, same⟩
    · exact ⟨second, first, before, Finset.mem_range.mp isFirst, same.symm⟩
  intro position _
  -- Every position past the repetition shows what an earlier position shows.
  induction position using Nat.strong_induction_on with
  | _ position inductionHypothesis =>
      by_cases reached : position < late
      · exact long position (by omega)
      · have shifted : next^[position] reference = next^[position - late + early] reference := by
          calc
            next^[position] reference = next^[position - late + late] reference := by
              rw [Nat.sub_add_cancel (Nat.le_of_not_lt reached)]
            _ = next^[position - late + early] reference := by
              rw [Function.iterate_add_apply, ← repeats, ← Function.iterate_add_apply]
        rw [show (nextReference root value)^[position] reference = _ from shifted]
        exact inductionHypothesis _ (by omega) (by omega)

/-- A reference whose chain has no end uses up any allowance without a finding. -/
theorem spins_of_chain {value : Json} {name : String}
    (endless : ∀ length, Chain root value length (some name)) (allowance : Nat) :
    Note.Spins (traceReference root allowance name value) := by
  induction allowance generalizing name with
  | zero =>
      obtain ⟨target, defined, -⟩ := endless 1
      refine ⟨[.reference 0], [], ?_, traceReference_zero defined value⟩
      intro note isNote
      rw [List.mem_singleton.mp isNote]
      trivial
  | succ allowance inductionHypothesis =>
      obtain ⟨target, defined, second⟩ := endless 2
      cases leads : target.lead value with
      | none =>
          rw [leads] at second
          exact second.elim
      | some next =>
          have continues (length : Nat) : Chain root value length (some next) := by
            obtain ⟨same, definedAs, rest⟩ := endless (length + 1)
            cases defined.symm.trans definedAs
            rwa [leads] at rest
          obtain ⟨silent, rest, allSilent, spins⟩ :=
            Note.spins_stable.deeper (inductionHypothesis continues)
          refine ⟨.reference 0 :: .hop name 0 :: silent, rest, ?_, ?_⟩
          · intro note isNote
            rcases List.mem_cons.mp isNote with rfl | isNote
            · trivial
            · rcases List.mem_cons.mp isNote with rfl | isNote
              · trivial
              · exact allSilent note isNote
          · rw [traceReference_succ defined, trace_of_lead leads, spins]
            rfl

/-- Where the chain on a value ends, traces depend on what happens inside the value. -/
theorem traceReference_parts_of_chain_ends {value : Json} {base : Nat}
    (inside : ∀ allowance other name innerValue, base ≤ allowance → base ≤ other →
      innerValue.height < value.height →
      PartsAt Note.Spins Note.Spins (traceReference root allowance name innerValue)
        (traceReference root other name innerValue))
    {length : Nat} {name : String} (ends : ¬ Chain root value (length + 1) (some name))
    {allowance other : Nat} (enough : base + length ≤ allowance)
    (otherEnough : base + length ≤ other) :
    PartsAt Note.Spins Note.Spins (traceReference root allowance name value)
      (traceReference root other name value) := by
  have congruence := PartsAt.congruence Note.spins_stable Note.spins_stable
  induction length generalizing name allowance other with
  | zero =>
      cases defined : root.definition? name with
      | none =>
          rw [traceReference_of_undefined defined, traceReference_of_undefined defined]
          exact .inl rfl
      | some target => exact absurd ⟨target, defined, trivial⟩ ends
  | succ length inductionHypothesis =>
      cases defined : root.definition? name with
      | none =>
          rw [traceReference_of_undefined defined, traceReference_of_undefined defined]
          exact .inl rfl
      | some target =>
          obtain ⟨allowance, rfl⟩ : ∃ less, allowance = less + 1 :=
            ⟨allowance - 1, by omega⟩
          obtain ⟨other, rfl⟩ : ∃ less, other = less + 1 := ⟨other - 1, by omega⟩
          rw [traceReference_succ defined, traceReference_succ defined]
          apply congruence.append (.inl (Eq.refl [.reference 0, .hop name 0]))
          apply PartsAt.deeper Note.spins_stable Note.spins_stable
          apply trace_related congruence
          · intro next leads
            refine inductionHypothesis (fun chain => ends ⟨target, defined, ?_⟩) (by omega)
              (by omega)
            rwa [leads]
          · intro next innerValue smaller
            exact inside allowance other next innerValue (by omega) (by omega) smaller

end FormSchema
