import FormSchema.Primitive
import FormSchema.Proofs.Json.Matching

/-!
# Equality of values up to order

Two values are equivalent when they are equal up to the order of the members of objects, at
every depth.  Numbers are compared by kind and by value, so that the two zeros are equal.

What is known of a value without regard to the order of members is the same for equivalent
values: its height, and which primitive types it has.
-/

namespace FormSchema

/-- Equality of numbers. -/
def Number.equivalent : Number → Number → Bool
  | .integer left, .integer right => left = right
  | .double left, .double right => left.sameNumber right
  | _, _ => false

namespace Json

mutual

/-- Are two values equal up to the order of members? -/
def equivalent : Json → Json → Bool
  | .null, .null => true
  | .bool left, .bool right => left = right
  | .number left, .number right => left.equivalent right
  | .string left, .string right => left = right
  | .array left, .array right => itemsEquivalent left right
  | .object left, .object right => left.length = right.length && membersWithin left right
  | _, _ => false

/-- Are the items equal up to the order of members, one by one? -/
def itemsEquivalent : List Json → List Json → Bool
  | [], [] => true
  | left :: rest, right :: others => left.equivalent right && itemsEquivalent rest others
  | _, _ => false

/-- Does each of the members have an equivalent one of the same name among the others? -/
def membersWithin : List (String × Json) → List (String × Json) → Bool
  | [], _ => true
  | (name, value) :: rest, others =>
      (match others.lookup name with
        | some other => value.equivalent other
        | none => false) && membersWithin rest others

end

/-- Two values are of one kind, with related values inside. -/
inductive Alike (relation : Json → Json → Prop) : Json → Json → Prop where
  | null : Alike relation .null .null
  | bool (truth : Bool) : Alike relation (.bool truth) (.bool truth)
  | number {left right : Number} (same : left.equivalent right = true) :
      Alike relation (.number left) (.number right)
  | string (text : String) : Alike relation (.string text) (.string text)
  | array {left right : List Json} (items : List.Forall₂ relation left right) :
      Alike relation (.array left) (.array right)
  | object {left right : List (String × Json)}
      (members : Members.Correspond relation left right) :
      Alike relation (.object left) (.object right)

/-- A value without repeated names corresponds to those that it is equivalent to. -/
structure Corresponds (value other : Json) : Prop where
  isProper : value.proper = true
  same : value.equivalent other = true

theorem forall₂_of_itemsEquivalent {left right : List Json}
    (same : itemsEquivalent left right = true) :
    List.Forall₂ (fun value other => value.equivalent other = true) left right := by
  induction left generalizing right with
  | nil =>
      cases right with
      | nil => exact .nil
      | cons other others => cases same
  | cons value rest inductionHypothesis =>
      cases right with
      | nil => cases same
      | cons other others =>
          rw [itemsEquivalent, Bool.and_eq_true] at same
          exact .cons same.1 (inductionHypothesis same.2)

theorem membersWithin_eq (left right : List (String × Json)) :
    membersWithin left right = Members.within equivalent left right := by
  induction left with
  | nil => rfl
  | cons member rest inductionHypothesis =>
      obtain ⟨name, value⟩ := member
      rw [membersWithin, inductionHypothesis, Members.within, Members.within, List.all_cons]
      cases right.lookup name <;> rfl

/-- Values that correspond are of one kind, and what is inside corresponds. -/
theorem Corresponds.alike {value other : Json} (corresponds : Corresponds value other) :
    Alike Corresponds value other := by
  obtain ⟨isProper, same⟩ := corresponds
  cases value with
  | null =>
      cases other <;> try cases same
      exact .null
  | bool truth =>
      cases other <;> try cases same
      rw [equivalent, decide_eq_true_iff] at same
      rw [same]
      exact .bool _
  | number left =>
      cases other <;> try cases same
      exact .number same
  | string text =>
      cases other <;> try cases same
      rw [equivalent, decide_eq_true_iff] at same
      rw [same]
      exact .string _
  | array left =>
      cases other <;> try cases same
      have related := (List.forall₂_and_left _ _).mpr
        ⟨proper_array_iff.mp isProper, forall₂_of_itemsEquivalent same⟩
      exact .array (related.imp fun _ _ ⟨itemProper, sameItem⟩ => ⟨itemProper, sameItem⟩)
  | object left =>
      cases other <;> try cases same
      rw [equivalent, Bool.and_eq_true, decide_eq_true_iff, membersWithin_eq] at same
      obtain ⟨distinct, membersProper⟩ := proper_object_iff.mp isProper
      have correspond := Members.correspond_of_within same.1 distinct same.2
      exact .object (correspond.imp fun name inner _ isMember sameInner =>
        ⟨membersProper name inner isMember, sameInner⟩)

/-! ## What does not depend on the order of members -/

theorem heightOfItems_eq {left right : List Json}
    (related : List.Forall₂ (fun value other => value.height = other.height) left right) :
    heightOfItems left = heightOfItems right := by
  induction related with
  | nil => rfl
  | cons sameHeight _ inductionHypothesis =>
      rw [heightOfItems, heightOfItems, sameHeight, inductionHypothesis]

theorem heightOfMembers_perm {left right : List (String × Json)} (sameMembers : left.Perm right) :
    heightOfMembers left = heightOfMembers right := by
  induction sameMembers with
  | nil => rfl
  | cons member _ inductionHypothesis => rw [heightOfMembers, heightOfMembers, inductionHypothesis]
  | swap first second rest =>
      simp only [heightOfMembers]
      omega
  | trans _ _ first second => exact first.trans second

theorem heightOfMembers_eq {left right : List (String × Json)}
    (matched : Matched (Members.Related fun value other => value.height = other.height)
      left right) :
    heightOfMembers left = heightOfMembers right := by
  obtain ⟨ordered, related, sameMembers⟩ := matched
  rw [← heightOfMembers_perm sameMembers]
  clear sameMembers
  induction related with
  | nil => rfl
  | cons isRelated _ inductionHypothesis =>
      rw [heightOfMembers, heightOfMembers, isRelated.2, inductionHypothesis]

/-- Values that correspond have the same height. -/
theorem Corresponds.height_eq {value other : Json} (corresponds : Corresponds value other) :
    value.height = other.height := by
  induction value using insideInduction generalizing other with
  | step value insideItem insideMember =>
      cases corresponds.alike with
      | null => rfl
      | bool truth => rfl
      | number same => rfl
      | string text => rfl
      | @array left right items =>
          have inside := (List.forall₂_and_left (p := (· ∈ left)) left right).mpr
            ⟨fun _ isItem => isItem, items⟩
          rw [height, height]
          exact heightOfItems_eq (inside.imp fun item _ ⟨isItem, sameItem⟩ =>
            insideItem _ item rfl isItem sameItem)
      | object members =>
          rw [height, height]
          exact heightOfMembers_eq (members.imp fun name inner _ isMember sameInner =>
            insideMember _ name inner rfl isMember sameInner).matched

end Json

/-! ## Primitive types -/

/-- Both zeros are the integer zero. -/
theorem Binary64.toInt?_of_isZero {value : Binary64} (isZero : value.isZero = true) :
    value.toInt? = some 0 := by
  have noSignificand : value.significand = 0 := of_decide_eq_true isZero
  have noNumerator : value.toFraction.1 = 0 := by
    rw [toFraction, noSignificand]
    split
    · exact Nat.zero_mul _
    · rfl
  simp [toInt?, noNumerator]

/-- Equal numbers are equal to the same integer, if to any. -/
theorem Number.toInt?_eq_of_equivalent {left right : Number}
    (same : left.equivalent right = true) :
    left.toDouble?.bind Binary64.toInt? = right.toDouble?.bind Binary64.toInt? := by
  cases left with
  | integer left =>
      cases right <;> try cases same
      rw [equivalent, decide_eq_true_iff] at same
      rw [same]
  | double left =>
      cases right <;> try cases same
      rw [equivalent, Binary64.sameNumber, Bool.or_eq_true, Bool.and_eq_true,
        decide_eq_true_iff] at same
      rcases same with ⟨leftZero, rightZero⟩ | rfl
      · exact (Binary64.toInt?_of_isZero leftZero).trans
          (Binary64.toInt?_of_isZero rightZero).symm
      · rfl

/-- Values of one kind have the same primitive types. -/
theorem Primitive.accepts_eq {relation : Json → Json → Prop} {value other : Json}
    (alike : Json.Alike relation value other) (primitive : Primitive) :
    primitive.accepts value = primitive.accepts other := by
  cases alike with
  | null => rfl
  | bool truth => rfl
  | string text => rfl
  | array items => cases primitive <;> rfl
  | object members => cases primitive <;> rfl
  | number same =>
      have sameInteger := Number.toInt?_eq_of_equivalent same
      cases primitive <;> simp only [accepts, bounds?, isIntegerWithin, sameInteger]

end FormSchema
