import Mathlib.Data.List.Nodup
import Mathlib.Data.List.Perm.Subperm
import FormSchema.Proofs.Json.Proper

/-!
# Lists that match up to order

Two lists match up to order if the entries of one are related, one by one, to those of the
other in some order.  What is done with every entry, and put together without regard to order,
then agrees up to order as well.

Members of an object match if they have the same names and related values.  When no name is
repeated, that is the same as finding related values under every name.
-/

namespace FormSchema

/-- The entries of one list are related to those of the other in some order. -/
def Matched {α β : Type} (relation : α → β → Prop) (left : List α) (right : List β) : Prop :=
  ∃ ordered, List.Forall₂ relation left ordered ∧ ordered.Perm right

namespace Matched

variable {α β γ δ : Type} {relation : α → β → Prop} {left : List α} {right : List β}

theorem nil : Matched relation [] [] :=
  ⟨[], .nil, .nil⟩

theorem of_forall₂ (related : List.Forall₂ relation left right) : Matched relation left right :=
  ⟨right, related, .refl right⟩

theorem singleton {first : α} {second : β} (related : relation first second) :
    Matched relation [first] [second] :=
  of_forall₂ (.cons related .nil)

theorem append {leftMore : List α} {rightMore : List β} (first : Matched relation left right)
    (second : Matched relation leftMore rightMore) :
    Matched relation (left ++ leftMore) (right ++ rightMore) := by
  obtain ⟨ordered, related, sameEntries⟩ := first
  obtain ⟨orderedMore, relatedMore, sameMore⟩ := second
  exact ⟨ordered ++ orderedMore, List.rel_append related relatedMore, sameEntries.append sameMore⟩

/-- What matches in one direction matches in the other. -/
theorem flip (matched : Matched relation left right) :
    Matched (fun second first => relation first second) right left := by
  obtain ⟨ordered, related, sameEntries⟩ := matched
  exact List.perm_comp_forall₂ sameEntries.symm related.flip

/-- Only the entries that there are need to be related in another way. -/
theorem imp {other : α → β → Prop} (matched : Matched relation left right)
    (related : ∀ first ∈ left, ∀ second ∈ right, relation first second → other first second) :
    Matched other left right := by
  obtain ⟨ordered, areRelated, sameEntries⟩ := matched
  refine ⟨ordered, ?_, sameEntries⟩
  have inRight (second : β) (isOrdered : second ∈ ordered) := sameEntries.subset isOrdered
  clear sameEntries
  induction areRelated with
  | nil => exact .nil
  | @cons first second rest others isRelated _ inductionHypothesis =>
      refine .cons (related first List.mem_cons_self second (inRight second List.mem_cons_self)
        isRelated) (inductionHypothesis ?_ ?_)
      · exact fun entry isEntry => related entry (List.mem_cons_of_mem _ isEntry)
      · exact fun entry isEntry => inRight entry (List.mem_cons_of_mem _ isEntry)

/-- Every entry has a related one on the other side. -/
theorem exists_of_mem {first : α} (matched : Matched relation left right)
    (isEntry : first ∈ left) : ∃ second ∈ right, relation first second := by
  obtain ⟨ordered, related, sameEntries⟩ := matched
  obtain ⟨second, isOrdered, isRelated⟩ : ∃ second ∈ ordered, relation first second := by
    clear sameEntries
    induction related with
    | nil => cases isEntry
    | cons isRelated _ inductionHypothesis =>
        rcases List.mem_cons.mp isEntry with rfl | isLater
        · exact ⟨_, List.mem_cons_self, isRelated⟩
        · obtain ⟨second, isOrdered, found⟩ := inductionHypothesis isLater
          exact ⟨second, List.mem_cons_of_mem _ isOrdered, found⟩
  exact ⟨second, sameEntries.subset isOrdered, isRelated⟩

theorem map {other : γ → δ → Prop} {change : α → γ} {changeRight : β → δ}
    (matched : Matched relation left right)
    (related : ∀ first second, relation first second → other (change first) (changeRight second)) :
    Matched other (left.map change) (right.map changeRight) := by
  obtain ⟨ordered, areRelated, sameEntries⟩ := matched
  exact ⟨ordered.map changeRight, List.rel_map related areRelated, sameEntries.map changeRight⟩

theorem filterMap {other : γ → δ → Prop} {change : α → Option γ} {changeRight : β → Option δ}
    (matched : Matched relation left right)
    (related : ∀ first second, relation first second →
      Option.Rel other (change first) (changeRight second)) :
    Matched other (left.filterMap change) (right.filterMap changeRight) := by
  obtain ⟨ordered, areRelated, sameEntries⟩ := matched
  exact ⟨ordered.filterMap changeRight, List.rel_filterMap related areRelated,
    sameEntries.filterMap changeRight⟩

/-- Lists that are put together from related parts have the same entries. -/
theorem flatMap_perm {parts : α → List γ} {partsRight : β → List γ}
    (matched : Matched relation left right)
    (related : ∀ first second, relation first second → (parts first).Perm (partsRight second)) :
    (left.flatMap parts).Perm (right.flatMap partsRight) := by
  obtain ⟨ordered, areRelated, sameEntries⟩ := matched
  have parted : (left.flatMap parts).Perm (ordered.flatMap partsRight) := by
    clear sameEntries
    induction areRelated with
    | nil => exact .nil
    | cons isRelated _ inductionHypothesis =>
        rw [List.flatMap_cons, List.flatMap_cons]
        exact (related _ _ isRelated).append inductionHypothesis
  exact parted.trans (sameEntries.flatMap_right partsRight)

end Matched

namespace Members

variable {α β : Type} {relation : α → β → Prop}

/-- Members have the same name and related values. -/
def Related (relation : α → β → Prop) (first : String × α) (second : String × β) : Prop :=
  first.1 = second.1 ∧ relation first.2 second.2

variable {left : List (String × α)} {right : List (String × β)}

/-- Members that match have the same names. -/
theorem names_perm (matched : Matched (Related relation) left right) :
    (names left).Perm (names right) := by
  obtain ⟨ordered, related, sameEntries⟩ := matched
  have sameNames : names left = names ordered := by
    clear sameEntries
    induction related with
    | nil => rfl
    | cons isRelated _ inductionHypothesis =>
        rw [names, names, List.map_cons, List.map_cons, isRelated.1]
        exact congrArg _ inductionHypothesis
  rw [sameNames]
  exact sameEntries.map Prod.fst

theorem mem_names_iff (matched : Matched (Related relation) left right) {name : String} :
    name ∈ names left ↔ name ∈ names right :=
  (names_perm matched).mem_iff

theorem has_eq (matched : Matched (Related relation) left right) (name : String) :
    has name left = has name right := by
  rw [Bool.eq_iff_iff, has_iff_mem_names, has_iff_mem_names, mem_names_iff matched]

/-- A member has one with its name and a related value on the other side. -/
theorem exists_related_of_mem {name : String} {value : α}
    (matched : Matched (Related relation) left right) (isMember : (name, value) ∈ left) :
    ∃ other, (name, other) ∈ right ∧ relation value other := by
  obtain ⟨⟨_, other⟩, isOther, rfl, isRelated⟩ := matched.exists_of_mem isMember
  exact ⟨other, isOther, isRelated⟩

/-- Members correspond if they match and no name is repeated. -/
structure Correspond (relation : α → β → Prop) (left : List (String × α))
    (right : List (String × β)) : Prop where
  distinct : (names left).Nodup
  matched : Matched (Related relation) left right

namespace Correspond

/-- Only members that there are need to be related in another way. -/
theorem imp {other : α → β → Prop} (correspond : Correspond relation left right)
    (related : ∀ name first second, (name, first) ∈ left → relation first second →
      other first second) : Correspond other left right := by
  refine ⟨correspond.distinct, correspond.matched.imp ?_⟩
  rintro ⟨name, first⟩ isMember ⟨_, second⟩ - ⟨rfl, isRelated⟩
  exact ⟨rfl, related name first second isMember isRelated⟩

theorem flip (correspond : Correspond relation left right) :
    Correspond (fun second first => relation first second) right left := by
  obtain ⟨distinct, matched⟩ := correspond
  refine ⟨(names_perm matched).nodup_iff.mp distinct, matched.flip.imp ?_⟩
  rintro _ - _ - ⟨sameName, isRelated⟩
  exact ⟨sameName.symm, isRelated⟩

/-- Under every name there are related values, or none. -/
theorem lookup (correspond : Correspond relation left right) (name : String) :
    Option.Rel relation (left.lookup name) (right.lookup name) := by
  obtain ⟨distinct, matched⟩ := correspond
  cases found : left.lookup name with
  | none =>
      rw [lookup_eq_none_iff, mem_names_iff matched, ← lookup_eq_none_iff] at found
      rw [found]
      exact .none
  | some value =>
      obtain ⟨other, isOther, isRelated⟩ := exists_related_of_mem matched (mem_of_lookup found)
      rw [lookup_of_mem ((names_perm matched).nodup_iff.mp distinct) isOther]
      exact .some isRelated

end Correspond

/-- Members correspond if there are equally many and related values are found under the names
of one side. -/
theorem correspond_of_lookup (sameLength : left.length = right.length)
    (distinct : (names left).Nodup)
    (found : ∀ name value, (name, value) ∈ left →
      ∃ other, right.lookup name = some other ∧ relation value other) :
    Correspond relation left right := by
  let ordered := left.filterMap fun member =>
    (right.lookup member.1).map fun other => (member.1, other)
  have related : List.Forall₂ (Related relation) left ordered := by
    clear sameLength distinct
    induction left with
    | nil => exact .nil
    | cons member rest inductionHypothesis =>
        obtain ⟨name, value⟩ := member
        obtain ⟨other, isFound, isRelated⟩ := found name value List.mem_cons_self
        have split : ordered = (name, other) :: rest.filterMap fun member =>
            (right.lookup member.1).map fun other => (member.1, other) := by
          simp only [ordered, List.filterMap_cons, isFound, Option.map_some]
        rw [split]
        exact .cons ⟨rfl, isRelated⟩ (inductionHypothesis fun later content isMember =>
          found later content (List.mem_cons_of_mem _ isMember))
  have sameNames : names left = names ordered :=
    List.forall₂_eq_eq_eq ▸ List.rel_map (fun _ _ isRelated => isRelated.1) related
  have isSubset : ordered ⊆ right := by
    intro member isMember
    obtain ⟨⟨name, value⟩, -, isFound⟩ := List.mem_filterMap.mp isMember
    obtain ⟨other, isOther, rfl⟩ := Option.map_eq_some_iff.mp isFound
    exact mem_of_lookup isOther
  have orderedDistinct : ordered.Nodup := by
    rw [sameNames] at distinct
    exact List.Nodup.of_map Prod.fst distinct
  have longEnough : right.length ≤ ordered.length := by
    rw [← sameLength]
    exact Nat.le_of_eq related.length_eq
  exact ⟨distinct, ordered, related,
    (orderedDistinct.subperm isSubset).perm_of_length_le longEnough⟩

/-- Does each of the members have one of the same name on the other side that passes a test
together with it? -/
def within (test : α → β → Bool) (left : List (String × α)) (right : List (String × β)) : Bool :=
  left.all fun member => (right.lookup member.1).any (test member.2)

/-- Equally many members correspond if they pass a test, name by name. -/
theorem correspond_of_within {test : α → β → Bool} (sameLength : left.length = right.length)
    (distinct : (names left).Nodup) (isWithin : within test left right = true) :
    Correspond (fun value other => test value other = true) left right := by
  refine correspond_of_lookup sameLength distinct fun name value isMember => ?_
  exact (Option.any_eq_true _ _).mp (List.all_eq_true.mp isWithin (name, value) isMember)

end Members

end FormSchema
