import FormSchema.Proofs.Json.Pointer

/-!
# Where pointers lead

`Json.Leads` says where a list of tokens leads in a value, without reading any of the tokens: the
name of a member leads to its value, and the decimal form of a position leads to the item there.
Looking tokens up is the same, because the tokens that name a position are exactly the decimal
forms, so that no position has a second name.

The main result is that pointers lose nothing.  A pointer is read back as the tokens that it was
rendered from, whatever characters they have, and it leads where they lead.
-/

namespace FormSchema

namespace Pointer

/-! ## Decimal forms -/

theorem digitValue_lt {c : Char} (isDigit : c.isDigit = true) : digitValue c < 10 := by
  rw [Char.isDigit, Bool.and_eq_true, decide_eq_true_eq, decide_eq_true_eq] at isDigit
  have atMost : c.toNat ≤ 57 := UInt32.le_iff_toNat_le.mp isDigit.2
  rw [digitValue]
  omega

/-- A digit is the one that is written for its value. -/
theorem digitChar_digitValue {c : Char} (isDigit : c.isDigit = true) :
    (digitValue c).digitChar = c := by
  have written : ∀ value < 10, value.digitChar = Char.ofNat (value + 48) := by decide
  rw [written _ (digitValue_lt isDigit)]
  rw [Char.isDigit, Bool.and_eq_true, decide_eq_true_eq, decide_eq_true_eq] at isDigit
  have atLeast : 48 ≤ c.toNat := UInt32.le_iff_toNat_le.mp isDigit.1
  rw [digitValue, Nat.sub_add_cancel atLeast, Char.ofNat_toNat]

/-- Digits behind a positive number are written behind its decimal form. -/
theorem toDigits_foldl {digits : List Char} (allDigits : ∀ c ∈ digits, c.isDigit = true)
    {value : Nat} (positive : 0 < value) :
    Nat.toDigits 10 (digits.foldl (fun value c => 10 * value + digitValue c) value) =
      Nat.toDigits 10 value ++ digits := by
  induction digits generalizing value with
  | nil => simp
  | cons c rest inductionHypothesis =>
      rcases List.forall_mem_cons.mp allDigits with ⟨isDigit, areDigits⟩
      have written := Nat.toDigits_append_toDigits (b := 10) (by decide) positive
        (digitValue_lt isDigit)
      rw [Nat.toDigits_of_lt_base (digitValue_lt isDigit), digitChar_digitValue isDigit] at written
      rw [List.foldl_cons, inductionHypothesis areDigits (by omega), ← written]
      simp

/-- A token names a position only by the decimal form of the position. -/
theorem index?_eq_some_iff {token : String} {position : Nat} :
    index? token = some position ↔ token = toString position := by
  constructor
  · intro named
    apply String.toList_inj.mp
    rw [Nat.toString_eq_ofList_toDigits, String.toList_ofList]
    rw [index?] at named
    split at named
    · cases named
    · rename_i isZero
      cases named
      exact isZero
    · cases named
    · rename_i notEmpty notZero notLeading
      split at named
      · rename_i allDigits
        cases named
        cases written : token.toList with
        | nil => exact absurd written notEmpty
        | cons first rest =>
            rw [written, List.all_eq_true] at allDigits
            rcases List.forall_mem_cons.mp allDigits with ⟨isDigit, areDigits⟩
            have positive : 0 < digitValue first := by
              apply Nat.pos_of_ne_zero
              intro isZero
              have isFirst := digitChar_digitValue isDigit
              rw [isZero] at isFirst
              exact notLeading rest (by rw [written, ← isFirst]; rfl)
            have split := toDigits_foldl areDigits positive
            rw [Nat.toDigits_of_lt_base (digitValue_lt isDigit),
              digitChar_digitValue isDigit] at split
            simpa [digitsValue] using split.symm
      · cases named
  · rintro rfl
    exact index?_toString position

end Pointer

/-! ## Leading -/

/-- A list of tokens leads from a value to one inside it: through members by their names, and
through items by the decimal forms of their positions. -/
inductive Json.Leads : List String → Json → Json → Prop where
  | here {value : Json} : Leads [] value value
  | member {members : List (String × Json)} {name : String} {tokens : List String}
      {inner target : Json} (isMember : members.lookup name = some inner)
      (further : Leads tokens inner target) : Leads (name :: tokens) (.object members) target
  | item {items : List Json} {position : Nat} {tokens : List String} {inner target : Json}
      (isItem : items[position]? = some inner) (further : Leads tokens inner target) :
      Leads (toString position :: tokens) (.array items) target

/-- Looking tokens up one by one finds what they lead to. -/
theorem Json.at?_eq_some_iff {tokens : List String} {value target : Json} :
    value.at? tokens = some target ↔ Leads tokens value target := by
  induction tokens generalizing value with
  | nil =>
      constructor
      · intro found
        cases found
        exact .here
      · intro leads
        cases leads
        rfl
  | cons token rest inductionHypothesis =>
      rw [at?, Option.bind_eq_some_iff]
      constructor
      · rintro ⟨inner, stepped, found⟩
        have further := inductionHypothesis.mp found
        cases value with
        | object members => exact .member stepped further
        | array items =>
            rcases Option.bind_eq_some_iff.mp stepped with ⟨position, named, isItem⟩
            rw [Pointer.index?_eq_some_iff.mp named]
            exact .item isItem further
        | null => cases stepped
        | bool truth => cases stepped
        | number number => cases stepped
        | string text => cases stepped
      · intro leads
        cases leads with
        | @member _ _ _ inner _ isMember further =>
            exact ⟨inner, isMember, inductionHypothesis.mpr further⟩
        | @item _ position _ inner _ isItem further =>
            refine ⟨inner, ?_, inductionHypothesis.mpr further⟩
            rw [step?, Pointer.index?_toString, Option.bind_some]
            exact isItem

/-- Pointers lose nothing.  Reading a pointer gives back the tokens that it was rendered from,
whatever characters they have, so the pointers of two places are the same only if the places are.
And in every value a pointer finds exactly what its tokens lead to, one after the other. -/
theorem Pointer.render_lossless (tokens : List String) :
    parse? (render tokens) = some tokens ∧
    (∀ others, render tokens = render others ↔ tokens = others) ∧
    ∀ value target, value.pointer? (render tokens) = some target ↔
      Json.Leads tokens value target := by
  refine ⟨parse?_render tokens, ?_, ?_⟩
  · intro others
    constructor
    · intro same
      apply Option.some.inj
      rw [← parse?_render tokens, same, parse?_render]
    · exact congrArg render
  · intro value target
    rw [Json.pointer?_render]
    exact Json.at?_eq_some_iff

/-- Tokens that look like escapes, and empty ones. -/
example : Pointer.render ["~1", "", "a/b"] = "/~01//a~1b" := by decide

end FormSchema
