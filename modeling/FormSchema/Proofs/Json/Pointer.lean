import FormSchema.Json.Pointer

/-!
# Reading pointers back

A pointer gives back the tokens that it was rendered from, whatever characters they have, so
following it is following the tokens one by one.  Slashes are escaped after tildes and
restored before them; in between no tilde is followed by a one.
-/

namespace FormSchema

namespace Pointer

/-! ## Escaped tokens -/

/-- Only a tilde begins something to replace. -/
theorem replaceEscape_cons_of_ne {first : Char} (plain : first ≠ '~') (digit replacement : Char)
    (rest : List Char) :
    replaceEscape digit replacement (first :: rest) =
      first :: replaceEscape digit replacement rest := by
  cases rest with
  | nil => rfl
  | cons second rest =>
      rw [replaceEscape, if_neg fun isEscape => plain isEscape.1]

theorem escapeTilde_cons_of_ne {first : Char} (plain : first ≠ '~') (rest : List Char) :
    escapeTilde (first :: rest) = first :: escapeTilde rest := by
  simp [escapeTilde, plain]

theorem escapeSlash_cons_of_ne {first : Char} (plain : first ≠ '/') (rest : List Char) :
    escapeSlash (first :: rest) = first :: escapeSlash rest := by
  simp [escapeSlash, plain]

/-- Restoring the slashes leaves the token with its tildes escaped. -/
theorem replaceEscape_escape (token : List Char) :
    replaceEscape '1' '/' (escape token) = escapeTilde token := by
  rw [escape]
  induction token with
  | nil => rfl
  | cons c rest inductionHypothesis =>
      by_cases isTilde : c = '~'
      · subst isTilde
        have split : escapeSlash (escapeTilde ('~' :: rest)) =
            '~' :: '0' :: escapeSlash (escapeTilde rest) := rfl
        rw [split, replaceEscape, if_neg (by decide), replaceEscape_cons_of_ne (by decide),
          inductionHypothesis]
        rfl
      · rw [escapeTilde_cons_of_ne isTilde]
        by_cases isSlash : c = '/'
        · subst isSlash
          have split : escapeSlash ('/' :: escapeTilde rest) =
              '~' :: '1' :: escapeSlash (escapeTilde rest) := rfl
          rw [split, replaceEscape, if_pos ⟨rfl, rfl⟩, inductionHypothesis]
        · rw [escapeSlash_cons_of_ne isSlash, replaceEscape_cons_of_ne isTilde,
            inductionHypothesis]

/-- Restoring the tildes of a token with escaped tildes gives the token. -/
theorem replaceEscape_escapeTilde (token : List Char) :
    replaceEscape '0' '~' (escapeTilde token) = token := by
  induction token with
  | nil => rfl
  | cons c rest inductionHypothesis =>
      by_cases isTilde : c = '~'
      · subst isTilde
        have split : escapeTilde ('~' :: rest) = '~' :: '0' :: escapeTilde rest := rfl
        rw [split, replaceEscape, if_pos ⟨rfl, rfl⟩, inductionHypothesis]
      · rw [escapeTilde_cons_of_ne isTilde, replaceEscape_cons_of_ne isTilde, inductionHypothesis]

/-- The written form of a token is that of no other token. -/
theorem unescape_escape (token : List Char) : unescape (escape token) = token := by
  rw [unescape, replaceEscape_escape, replaceEscape_escapeTilde]

/-- The written form of a token has no slash. -/
theorem slash_not_mem_escape (token : List Char) : '/' ∉ escape token := by
  intro isSlash
  obtain ⟨c, -, isPart⟩ := List.mem_flatMap.mp isSlash
  by_cases same : c = '/'
  · simp [same] at isPart
  · rw [if_neg same, List.mem_singleton] at isPart
    exact same isPart.symm

/-! ## Pointers -/

theorem splitOn_written (token : List Char) (tokens : List String) :
    (escape token ++ tokens.flatMap fun token => '/' :: escape token.toList).splitOn '/' =
      escape token :: tokens.map fun token => escape token.toList := by
  induction tokens generalizing token with
  | nil =>
      rw [List.flatMap_nil, List.append_nil, List.map_nil]
      exact List.splitOn_eq_singleton (slash_not_mem_escape token)
  | cons next rest inductionHypothesis =>
      rw [List.flatMap_cons, List.cons_append,
        List.splitOn_append_cons_self_of_not_mem (slash_not_mem_escape token), inductionHypothesis,
        List.map_cons]

/-- A pointer gives back the tokens that it was rendered from. -/
theorem parse?_render (tokens : List String) : parse? (render tokens) = some tokens := by
  rw [parse?, render, String.toList_ofList]
  cases tokens with
  | nil => rfl
  | cons token rest =>
      have restored (token : String) : String.ofList (unescape (escape token.toList)) = token := by
        rw [unescape_escape, String.ofList_toList]
      rw [List.flatMap_cons, List.cons_append]
      simp only [splitOn_written, List.map_cons, List.map_map, Function.comp_def, restored,
        List.map_id']

/-! ## Positions -/

/-- The decimal digits of a positive number do not start with a zero. -/
theorem toDigits_head_ne_zero {number : Nat} (positive : 0 < number) :
    ∃ first rest, Nat.toDigits 10 number = first :: rest ∧ first ≠ '0' := by
  have notZero : ∀ digit < 10, 0 < digit → digit.digitChar ≠ '0' := by decide
  induction number using Nat.strongRecOn with
  | ind number inductionHypothesis =>
      by_cases small : number < 10
      · exact ⟨number.digitChar, [], Nat.toDigits_of_lt_base small, notZero number small positive⟩
      · obtain ⟨first, rest, digits, isPositive⟩ :=
          inductionHypothesis (number / 10) (by omega) (by omega)
        refine ⟨first, rest ++ [(number % 10).digitChar], ?_, isPositive⟩
        rw [Nat.toDigits_of_base_le (by decide) (by omega), digits, List.cons_append]

/-- The decimal digits of a number have it as their value. -/
theorem digitsValue_toDigits (number : Nat) : digitsValue (Nat.toDigits 10 number) = number :=
  Nat.ofDigitChars_ten_toDigits

/-- The decimal form of a position names it. -/
theorem index?_toString (position : Nat) : index? (toString position) = some position := by
  have digits : (toString position).toList = Nat.toDigits 10 position := by
    rw [Nat.toString_eq_ofList_toDigits, String.toList_ofList]
  rcases Nat.eq_zero_or_pos position with rfl | positive
  · rfl
  · obtain ⟨first, rest, split, notZero⟩ := toDigits_head_ne_zero positive
    have allDigits : (first :: rest).all Char.isDigit = true := by
      rw [List.all_eq_true, ← split]
      exact fun c isDigit => Nat.isDigit_of_mem_toDigits (by decide) (by decide) isDigit
    rw [index?, digits, split]
    split
    · rename_i none
      cases none
    · rename_i isZero
      exact absurd (List.cons.inj isZero).1 notZero
    · rename_i isZero
      exact absurd (List.cons.inj isZero).1 notZero
    · rw [if_pos allDigits, ← split, digitsValue_toDigits]

/-- Different positions have different decimal forms. -/
theorem toString_injective {position other : Nat} (same : toString position = toString other) :
    position = other := by
  have named := index?_toString position
  rw [same, index?_toString] at named
  exact (Option.some.inj named).symm

end Pointer

namespace Json

theorem at?_append (value : Json) (first second : List String) :
    value.at? (first ++ second) = (value.at? first).bind (at? second) := by
  induction first generalizing value with
  | nil => rfl
  | cons token rest inductionHypothesis =>
      rw [List.cons_append, at?, at?, Option.bind_assoc]
      congr 1
      funext inner
      exact inductionHypothesis inner

@[simp]
theorem at?_singleton (value : Json) (token : String) : value.at? [token] = value.step? token := by
  rw [at?]
  cases value.step? token <;> rfl

/-- A rendered pointer leads where its tokens lead. -/
theorem pointer?_render (value : Json) (tokens : List String) :
    value.pointer? (Pointer.render tokens) = value.at? tokens := by
  rw [pointer?, Pointer.parse?_render, Option.bind_some]

end Json

end FormSchema
