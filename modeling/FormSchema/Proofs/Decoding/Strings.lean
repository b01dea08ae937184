import FormSchema.Decoding.StringText

/-!
# Strings that end

`Quoted` is what stands between the quotes of a string, with the characters that it stands for:
plain characters, escapes, and pairs of escapes for pairs of surrogates.  Reading a string gives
exactly what `Quoted` says, and skipping a string accepts everything that reading does.
-/

namespace FormSchema.StringText

/-- A text begins with the rest of a string, up to the closing quote: the characters of the
string, and the place behind it. -/
inductive Quoted : List Char → Position → List Char → Cursor → Prop where
  | close {rest : List Char} {position : Position} :
      Quoted ('"' :: rest) position [] ⟨rest, columns position 1⟩
  | plain {c : Char} {rest characters : List Char} {position : Position} {behind : Cursor}
      (notQuote : c ≠ '"') (notEscape : c ≠ '\\') (printable : ¬ c.toNat < 32)
      (inside : Quoted rest (position.after c) characters behind) :
      Quoted (c :: rest) position (c :: characters) behind
  | simple {c meaning : Char} {rest characters : List Char} {position : Position} {behind : Cursor}
      (isEscape : simpleEscape? c = some meaning)
      (inside : Quoted rest (columns position 2) characters behind) :
      Quoted ('\\' :: c :: rest) position (meaning :: characters) behind
  | unit {a b c d : Char} {unit : Nat} {rest characters : List Char} {position : Position}
      {behind : Cursor} (isUnit : hexNumber? a b c d = some unit)
      (notLow : ¬ isLowSurrogate unit = true) (notHigh : ¬ isHighSurrogate unit = true)
      (inside : Quoted rest (columns position 6) characters behind) :
      Quoted ('\\' :: 'u' :: a :: b :: c :: d :: rest) position (Char.ofNat unit :: characters)
        behind
  /-- Two surrogates stand for one character. -/
  | pair {a b c d e f g h : Char} {high low : Nat} {rest characters : List Char}
      {position : Position} {behind : Cursor} (isUnit : hexNumber? a b c d = some high)
      (notLow : ¬ isLowSurrogate high = true) (isHigh : isHighSurrogate high = true)
      (isSecond : hexNumber? e f g h = some low) (isLow : isLowSurrogate low = true)
      (inside : Quoted rest (columns position 12) characters behind) :
      Quoted ('\\' :: 'u' :: a :: b :: c :: d :: '\\' :: 'u' :: e :: f :: g :: h :: rest) position
        (pairedChar high low :: characters) behind

section

variable {text characters read : List Char} {position : Position} {behind : Cursor}

theorem failHex_ne_ok {α : Type} {result : α} : failHex position text ≠ .ok result := by
  rw [failHex]
  split <;> exact nofun

theorem reverse_cons_append (c : Char) (read characters : List Char) :
    (c :: read).reverse ++ characters = read.reverse ++ c :: characters := by
  rw [List.reverse_cons, List.append_assoc, List.singleton_append]

/-- A character that has just been read stands in front of the characters that follow. -/
theorem exists_inside_cons {c : Char} {found : List Char → Prop}
    (inside : ∃ inside, characters = (c :: read).reverse ++ inside ∧ found (c :: inside)) :
    ∃ inside, characters = read.reverse ++ inside ∧ found inside := by
  obtain ⟨inside, rfl, isFound⟩ := inside
  exact ⟨c :: inside, reverse_cons_append c read inside, isFound⟩

/-- Reading a string gives what `Quoted` says. -/
theorem quoted_of_body (isRead : body read text position = .ok (characters, behind)) :
    ∃ inside, characters = read.reverse ++ inside ∧ Quoted text position inside behind := by
  fun_induction body read text position with
  | case2 =>
      cases isRead
      exact ⟨[], (List.append_nil _).symm, .close⟩
  | case6 read a b c d position high isUnit notLow isHigh e f g h rest low isSecond isLow
      inductionHypothesis =>
      obtain ⟨inside, same, isQuoted⟩ := inductionHypothesis isRead
      exact exists_inside_cons ⟨inside, same, .pair isUnit notLow isHigh isSecond isLow isQuoted⟩
  | case13 read a b c d rest position unit isUnit notLow notHigh inductionHypothesis =>
      obtain ⟨inside, same, isQuoted⟩ := inductionHypothesis isRead
      exact exists_inside_cons ⟨inside, same, .unit isUnit notLow notHigh isQuoted⟩
  | case16 read c rest position notUnit notUnicode meaning isEscape inductionHypothesis =>
      obtain ⟨inside, same, isQuoted⟩ := inductionHypothesis isRead
      exact exists_inside_cons ⟨inside, same, .simple isEscape isQuoted⟩
  | case19 read c rest position notQuote _ _ notLast notEscape printable inductionHypothesis =>
      obtain ⟨inside, same, isQuoted⟩ := inductionHypothesis isRead
      have notBackslash : c ≠ '\\' := by
        cases rest with
        | nil => exact fun isBackslash => notLast isBackslash rfl
        | cons next rest => exact fun isBackslash => notEscape next rest isBackslash rfl
      exact exists_inside_cons ⟨inside, same, .plain notQuote notBackslash printable isQuoted⟩
  | case3 | case5 | case8 | case14 => exact absurd isRead failHex_ne_ok
  | _ => cases isRead

/-- No simple escape is written with the letter of the others. -/
theorem ne_unicode_of_simpleEscape? {c meaning : Char} (isEscape : simpleEscape? c = some meaning) :
    c ≠ 'u' := by
  rintro rfl
  cases isEscape

/-- Reading a string gives everything that `Quoted` says. -/
theorem body_of_quoted (isQuoted : Quoted text position characters behind) (read : List Char) :
    body read text position = .ok (read.reverse ++ characters, behind) := by
  induction isQuoted generalizing read with
  | close => rw [body, List.append_nil]
  | plain notQuote notEscape printable _ inductionHypothesis =>
      rw [body, if_neg printable, inductionHypothesis, reverse_cons_append]
      · exact notQuote
      · exact fun _ _ _ _ _ isEscape => absurd isEscape notEscape
      · exact fun _ isEscape => absurd isEscape notEscape
      · exact fun isEscape => absurd isEscape notEscape
      · exact fun _ _ isEscape => absurd isEscape notEscape
  | simple isEscape _ inductionHypothesis =>
      have notUnicode := ne_unicode_of_simpleEscape? isEscape
      rw [body, isEscape]
      · exact (inductionHypothesis _).trans (by rw [reverse_cons_append])
      · exact fun _ _ _ _ _ isUnicode => absurd isUnicode notUnicode
      · exact notUnicode
  | unit isUnit notLow notHigh _ inductionHypothesis =>
      simp only [body, isUnit, if_neg notLow, if_neg notHigh]
      rw [inductionHypothesis, reverse_cons_append]
  | pair isUnit notLow isHigh isSecond isLow _ inductionHypothesis =>
      simp only [body, isUnit, if_neg notLow, if_pos isHigh, isSecond, if_pos isLow]
      rw [inductionHypothesis, reverse_cons_append]

/-- What is read as a string is skipped as a string. -/
theorem skip_of_quoted (isQuoted : Quoted text position characters behind) :
    skip text position = .ok behind := by
  induction isQuoted with
  | close => rw [skip]
  | plain notQuote notEscape printable _ inductionHypothesis =>
      rw [skip, if_neg printable, inductionHypothesis]
      · exact notQuote
      · exact fun _ _ _ _ _ isEscape => absurd isEscape notEscape
      · exact fun _ isEscape => absurd isEscape notEscape
      · exact fun isEscape => absurd isEscape notEscape
      · exact fun _ _ isEscape => absurd isEscape notEscape
  | simple isEscape _ inductionHypothesis =>
      have notUnicode := ne_unicode_of_simpleEscape? isEscape
      rw [skip, isEscape]
      · exact inductionHypothesis
      · exact fun _ _ _ _ _ isUnicode => absurd isUnicode notUnicode
      · exact notUnicode
  | unit isUnit notLow notHigh _ inductionHypothesis =>
      rw [skip, isUnit]
      exact inductionHypothesis
  | pair isUnit notLow isHigh isSecond isLow _ inductionHypothesis =>
      rw [skip, isUnit]
      simp only [skip, isSecond]
      exact inductionHypothesis

/-- A string ends with its closing quote, whatever follows. -/
theorem Quoted.extend (isQuoted : Quoted text position characters behind) (more : List Char) :
    Quoted (text ++ more) position characters { behind with rest := behind.rest ++ more } := by
  induction isQuoted with
  | close => exact .close
  | plain notQuote notEscape printable _ inductionHypothesis =>
      exact .plain notQuote notEscape printable inductionHypothesis
  | simple isEscape _ inductionHypothesis => exact .simple isEscape inductionHypothesis
  | unit isUnit notLow notHigh _ inductionHypothesis =>
      exact .unit isUnit notLow notHigh inductionHypothesis
  | pair isUnit notLow isHigh isSecond isLow _ inductionHypothesis =>
      exact .pair isUnit notLow isHigh isSecond isLow inductionHypothesis

theorem Quoted.shorter (isQuoted : Quoted text position characters behind) :
    behind.rest.length < text.length := by
  induction isQuoted with
  | close => exact Nat.lt_succ_self _
  | _ =>
      simp only [List.length_cons]
      omega

end

end FormSchema.StringText
