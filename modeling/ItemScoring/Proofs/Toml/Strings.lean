import Mathlib.Order.Basic
import Mathlib.Tactic.SplitIfs
import ItemScoring.Toml.Text
import ItemScoring.Toml.Writing

/-!
# Strings that read back

Each of the four forms of a string is read back as the string it was written for
(`text_quoteText`).  Both readers of double quotes treat escapes alike, so that
`ReadsEscapes` says once what a written character comes to.

In the forms with three quotes, quotes of the string itself may stand right in front of
the closing ones.  The reader takes a run of up to five quotes at once, which is why the
inductions run over the quotes of the string that are still ahead of the reader.
-/

namespace ItemScoring.Toml

/-! ### Characters -/

theorem isTextChar_iff {c : Char} : isTextChar c = true ↔ isControl c = false ∧ c ≠ '\n' := by
  have htab : '\t' ≠ '\n' := by decide
  have hline : ¬ ' ' ≤ '\n' := by decide
  simp only [isTextChar, isControl, decide_eq_true_eq, decide_eq_false_iff_not, Char.not_lt,
    not_and_or, not_or, not_not]
  constructor
  · rintro (rfl | ⟨hle, hdel⟩)
    · exact ⟨.inr (.inl rfl), htab⟩
    · refine ⟨.inl ⟨hle, hdel⟩, ?_⟩
      intro heq
      subst heq
      exact hline hle
  · rintro ⟨hplain | rfl | rfl, hne⟩
    · exact .inr hplain
    · exact .inl rfl
    · exact absurd rfl hne

theorem hexValue?_hexDigit {n : Nat} (hn : n < 16) : hexValue? (hexDigit n) = some n := by
  revert n
  decide

theorem charOfCode?_toNat (c : Char) : charOfCode? c.toNat = some c := by
  have hvalid : c.toNat.isValidChar := c.valid
  rw [charOfCode?, dif_pos hvalid]
  rfl

/-- Only characters below the first printable one and the delete character are escaped by
their codes. -/
theorem toNat_lt_of_isControl {c : Char} (h : isControl c = true) : c.toNat < 128 := by
  obtain ⟨hcontrol, -, -⟩ : (c < ' ' ∨ c = '\x7f') ∧ c ≠ '\t' ∧ c ≠ '\n' := by
    simpa [isControl] using h
  rcases hcontrol with hlow | rfl
  · have hlow' : c.toNat < 32 := hlow
    omega
  · decide

@[simp] theorem prepend_some (c : Char) (content rest : List Char) :
    prepend c (some (content, rest)) = some (c :: content, rest) := rfl

/-! ### Escapes -/

/-- A reader of the content of a string in double quotes. -/
structure ReadsEscapes (reader : Escape → Reader (List Char)) : Prop where
  plain {c : Char} (cs : List Char) : isTextChar c = true → c ≠ '"' → c ≠ '\\' →
    reader .none (c :: cs) = prepend c (reader .none cs)
  backslash (cs : List Char) : reader .none ('\\' :: cs) = reader .begun cs
  letter {c d : Char} (cs : List Char) : escaped? c = some d →
    reader .begun (c :: cs) = prepend d (reader .none cs)
  code (cs : List Char) : reader .begun ('u' :: cs) = reader (.digits 4 0) cs
  digit {c : Char} {n : Nat} (missing value : Nat) (cs : List Char) : hexValue? c = some n →
    reader (.digits (missing + 2) value) (c :: cs) =
      reader (.digits (missing + 1) (16 * value + n)) cs
  lastDigit {c d : Char} {n : Nat} (value : Nat) (cs : List Char) : hexValue? c = some n →
    charOfCode? (16 * value + n) = some d →
    reader (.digits 1 value) (c :: cs) = prepend d (reader .none cs)

theorem readsEscapes_basicChars : ReadsEscapes basicChars where
  plain cs htext hquote hbackslash := by simp [basicChars, htext]
  backslash cs := by simp [basicChars]
  letter cs h := by simp [basicChars, h]
  code cs := by simp [basicChars, escaped?, codeLength?]
  digit missing value cs h := by simp [basicChars, h]
  lastDigit value cs h hcode := by simp [basicChars, h, hcode]

theorem readsEscapes_basicLines : ReadsEscapes basicLines where
  plain {c} cs htext hquote hbackslash := by
    have hline := (isTextChar_iff.mp htext).2
    have hreturn : c ≠ '\r' := by
      intro heq
      subst heq
      exact absurd htext (by decide)
    simp [basicLines, htext, hquote, hreturn]
  backslash cs := by simp [basicLines]
  letter {c d} cs h := by
    have hspecial : c ≠ '\n' ∧ c ≠ '\r' ∧ c ≠ ' ' ∧ c ≠ '\t' := by
      refine ⟨?_, ?_, ?_, ?_⟩ <;> rintro rfl <;> simp [escaped?] at h
    simp [basicLines, h, hspecial]
  code cs := by simp [basicLines, escaped?, codeLength?]
  digit missing value cs h := by simp [basicLines, h]
  lastDigit value cs h hcode := by simp [basicLines, h, hcode]

namespace ReadsEscapes

variable {reader : Escape → Reader (List Char)} (h : ReadsEscapes reader) {c : Char}

include h

theorem letter_append {d : Char} (cs : List Char) (hc : escaped? c = some d) :
    reader .none ('\\' :: c :: cs) = prepend d (reader .none cs) := by
  rw [h.backslash, h.letter cs hc]

/-- A code of two hexadecimal digits behind two zeros. -/
theorem code_append (cs : List Char) (hc : c.toNat < 256) :
    reader .none ('\\' :: 'u' :: '0' :: '0' :: hexDigit (c.toNat / 16) ::
      hexDigit (c.toNat % 16) :: cs) = prepend c (reader .none cs) := by
  have hzero : hexValue? '0' = some 0 := by decide
  have hhigh := @hexValue?_hexDigit (c.toNat / 16) (by omega)
  have hlow := @hexValue?_hexDigit (c.toNat % 16) (by omega)
  have hcode : charOfCode? (16 * (c.toNat / 16) + c.toNat % 16) = some c := by
    rw [Nat.div_add_mod]
    exact charOfCode?_toNat c
  rw [h.backslash, h.code, h.digit 2 0 _ hzero, h.digit 1 _ _ hzero, h.digit 0 _ _ hhigh,
    h.lastDigit _ _ hlow (by simpa using hcode)]

/-- What a character other than a quote or a line end is written as reads back. -/
theorem escape_append (cs : List Char) (hquote : c ≠ '"') (hline : c ≠ '\n') :
    reader .none (escape c ++ cs) = prepend c (reader .none cs) := by
  -- Five characters have an escape of one letter, other controls are written by their code.
  rw [escape]
  split
  next htab =>
    subst htab
    exact h.letter_append cs rfl
  split
  next hback =>
    subst hback
    exact h.letter_append cs rfl
  split
  next hfeed =>
    subst hfeed
    exact h.letter_append cs rfl
  split
  next hreturn =>
    subst hreturn
    exact h.letter_append cs rfl
  split
  next hbackslash =>
    subst hbackslash
    exact h.letter_append cs rfl
  next hbackslash =>
    split
    next hcontrol =>
      have hcode := toNat_lt_of_isControl hcontrol
      exact h.code_append cs (by omega)
    next hcontrol =>
      have htext : isTextChar c = true := isTextChar_iff.mpr ⟨by simpa using hcontrol, hline⟩
      exact h.plain cs htext hquote hbackslash

end ReadsEscapes

/-! ### Strings on one line -/

theorem escapeLine_cons {c : Char} (cs : List Char) (hquote : c ≠ '"') (hline : c ≠ '\n') :
    escapeLine (c :: cs) = escape c ++ escapeLine cs := by
  simp [escapeLine]

theorem basicChars_escapeLine (cs rest : List Char) :
    basicChars .none (escapeLine cs ++ '"' :: rest) = some (cs, rest) := by
  induction cs with
  | nil => simp [escapeLine, basicChars]
  | cons c cs ih =>
      -- Quotes and line feeds are escaped here, though not in strings of several lines.
      by_cases hquote : c = '"'
      · subst hquote
        have hstep := readsEscapes_basicChars.letter_append (escapeLine cs ++ '"' :: rest)
          (show escaped? '"' = some '"' from rfl)
        rw [ih, prepend_some] at hstep
        exact hstep
      · by_cases hline : c = '\n'
        · subst hline
          have hstep := readsEscapes_basicChars.letter_append (escapeLine cs ++ '"' :: rest)
            (show escaped? 'n' = some '\n' from rfl)
          rw [ih, prepend_some] at hstep
          exact hstep
        · rw [escapeLine_cons cs hquote hline, List.append_assoc,
            readsEscapes_basicChars.escape_append _ hquote hline, ih]
          rfl

theorem literalChars_append {cs : List Char} (rest : List Char)
    (htext : ∀ c ∈ cs, isTextChar c = true) (hquote : '\'' ∉ cs) :
    literalChars (cs ++ '\'' :: rest) = some (cs, rest) := by
  induction cs with
  | nil => rfl
  | cons c cs ih =>
      obtain ⟨hc, hmore⟩ := List.forall_mem_cons.mp htext
      simp only [List.mem_cons, not_or] at hquote
      simp [literalChars, hc, Ne.symm hquote.1, ih hmore hquote.2]

/-! ### Strings over several lines -/

/-- Up to two quotes that something else follows are part of the string. -/
theorem basicLines_quotes {cs content rest : List Char} {c : Char} {count : Nat}
    (hcount : count ≤ 2) (hc : c ≠ '"')
    (h : basicLines .none (c :: cs) = some (content, rest)) :
    basicLines .none (List.replicate count '"' ++ c :: cs) =
      some (List.replicate count '"' ++ content, rest) := by
  have hquote : isTextChar '"' = true := by decide
  obtain rfl | rfl | rfl : count = 0 ∨ count = 1 ∨ count = 2 := by omega
  · exact h
  · simp [basicLines, hc, hquote, h]
  · simp [basicLines, hc, hquote, h]

/-- Up to two quotes right in front of the closing ones are part of the string. -/
theorem basicLines_closing {rest : List Char} {count : Nat} (hcount : count ≤ 2)
    (hrest : rest.head? ≠ some '"') :
    basicLines .none (List.replicate count '"' ++ '"' :: '"' :: '"' :: rest) =
      some (List.replicate count '"', rest) := by
  obtain rfl | rfl | rfl : count = 0 ∨ count = 1 ∨ count = 2 := by omega
  · cases rest with
    | nil => simp [basicLines]
    | cons c rest =>
      have hc : c ≠ '"' := by simpa using hrest
      simp [basicLines, hc]
  · cases rest with
    | nil => simp [basicLines]
    | cons c rest =>
      have hc : c ≠ '"' := by simpa using hrest
      simp [basicLines, hc]
  · simp [basicLines]

/-- No quote and no line end stands in front of what a character is written as. -/
theorem exists_escape_eq_cons {c : Char} (hquote : c ≠ '"') (hline : c ≠ '\n') :
    ∃ d ds, escape c = d :: ds ∧ d ≠ '"' ∧ d ≠ '\n' ∧ d ≠ '\r' := by
  rw [escape]
  repeat' split
  all_goals first | exact ⟨_, _, rfl, by decide⟩ | exact ⟨_, _, rfl, hquote, hline, ‹_›⟩

theorem escapeLines_cons {c : Char} (count : Nat) (cs : List Char) (hquote : c ≠ '"')
    (hline : c ≠ '\n') : escapeLines count (c :: cs) = escape c ++ escapeLines 0 cs := by
  simp [escapeLines]

/-- The induction is on the string, with the quotes that were written but not yet read in
front of it. -/
theorem basicLines_escapeLines (cs : List Char) {rest : List Char} {count : Nat}
    (hcount : count ≤ 2) (hrest : rest.head? ≠ some '"') :
    basicLines .none (List.replicate count '"' ++
        (escapeLines count cs ++ '"' :: '"' :: '"' :: rest)) =
      some (List.replicate count '"' ++ cs, rest) := by
  induction cs generalizing count with
  | nil =>
      rw [escapeLines, List.nil_append, List.append_nil]
      exact basicLines_closing hcount hrest
  | cons c cs ih =>
      have hnext := ih (Nat.zero_le 2)
      simp only [List.replicate_zero, List.nil_append] at hnext
      by_cases hquote : c = '"'
      · subst hquote
        -- The third quote in a row is escaped, which ends the run in front of it.
        by_cases hthird : count = 2
        · have hescaped := readsEscapes_basicLines.letter_append
            (escapeLines 0 cs ++ '"' :: '"' :: '"' :: rest) (show escaped? '"' = some '"' from rfl)
          rw [hnext, prepend_some] at hescaped
          simp only [escapeLines, if_pos hthird]
          exact basicLines_quotes hcount (by decide) hescaped
        · have hmore := @ih (count + 1) (by omega)
          simp only [escapeLines, if_neg hthird]
          rw [List.replicate_succ', List.append_assoc, List.append_assoc] at hmore
          exact hmore
      · by_cases hline : c = '\n'
        · subst hline
          have hbroken : basicLines .none
              ('\n' :: (escapeLines 0 cs ++ '"' :: '"' :: '"' :: rest)) =
                some ('\n' :: cs, rest) := by
            simp [basicLines, hnext]
          simp only [escapeLines]
          exact basicLines_quotes hcount (by decide) hbroken
        · obtain ⟨d, ds, hescape, hd, -⟩ := exists_escape_eq_cons hquote hline
          have hread := readsEscapes_basicLines.escape_append
            (escapeLines 0 cs ++ '"' :: '"' :: '"' :: rest) hquote hline
          rw [hnext, prepend_some, hescape] at hread
          rw [escapeLines_cons count cs hquote hline, hescape, List.append_assoc]
          exact basicLines_quotes hcount hd hread

/-- A character that does not open a run of three quotes is part of the string. -/
theorem literalLines_cons {c : Char} {cs : List Char} (hc : isControl c = false)
    (hrun : ∀ more, c :: cs ≠ '\'' :: '\'' :: '\'' :: more) :
    literalLines (c :: cs) = prepend c (literalLines cs) := by
  by_cases hline : c = '\n'
  · subst hline
    simp [literalLines]
  · have htext := isTextChar_iff.mpr ⟨hc, hline⟩
    have hreturn : c ≠ '\r' := by
      intro heq
      subst heq
      exact absurd hc (by decide)
    -- The first three branches are those of a run, the next two those of line ends.
    rw [literalLines.eq_def]
    split
    next more heq => exact absurd heq (hrun _)
    next more _ heq => exact absurd heq (hrun _)
    next more _ _ heq => exact absurd heq (hrun _)
    next heq => exact absurd (List.cons.inj heq).1 hline
    next heq => exact absurd (List.cons.inj heq).1 hreturn
    next heq =>
      obtain ⟨rfl, rfl⟩ := List.cons.inj heq
      rw [if_pos htext]
    next heq => contradiction

theorem hasTriple_of_cons {quote c : Char} {cs : List Char}
    (h : hasTriple quote (c :: cs) = false) : hasTriple quote cs = false := by
  cases cs with
  | nil => rfl
  | cons d cs =>
      cases cs with
      | nil => rfl
      | cons e cs =>
          rw [hasTriple, Bool.or_eq_false_iff] at h
          exact h.2

theorem literalLines_closing {rest : List Char} (hrest : rest.head? ≠ some '\'') :
    literalLines ('\'' :: '\'' :: '\'' :: rest) = some ([], rest) ∧
      literalLines ('\'' :: '\'' :: '\'' :: '\'' :: rest) = some (['\''], rest) := by
  cases rest with
  | nil => exact ⟨rfl, rfl⟩
  | cons c rest =>
      have hc : c ≠ '\'' := by simpa using hrest
      simp [literalLines, hc]

theorem literalLines_append {cs rest : List Char} (hcontrol : ∀ c ∈ cs, isControl c = false)
    (htriple : hasTriple '\'' cs = false) (hrest : rest.head? ≠ some '\'') :
    literalLines (cs ++ '\'' :: '\'' :: '\'' :: rest) = some (cs, rest) := by
  obtain ⟨hclosing, hclosing'⟩ := literalLines_closing hrest
  induction cs with
  | nil => exact hclosing
  | cons c cs ih =>
      obtain ⟨hc, hmore⟩ := List.forall_mem_cons.mp hcontrol
      have hnext := ih hmore (hasTriple_of_cons htriple)
      -- A run of three quotes here begins with the last one or two characters of the string.
      by_cases hrun : ∃ more, c :: (cs ++ '\'' :: '\'' :: '\'' :: rest) =
          '\'' :: '\'' :: '\'' :: more
      · obtain ⟨more, hfirst⟩ := hrun
        obtain ⟨rfl, hsecond⟩ := List.cons.inj hfirst
        cases cs with
        | nil => exact hclosing'
        | cons d cs =>
            rw [List.cons_append] at hsecond
            obtain ⟨rfl, hthird⟩ := List.cons.inj hsecond
            cases cs with
            | nil => rfl
            | cons e cs =>
                rw [List.cons_append] at hthird
                obtain ⟨rfl, -⟩ := List.cons.inj hthird
                simp [hasTriple] at htriple
      · rw [List.cons_append, literalLines_cons hc (not_exists.mp hrun), hnext]
        rfl

/-! ### Any string -/

theorem quotingOf_literal {cs : List Char} (h : quotingOf cs = .literal) :
    (∀ c ∈ cs, isTextChar c = true) ∧ '\'' ∉ cs := by
  simp only [quotingOf] at h
  split_ifs at h with hbasic hliteral
  obtain ⟨⟨hcontrol, hquote⟩, hbroken⟩ :
      ((∀ c ∈ cs, isControl c = false) ∧ '\'' ∉ cs) ∧ '\n' ∉ cs := by
    simpa using hliteral
  refine ⟨fun c hc => isTextChar_iff.mpr ⟨hcontrol c hc, ?_⟩, hquote⟩
  intro heq
  subst heq
  exact hbroken hc

theorem quotingOf_literalLines {cs : List Char} (h : quotingOf cs = .literalLines) :
    (∀ c ∈ cs, isControl c = false) ∧ hasTriple '\'' cs = false := by
  simp only [quotingOf] at h
  split_ifs at h with hbasic hliteral hlines hliteralLines
  simpa using hliteralLines

/-- What does not begin with three quotes is read on one line. -/
theorem text_eq_lineText {cs : List Char} (hdouble : ∀ more, cs ≠ '"' :: '"' :: '"' :: more)
    (hsingle : ∀ more, cs ≠ '\'' :: '\'' :: '\'' :: more) : text cs = lineText cs := by
  rw [text.eq_def]
  split
  next more => exact absurd rfl (hdouble more)
  next more => exact absurd rfl (hsingle more)
  next => rfl

theorem exists_escapeLine_eq_cons (c : Char) (cs : List Char) :
    ∃ d ds, escapeLine (c :: cs) = d :: ds ∧ d ≠ '"' := by
  by_cases hquote : c = '"'
  · subst hquote
    exact ⟨_, _, rfl, by decide⟩
  · by_cases hline : c = '\n'
    · subst hline
      exact ⟨_, _, rfl, by decide⟩
    · obtain ⟨d, ds, hescape, hd, -⟩ := exists_escape_eq_cons hquote hline
      exact ⟨d, ds ++ escapeLine cs, by rw [escapeLine_cons cs hquote hline, hescape]; rfl, hd⟩

theorem text_basic {cs rest : List Char} (hrest : rest.head? ≠ some '"') :
    text ('"' :: (escapeLine cs ++ '"' :: rest)) = some (cs, rest) := by
  have hopen : ∀ more, '"' :: (escapeLine cs ++ '"' :: rest) ≠ '"' :: '"' :: '"' :: more := by
    intro more heq
    have hcontent := (List.cons.inj heq).2
    cases cs with
    | nil => simp [(List.cons.inj hcontent).2] at hrest
    | cons c cs =>
        obtain ⟨d, ds, hline, hd⟩ := exists_escapeLine_eq_cons c cs
        rw [hline] at hcontent
        exact hd (List.cons.inj hcontent).1
  rw [text_eq_lineText hopen (by simp)]
  exact basicChars_escapeLine cs rest

theorem text_literal {cs rest : List Char} (htext : ∀ c ∈ cs, isTextChar c = true)
    (hquote : '\'' ∉ cs) (hrest : rest.head? ≠ some '\'') :
    text ('\'' :: (cs ++ '\'' :: rest)) = some (cs, rest) := by
  have hopen : ∀ more, '\'' :: (cs ++ '\'' :: rest) ≠ '\'' :: '\'' :: '\'' :: more := by
    intro more heq
    cases cs with
    | nil => simp [(List.cons.inj (List.cons.inj heq).2).2] at hrest
    | cons c cs => simp [(List.cons.inj (List.cons.inj heq).2).1] at hquote
  rw [text_eq_lineText (by simp) hopen]
  exact literalChars_append rest htext hquote

/-- The line end that a string with line ends starts with is skipped, and nothing else. -/
theorem skipFirstLineEnd_append {cs content : List Char}
    (h : '\n' ∉ cs → content.head? ≠ some '\n' ∧ content.head? ≠ some '\r') :
    skipFirstLineEnd (firstLineEnd cs ++ content) = content := by
  rw [firstLineEnd]
  by_cases hbroken : '\n' ∈ cs
  · simp [hbroken, skipFirstLineEnd]
  · obtain ⟨hline, hreturn⟩ := h hbroken
    simp only [List.contains_iff_mem, if_neg hbroken, List.nil_append]
    rw [skipFirstLineEnd.eq_def]
    split
    next => exact absurd rfl hline
    next => exact absurd rfl hreturn
    next => rfl

theorem text_basicLines {cs rest : List Char} (hrest : rest.head? ≠ some '"') :
    text ('"' :: '"' :: '"' :: (firstLineEnd cs ++
      (escapeLines 0 cs ++ '"' :: '"' :: '"' :: rest))) = some (cs, rest) := by
  -- The line feed behind the opening quotes is skipped, and the text does not begin with another.
  have hskip : skipFirstLineEnd (firstLineEnd cs ++
      (escapeLines 0 cs ++ '"' :: '"' :: '"' :: rest)) =
      escapeLines 0 cs ++ '"' :: '"' :: '"' :: rest := by
    apply skipFirstLineEnd_append
    intro hbroken
    cases cs with
    | nil => simp [escapeLines]
    | cons c cs =>
        by_cases hquote : c = '"'
        · subst hquote
          simp [escapeLines]
        · have hline : c ≠ '\n' := fun hline => hbroken (hline ▸ List.mem_cons_self)
          obtain ⟨d, ds, hescape, -, hd⟩ := exists_escape_eq_cons hquote hline
          simp [escapeLines_cons 0 cs hquote hline, hescape, hd]
  have hread := basicLines_escapeLines cs (Nat.zero_le 2) hrest
  simp only [List.replicate_zero, List.nil_append] at hread
  rw [text, hskip, hread]

theorem text_literalLines {cs rest : List Char} (hcontrol : ∀ c ∈ cs, isControl c = false)
    (htriple : hasTriple '\'' cs = false) (hrest : rest.head? ≠ some '\'') :
    text ('\'' :: '\'' :: '\'' :: (firstLineEnd cs ++
      (cs ++ '\'' :: '\'' :: '\'' :: rest))) = some (cs, rest) := by
  have hskip : skipFirstLineEnd (firstLineEnd cs ++ (cs ++ '\'' :: '\'' :: '\'' :: rest)) =
      cs ++ '\'' :: '\'' :: '\'' :: rest := by
    apply skipFirstLineEnd_append
    intro hbroken
    -- A text without line feeds has nothing in front that could be skipped.
    cases cs with
    | nil => simp
    | cons c cs =>
        have hc := hcontrol c List.mem_cons_self
        have hreturn : c ≠ '\r' := by
          intro heq
          subst heq
          exact absurd hc (by decide)
        have hline : c ≠ '\n' := fun hline => hbroken (hline ▸ List.mem_cons_self)
        simp [hreturn, hline]
  rw [text, hskip, literalLines_append hcontrol htriple hrest]

/-- A string reads back in whatever form it was written. -/
theorem text_quoteText {cs rest : List Char} (hdouble : rest.head? ≠ some '"')
    (hsingle : rest.head? ≠ some '\'') : text (quoteText cs ++ rest) = some (cs, rest) := by
  rw [quoteText]
  cases hform : quotingOf cs with
  | basic => simpa using text_basic hdouble
  | literal =>
      obtain ⟨htext, hquote⟩ := quotingOf_literal hform
      simpa using text_literal htext hquote hsingle
  | basicLines => simpa using text_basicLines hdouble
  | literalLines =>
      obtain ⟨hcontrol, htriple⟩ := quotingOf_literalLines hform
      simpa using text_literalLines hcontrol htriple hsingle

end ItemScoring.Toml
