import Mathlib.Data.List.Basic

/-!
# Words between blanks

A rendered expression is a line of words with single blanks between them.  A word may hold
blanks itself, but only within its own parentheses, and so the end of a word can be seen:
it is followed by the first blank outside of all parentheses.

`level` counts open parentheses.  A text is `Nested least` if it closes what it opens and
has at least `least` parentheses open at every blank: words are `Nested 1`, lines are
`Nested 0`, and a line in parentheses is a word (`Nested.parenthesized`).  Two texts that
start with a word and a blank and are equal have the same word there (`IsWord.cancel`), and
by that lines are taken apart word by word (`eq_of_joined`).
-/

namespace ItemScoring.Words

/-! ### Open parentheses -/

/-- How many more parentheses a text opens than it closes. -/
def level (text : List Char) : Int := text.count '(' - text.count ')'

@[simp] theorem level_nil : level [] = 0 := rfl

@[simp] theorem level_append (first second : List Char) :
    level (first ++ second) = level first + level second := by
  simp only [level, List.count_append]
  push_cast
  omega

theorem level_cons (c : Char) (cs : List Char) : level (c :: cs) = level [c] + level cs :=
  level_append [c] cs

theorem level_eq_zero {text : List Char} (hopen : '(' ∉ text) (hclose : ')' ∉ text) :
    level text = 0 := by
  rw [level, List.count_eq_zero_of_not_mem hopen, List.count_eq_zero_of_not_mem hclose]
  rfl

/-- The text closes what it opens, and has at least `least` parentheses open at its blanks. -/
structure Nested (least : Int) (text : List Char) : Prop where
  closed : level text = 0
  open_at_blank : ∀ before after, text = before ++ ' ' :: after → least ≤ level before

/-- A text without blanks outside of its parentheses. -/
abbrev IsWord (text : List Char) : Prop := Nested 1 text

/-- A text that can be put into parentheses to become a word. -/
abbrev IsLine (text : List Char) : Prop := Nested 0 text

theorem IsWord.isLine {text : List Char} (h : IsWord text) : IsLine text := by
  refine ⟨h.closed, fun before after heq => ?_⟩
  have := h.open_at_blank before after heq
  omega

/-- Without blanks and parentheses a text is a word, even if it is empty. -/
theorem isWord_of_plain {text : List Char} (hblank : ' ' ∉ text) (hopen : '(' ∉ text)
    (hclose : ')' ∉ text) : IsWord text := by
  refine ⟨level_eq_zero hopen hclose, fun before after heq => ?_⟩
  exact absurd (by simp [heq]) hblank

theorem IsLine.parenthesized {text : List Char} (h : IsLine text) :
    IsWord ('(' :: (text ++ [')'])) := by
  have hopen : level ['('] = 1 := rfl
  have hclose : level [')'] = -1 := rfl
  refine ⟨by rw [level_cons, level_append, h.closed, hopen, hclose]; rfl, ?_⟩
  intro before after heq
  -- The blank is neither of the two parentheses.
  cases before with
  | nil => simp at heq
  | cons c before =>
      obtain ⟨rfl, hrest⟩ := List.cons.inj heq
      obtain ⟨inside, htext⟩ : ∃ inside, text = before ++ ' ' :: inside := by
        rcases List.append_eq_append_iff.mp hrest with ⟨more, -, hmore⟩ | ⟨more, htext, hmore⟩
        · cases more <;> simp at hmore
        · cases more with
          | nil => simp at hmore
          | cons d inside =>
              obtain ⟨rfl, -⟩ := List.cons.inj hmore
              exact ⟨inside, htext⟩
      have hlevel := h.open_at_blank before inside htext
      rw [level_cons, hopen]
      omega

/-- A word, a blank and a line make a line. -/
theorem IsWord.append {word line : List Char} (hword : IsWord word) (hline : IsLine line) :
    IsLine (word ++ ' ' :: line) := by
  have hblank : level [' '] = 0 := rfl
  constructor
  · rw [level_append, level_cons, hword.closed, hblank, hline.closed]
    rfl
  · intro before after heq
    -- The blank comes behind the word, is the one between word and line, or stands within the word.
    rcases List.append_eq_append_iff.mp heq with ⟨more, hbefore, hmore⟩ | ⟨more, hbefore, hmore⟩
    · cases more with
      | nil =>
          rw [List.append_nil] at hbefore
          have hclosed : level before = 0 := hbefore ▸ hword.closed
          omega
      | cons c more =>
          obtain ⟨rfl, hline'⟩ := List.cons.inj hmore
          have hlevel := hline.open_at_blank more after hline'
          rw [hbefore, level_append, level_cons, hword.closed, hblank]
          omega
    · cases more with
      | nil =>
          rw [List.append_nil] at hbefore
          have hclosed : level before = 0 := hbefore ▸ hword.closed
          omega
      | cons c more =>
          obtain ⟨rfl, -⟩ := List.cons.inj hmore
          have hlevel := hword.open_at_blank before more hbefore
          omega

/-! ### The end of a word -/

/-- No word goes on behind a blank at which another one has ended. -/
theorem IsWord.ne_append {word longer more : List Char} (hword : IsWord word)
    (hlonger : IsWord longer) : longer ≠ word ++ ' ' :: more := by
  intro heq
  have hlevel := hlonger.open_at_blank word more heq
  have hclosed := hword.closed
  omega

/-- The first word of a text can be seen. -/
theorem IsWord.cancel {word word' rest rest' : List Char} (hword : IsWord word)
    (hword' : IsWord word') (h : word ++ ' ' :: rest = word' ++ ' ' :: rest') :
    word = word' ∧ rest = rest' := by
  rcases List.append_eq_append_iff.mp h with ⟨more, heq, hmore⟩ | ⟨more, heq, hmore⟩
  · cases more with
    | nil => simp_all
    | cons c more =>
        obtain ⟨rfl, -⟩ := List.cons.inj hmore
        exact absurd heq (hword.ne_append hword')
  · cases more with
    | nil => simp_all
    | cons c more =>
        obtain ⟨rfl, -⟩ := List.cons.inj hmore
        exact absurd heq (hword'.ne_append hword)

/-! ### Lines of words -/

/-- Words with a sign between them. -/
def joined (sign : Char) (words : List (List Char)) : List Char :=
  [' ', sign, ' '].intercalate words

@[simp] theorem joined_singleton (sign : Char) (word : List Char) : joined sign [word] = word :=
  List.intercalate_singleton

theorem joined_cons_cons (sign : Char) (first second : List Char) (rest : List (List Char)) :
    joined sign (first :: second :: rest) =
      first ++ ' ' :: ([sign] ++ ' ' :: joined sign (second :: rest)) := by
  simp [joined, List.intercalate_cons_cons]

/-- A sign that is a word. -/
def IsSign (sign : Char) : Prop := sign ≠ ' ' ∧ sign ≠ '(' ∧ sign ≠ ')'

theorem IsSign.isWord {sign : Char} (h : IsSign sign) : IsWord [sign] := by
  obtain ⟨hblank, hopen, hclose⟩ := h
  exact isWord_of_plain (by simpa using hblank.symm) (by simpa using hopen.symm)
    (by simpa using hclose.symm)

theorem isLine_joined {sign : Char} (hsign : IsSign sign) {words : List (List Char)}
    (hwords : ∀ word ∈ words, IsWord word) : IsLine (joined sign words) := by
  induction words with
  | nil => exact (@isWord_of_plain [] (by simp) (by simp) (by simp)).isLine
  | cons first rest ih =>
      obtain ⟨hfirst, hrest⟩ := List.forall_mem_cons.mp hwords
      cases rest with
      | nil =>
          rw [joined_singleton]
          exact hfirst.isLine
      | cons second rest =>
          rw [joined_cons_cons]
          exact hfirst.append (hsign.isWord.append (ih hrest))

/-- Words can be told from the line that they make with a sign between them. -/
theorem eq_of_joined {sign : Char} (hsign : IsSign sign) {words words' : List (List Char)}
    (hne : words ≠ []) (hne' : words' ≠ []) (hwords : ∀ word ∈ words, IsWord word)
    (hwords' : ∀ word ∈ words', IsWord word) (h : joined sign words = joined sign words') :
    words = words' := by
  induction words generalizing words' with
  | nil => contradiction
  | cons first rest ih =>
      obtain ⟨first', rest', rfl⟩ := List.exists_cons_of_ne_nil hne'
      obtain ⟨hfirst, hrest⟩ := List.forall_mem_cons.mp hwords
      obtain ⟨hfirst', hrest'⟩ := List.forall_mem_cons.mp hwords'
      -- A single word is not the beginning of several, as a word ends where it is joined to
      -- another.
      cases rest with
      | nil =>
          cases rest' with
          | nil =>
              rw [joined_singleton, joined_singleton] at h
              rw [h]
          | cons second' rest' =>
              rw [joined_singleton, joined_cons_cons] at h
              exact absurd h (hfirst'.ne_append hfirst)
      | cons second rest =>
          cases rest' with
          | nil =>
              rw [joined_singleton, joined_cons_cons] at h
              exact absurd h.symm (hfirst.ne_append hfirst')
          | cons second' rest' =>
              rw [joined_cons_cons, joined_cons_cons] at h
              obtain ⟨rfl, hbehind⟩ := hfirst.cancel hfirst' h
              obtain ⟨-, hmore⟩ := hsign.isWord.cancel hsign.isWord hbehind
              rw [ih (by simp) (by simp) hrest hrest' hmore]

end ItemScoring.Words
