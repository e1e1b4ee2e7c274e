import ItemScoring.Expr.Rendering
import ItemScoring.Proofs.Expr.Normal
import ItemScoring.Proofs.Expr.Words
import ItemScoring.Proofs.Number.Texts

/-!
# Rendering keeps the grouping

Expressions of different normal forms have different texts, if the names of their columns
can be told from the other parts of a text (`IsPlainName`).

What is compared is the text of an expression as a term of another one (`termText`), with
parentheses around a product or sum of several terms.  This text is the same for an
expression and its normal form (`termText_normal`), and it is a word (`isWord_termText`).
So the text of a product or a sum of several terms is a line of words in parentheses, and
so is the text of an indicator: `Opens` takes off the first two words, the second of which
says what the expression is.  From there on induction over the normal form gives the terms
(`IsNormal.eq_of_termText_eq`).

Without the parentheses, the text of a whole expression tells whether it has several
terms: a blank outside of all parentheses is in a line but not in a word
(`termText_eq_of_render_eq`).
-/

namespace ItemScoring

open Words

namespace Expr

/-! ### Texts of the parts -/

/-- A name of a column that no other part of a rendered expression can be taken for.  It may be
empty, and hold white space other than blanks. -/
structure IsPlainName (name : String) : Prop where
  blank : ' ' ∉ name.toList
  opening : '(' ∉ name.toList
  closing : ')' ∉ name.toList
  notNumber : ∀ x, numbers.render x ≠ name

theorem floatOfText?_numbers (x : Float) : Decimal.floatOfText? (numbers.render x) = some x :=
  Decimal.floatOfText?_render rfl rfl x

/-- What is not read as a number is not the text of one. -/
theorem notNumber_of_floatOfText? {name : String} (h : Decimal.floatOfText? name = none)
    (x : Float) : numbers.render x ≠ name := by
  intro heq
  rw [← heq, floatOfText?_numbers] at h
  contradiction

/-- Doubles have texts of their own; all that are not numbers are one double. -/
theorem render_numbers_injective {x y : Float} (h : numbers.render x = numbers.render y) :
    x = y := by
  have hread := floatOfText?_numbers x
  rw [h, floatOfText?_numbers] at hread
  exact (Option.some.inj hread).symm

theorem not_mem_numbers {c : Char} (hdigit : c.isDigit = false)
    (hletters : c ∉ ['-', '.', 'i', 'n', 'f'] ++ numbers.nan.toList) (x : Float) :
    c ∉ (numbers.render x).toList := by
  intro hmem
  rcases Layout.mem_render rfl hmem with h | h | h
  · rw [hdigit] at h
    contradiction
  · exact hletters (List.mem_append_left _ h)
  · exact hletters (List.mem_append_right _ h)

theorem isWord_numbers (x : Float) : IsWord (numbers.render x).toList :=
  isWord_of_plain (not_mem_numbers rfl (by decide) x) (not_mem_numbers rfl (by decide) x)
    (not_mem_numbers rfl (by decide) x)

theorem IsPlainName.isWord {name : String} (h : IsPlainName name) : IsWord name.toList :=
  isWord_of_plain h.blank h.opening h.closing

theorem isWord_symbol (test : Comparison) : IsWord test.symbol.toList := by
  cases test <;> exact isWord_of_plain (by decide) (by decide) (by decide)

end Expr

namespace Operator

/-- The sign between the terms. -/
def sign : Operator → Char
  | times => '*'
  | plus => '+'

theorem isSign_sign (op : Operator) : IsSign op.sign := by
  cases op <;> exact ⟨by decide, by decide, by decide⟩

theorem sign_injective {first second : Operator} (h : first.sign = second.sign) :
    first = second := by
  cases first <;> cases second <;> first | rfl | contradiction

end Operator

namespace Expr

/-! ### Texts of terms -/

/-- The text of an expression inside a product or sum. -/
def termText (e : Expr) : List Char :=
  if e.isCompound then '(' :: (e.render.toList ++ [')']) else e.render.toList

theorem toList_renderTerms (terms : List Expr) :
    (renderTerms terms).map String.toList = terms.map termText := by
  induction terms with
  | nil => rfl
  | cons first rest ih =>
      rw [renderTerms, List.map_cons, List.map_cons, ih, termText]
      split <;> simp [String.toList_append, toString]

theorem render_join_nil (op : Operator) : (op.join []).render = numbers.render op.neutral := by
  cases op <;> decide +kernel

theorem render_join {terms : List Expr} (op : Operator) (hne : terms ≠ []) :
    (op.join terms).render.toList = joined op.sign (terms.map termText) := by
  obtain ⟨first, rest, rfl⟩ := List.exists_cons_of_ne_nil hne
  rw [joined, ← toList_renderTerms]
  cases op <;> simp only [Operator.join, render, String.toList_intercalate] <;> rfl

theorem isCompound_join (op : Operator) (terms : List Expr) :
    (op.join terms).isCompound = decide (1 < terms.length) := by
  cases op <;> rfl

theorem termText_join_nil (op : Operator) :
    termText (op.join []) = (numbers.render op.neutral).toList := by
  rw [termText, isCompound_join, render_join_nil]
  rfl

theorem termText_join_singleton (op : Operator) (e : Expr) :
    termText (op.join [e]) = termText e := by
  rw [termText, isCompound_join, render_join op (by simp)]
  simp

theorem termText_join {terms : List Expr} (op : Operator) (hseveral : 1 < terms.length) :
    termText (op.join terms) = '(' :: (joined op.sign (terms.map termText) ++ [')']) := by
  have hne : terms ≠ [] := by
    intro hnil
    simp [hnil] at hseveral
  rw [termText, isCompound_join, render_join op hne]
  simp [hseveral]

/-- Inside a product or sum an expression looks like its normal form. -/
theorem termText_normal (e : Expr) : termText e.normal = termText e := by
  induction e using join_induction with
  | coefficient value => rw [normal]
  | column name => rw [normal]
  | indicator name test threshold => rw [normal]
  | join op terms ih =>
      rw [normal_join]
      -- Sums and products of fewer than two terms are written as their normal forms are: as a
      -- number, or as their only term.
      cases terms with
      | nil => rw [termText_join_nil]; rfl
      | cons first rest =>
          cases rest with
          | nil => rw [termText_join_singleton, ← ih first List.mem_cons_self]; rfl
          | cons second rest =>
              have htexts : ((first :: second :: rest).map normal).map termText =
                  (first :: second :: rest).map termText := by
                rw [List.map_map]
                exact List.map_congr_left ih
              have hcollapse : op.collapse ((first :: second :: rest).map normal) =
                  op.join ((first :: second :: rest).map normal) := rfl
              rw [hcollapse, termText_join op (by simp), termText_join op (by simp), htexts]

theorem termText_coefficient (value : Float) :
    termText (coefficient value) = (numbers.render value).toList := by
  simp [termText, isCompound, render]

theorem termText_column (name : String) : termText (column name) = name.toList := by
  simp [termText, isCompound, render]

/-! ### Terms are words -/

/-- All columns that the expression reads have plain names. -/
def HasPlainNames (e : Expr) : Prop := ∀ name ∈ e.mentions, IsPlainName name

theorem HasPlainNames.column {name : String} (h : HasPlainNames (column name)) :
    IsPlainName name :=
  h name (by simp [mentions])

theorem HasPlainNames.indicator {name : String} {test : Comparison} {threshold : Float}
    (h : HasPlainNames (indicator name test threshold)) : IsPlainName name :=
  h name (by simp [mentions])

theorem HasPlainNames.of_mem {op : Operator} {terms : List Expr}
    (h : HasPlainNames (op.join terms)) : ∀ e ∈ terms, HasPlainNames e := by
  intro e he name hname
  apply h
  rw [mentions_join]
  exact List.mem_flatMap.mpr ⟨e, he, hname⟩

theorem HasPlainNames.normal {e : Expr} (h : HasPlainNames e) : HasPlainNames e.normal := by
  intro name hname
  rw [mentions_normal] at hname
  exact h name hname

theorem termText_indicator (name : String) (test : Comparison) (threshold : Float) :
    termText (indicator name test threshold) =
      '(' :: (name.toList ++ ' ' :: (test.symbol.toList ++
        ' ' :: (numbers.render threshold).toList) ++ [')']) := by
  simp [termText, isCompound, render, String.toList_append, toString]

theorem isWord_termText {e : Expr} (h : HasPlainNames e) : IsWord (termText e) := by
  induction e using join_induction with
  | coefficient value =>
      rw [termText_coefficient]
      exact isWord_numbers value
  | column name =>
      rw [termText_column]
      exact h.column.isWord
  | indicator name test threshold =>
      rw [termText_indicator]
      apply IsLine.parenthesized
      apply h.indicator.isWord.append
      exact (isWord_symbol test).append (isWord_numbers threshold).isLine
  | join op terms ih =>
      have hterms : ∀ e ∈ terms, IsWord (termText e) := fun e he => ih e he (h.of_mem e he)
      -- Only two terms or more are put in parentheses.
      cases terms with
      | nil =>
          rw [termText_join_nil]
          exact isWord_numbers _
      | cons first rest =>
          cases rest with
          | nil =>
              rw [termText_join_singleton]
              exact hterms first List.mem_cons_self
          | cons second rest =>
              rw [termText_join op (by simp)]
              apply IsLine.parenthesized
              exact isLine_joined op.isSign_sign (List.forall_mem_map.mpr hterms)

/-! ### Taking terms apart -/

/-- The text is in parentheses, and two words and something more are between them. -/
structure Opens (text first second more : List Char) : Prop where
  text_eq : text = '(' :: (first ++ ' ' :: (second ++ ' ' :: more) ++ [')'])
  first : IsWord first
  second : IsWord second

theorem Opens.unique {text first second more first' second' more' : List Char}
    (h : Opens text first second more) (h' : Opens text first' second' more') :
    first = first' ∧ second = second' ∧ more = more' := by
  have hbody : first ++ ' ' :: (second ++ ' ' :: more) =
      first' ++ ' ' :: (second' ++ ' ' :: more') := by
    have htext := h.text_eq.symm.trans h'.text_eq
    exact List.append_cancel_right (List.cons.inj htext).2
  obtain ⟨hfirst, hrest⟩ := h.first.cancel h'.first hbody
  obtain ⟨hsecond, hmore⟩ := h.second.cancel h'.second hrest
  exact ⟨hfirst, hsecond, hmore⟩

theorem Opens.opening_mem {text first second more : List Char} (h : Opens text first second more) :
    '(' ∈ text := by
  rw [h.text_eq]
  exact List.mem_cons_self

theorem opens_indicator {name : String} (hname : IsPlainName name) (test : Comparison)
    (threshold : Float) : Opens (termText (indicator name test threshold)) name.toList
      test.symbol.toList (numbers.render threshold).toList :=
  ⟨termText_indicator name test threshold, hname.isWord, isWord_symbol test⟩

/-- The first word in a product or sum of several terms is a term, and the second is the sign. -/
theorem IsNormal.opens_join {op : Operator} {terms : List Expr}
    (hnormal : (op.join terms).IsNormal) (hplain : HasPlainNames (op.join terms)) :
    ∃ first more, Opens (termText (op.join terms)) first [op.sign] more := by
  obtain ⟨hseveral, -⟩ := isNormal_join.mp hnormal
  match terms, hseveral with
  | first :: second :: rest, hseveral =>
    have hfirst : IsWord (termText first) :=
      isWord_termText (hplain.of_mem first List.mem_cons_self)
    refine ⟨termText first, joined op.sign ((second :: rest).map termText), ?_, hfirst,
      op.isSign_sign.isWord⟩
    rw [termText_join op hseveral, List.map_cons, List.map_cons, joined_cons_cons]

theorem eq_of_termText_join_eq {op : Operator} {terms terms' : List Expr}
    (hseveral : 1 < terms.length) (hseveral' : 1 < terms'.length)
    (hplain : HasPlainNames (op.join terms)) (hplain' : HasPlainNames (op.join terms'))
    (h : termText (op.join terms) = termText (op.join terms')) :
    terms.map termText = terms'.map termText := by
  have hwords : ∀ word ∈ terms.map termText, IsWord word :=
    List.forall_mem_map.mpr fun e he => isWord_termText (hplain.of_mem e he)
  have hwords' : ∀ word ∈ terms'.map termText, IsWord word :=
    List.forall_mem_map.mpr fun e he => isWord_termText (hplain'.of_mem e he)
  have hne : terms.map termText ≠ [] := by
    intro hnil
    simp [List.map_eq_nil_iff.mp hnil] at hseveral
  have hne' : terms'.map termText ≠ [] := by
    intro hnil
    simp [List.map_eq_nil_iff.mp hnil] at hseveral'
  -- Both texts are words in parentheses, between which the same sign stands.
  rw [termText_join op hseveral, termText_join op hseveral'] at h
  have hjoined := List.append_cancel_right (List.cons.inj h).2
  exact eq_of_joined op.isSign_sign hne hne' hwords hwords' hjoined

theorem eq_of_map_eq {α β : Type} {f : α → β} {list list' : List α}
    (h : ∀ a ∈ list, ∀ a' ∈ list', f a = f a' → a = a') (hmap : list.map f = list'.map f) :
    list = list' := by
  induction list generalizing list' with
  | nil => simpa using hmap.symm
  | cons first rest ih =>
      cases list' with
      | nil => simp at hmap
      | cons first' rest' =>
          obtain ⟨hfirst, hrest⟩ := List.cons.inj hmap
          rw [h first List.mem_cons_self first' List.mem_cons_self hfirst,
            ih (fun a ha a' ha' => h a (List.mem_cons_of_mem _ ha) a' (List.mem_cons_of_mem _ ha'))
              hrest]

/-- Whether the text of a normal form starts with a parenthesis. -/
def isOpened : Expr → Bool
  | coefficient _ => false
  | column _ => false
  | _ => true

theorem isOpened_join (op : Operator) (terms : List Expr) : (op.join terms).isOpened = true := by
  cases op <;> rfl

theorem IsNormal.opening_mem_iff {e : Expr} (hnormal : e.IsNormal) (hplain : HasPlainNames e) :
    '(' ∈ termText e ↔ e.isOpened = true := by
  induction e using join_induction with
  | coefficient value =>
      have hnot := @not_mem_numbers '(' rfl (by decide) value
      simpa [termText_coefficient, isOpened] using hnot
  | column name => simpa [termText_column, isOpened] using hplain.column.opening
  | indicator name test threshold =>
      simpa [isOpened] using (opens_indicator hplain.indicator test threshold).opening_mem
  | join op terms =>
      obtain ⟨hseveral, -⟩ := isNormal_join.mp hnormal
      simp [termText_join op hseveral, isOpened_join]

theorem IsNormal.isOpened_eq {e e' : Expr} (hnormal : e.IsNormal) (hnormal' : e'.IsNormal)
    (hplain : HasPlainNames e) (hplain' : HasPlainNames e') (h : termText e = termText e') :
    e.isOpened = e'.isOpened := by
  rw [Bool.eq_iff_iff, ← hnormal.opening_mem_iff hplain, ← hnormal'.opening_mem_iff hplain', h]

theorem symbol_injective {test test' : Comparison} (h : test.symbol = test'.symbol) :
    test = test' := by
  cases test <;> cases test' <;> first | rfl | contradiction

theorem symbol_ne_sign (test : Comparison) (op : Operator) : test.symbol.toList ≠ [op.sign] := by
  cases test <;> cases op <;> decide

/-- Normal forms are determined by their texts inside products and sums. -/
theorem IsNormal.eq_of_termText_eq {e e' : Expr} (hnormal : e.IsNormal) (hnormal' : e'.IsNormal)
    (hplain : HasPlainNames e) (hplain' : HasPlainNames e') (h : termText e = termText e') :
    e = e' := by
  induction e using join_induction generalizing e' with
  | coefficient value =>
      have hopened := hnormal.isOpened_eq hnormal' hplain hplain' h
      rw [termText_coefficient] at h
      -- A number opens no parenthesis, so the other text is a number or a name, and no name is a
      -- number.
      cases e' with
      | coefficient value' =>
          rw [termText_coefficient, String.toList_inj] at h
          rw [render_numbers_injective h]
      | column name' =>
          rw [termText_column, String.toList_inj] at h
          exact absurd h (hplain'.column.notNumber value)
      | indicator => contradiction
      | product => contradiction
      | sum => contradiction
  | column name =>
      have hopened := hnormal.isOpened_eq hnormal' hplain hplain' h
      rw [termText_column] at h
      cases e' with
      | coefficient value' =>
          rw [termText_coefficient, String.toList_inj] at h
          exact absurd h.symm (hplain.column.notNumber value')
      | column name' =>
          rw [termText_column, String.toList_inj] at h
          rw [h]
      | indicator => contradiction
      | product => contradiction
      | sum => contradiction
  -- What stands in parentheses is told apart by what follows the first word in them: the symbol of
  -- a test or the sign of an operation.
  | indicator name test threshold =>
      have hopened := hnormal.isOpened_eq hnormal' hplain hplain' h
      have hopens := opens_indicator hplain.indicator test threshold
      rw [h] at hopens
      induction e' using join_induction with
      | coefficient => contradiction
      | column => contradiction
      | indicator name' test' threshold' =>
          have hopens' := opens_indicator hplain'.indicator test' threshold'
          obtain ⟨hname, htest, hthreshold⟩ := hopens.unique hopens'
          rw [String.toList_inj.mp hname, symbol_injective (String.toList_inj.mp htest),
            render_numbers_injective (String.toList_inj.mp hthreshold)]
      | join op' terms' =>
          obtain ⟨first, more, hopens'⟩ := hnormal'.opens_join hplain'
          exact absurd (hopens.unique hopens').2.1 (symbol_ne_sign test op')
  | join op terms ih =>
      have hopened := hnormal.isOpened_eq hnormal' hplain hplain' h
      rw [isOpened_join] at hopened
      obtain ⟨first, more, hopens⟩ := hnormal.opens_join hplain
      rw [h] at hopens
      induction e' using join_induction with
      | coefficient => contradiction
      | column => contradiction
      | indicator name' test' threshold' =>
          have hopens' := opens_indicator hplain'.indicator test' threshold'
          exact absurd (hopens'.unique hopens).2.1 (symbol_ne_sign test' op)
      | join op' terms' =>
          obtain ⟨first', more', hopens'⟩ := hnormal'.opens_join hplain'
          obtain ⟨-, hsign, -⟩ := hopens.unique hopens'
          obtain rfl := Operator.sign_injective (List.singleton_inj.mp hsign)
          obtain ⟨hseveral, hterms⟩ := isNormal_join.mp hnormal
          obtain ⟨hseveral', hterms'⟩ := isNormal_join.mp hnormal'
          -- The same sign joins texts that are the same one by one, and so are the terms, by
          -- induction.
          have htexts := eq_of_termText_join_eq hseveral hseveral' hplain hplain' h
          have hequal : terms = terms' := by
            apply eq_of_map_eq _ htexts
            intro a ha a' ha' heq
            exact ih a ha (hterms a ha) (hterms' a' ha') (hplain.of_mem a ha)
              (hplain'.of_mem a' ha') heq
          rw [hequal]

/-! ### Whole expressions -/

theorem exists_of_isCompound {e : Expr} (h : e.isCompound = true) :
    ∃ op first second rest, e = Operator.join op (first :: second :: rest) := by
  induction e using join_induction with
  | coefficient => contradiction
  | column => contradiction
  | indicator => contradiction
  | join op terms =>
      rw [isCompound_join, decide_eq_true_eq] at h
      match terms, h with
      | first :: second :: rest, _ => exact ⟨op, first, second, rest, rfl⟩

/-- The text of several terms is not that of a word. -/
theorem not_isWord_render {e : Expr} (hplain : HasPlainNames e) (h : e.isCompound = true) :
    ¬ IsWord e.render.toList := by
  intro hword
  obtain ⟨op, first, second, rest, rfl⟩ := exists_of_isCompound h
  have hfirst : IsWord (termText first) :=
    isWord_termText (hplain.of_mem first List.mem_cons_self)
  rw [render_join op (by simp), List.map_cons, List.map_cons, joined_cons_cons] at hword
  exact hfirst.ne_append hword rfl

theorem isWord_render {e : Expr} (hplain : HasPlainNames e) (h : e.isCompound = false) :
    IsWord e.render.toList := by
  have hword := isWord_termText hplain
  rwa [termText, if_neg (by simp [h])] at hword

/-- Expressions of one text have one text as terms. -/
theorem termText_eq_of_render_eq {e e' : Expr} (hplain : HasPlainNames e)
    (hplain' : HasPlainNames e') (h : e.render = e'.render) : termText e = termText e' := by
  have hcompound : e.isCompound = e'.isCompound := by
    cases hleft : e.isCompound <;> cases hright : e'.isCompound
    · rfl
    · exact absurd (h ▸ isWord_render hplain hleft) (not_isWord_render hplain' hright)
    · exact absurd (h ▸ isWord_render hplain' hright) (not_isWord_render hplain hleft)
    · rfl
  rw [termText, termText, h, hcompound]

/-- Expressions with one text have one normal form, if the names of their columns hold neither
blanks nor parentheses and are not the texts of numbers. -/
theorem render_keeps_grouping {first second : Expr}
    (hfirst : ∀ name ∈ first.columns, IsPlainName name)
    (hsecond : ∀ name ∈ second.columns, IsPlainName name)
    (htext : first.render = second.render) : first.normal = second.normal := by
  have hplain : HasPlainNames first := fun name hname => hfirst name (mem_columns.mpr hname)
  have hplain' : HasPlainNames second := fun name hname => hsecond name (mem_columns.mpr hname)
  apply (isNormal_normal first).eq_of_termText_eq (isNormal_normal second) hplain.normal
    hplain'.normal
  calc termText first.normal = termText first := termText_normal first
    _ = termText second := termText_eq_of_render_eq hplain hplain' htext
    _ = termText second.normal := (termText_normal second).symm

/-- The score plus one, once with a product and a sum of one term, and once with a product of
none. -/
theorem render_keeps_grouping_score :
    let first := sum [product [column "score"], sum [coefficient 1]]
    let second := sum [column "score", product []]
    (∀ name ∈ first.columns, IsPlainName name) ∧ (∀ name ∈ second.columns, IsPlainName name) ∧
      first.render = second.render ∧ first.normal = second.normal := by
  intro first second
  have hscore : IsPlainName "score" :=
    ⟨by decide, by decide, by decide, notNumber_of_floatOfText? (by decide +kernel)⟩
  have hcolumns : first.columns = ["score"] ∧ second.columns = ["score"] := by decide +kernel
  have hfirst : ∀ name ∈ first.columns, IsPlainName name := by
    rw [hcolumns.1]
    exact List.forall_mem_singleton.mpr hscore
  have hsecond : ∀ name ∈ second.columns, IsPlainName name := by
    rw [hcolumns.2]
    exact List.forall_mem_singleton.mpr hscore
  have htext : first.render = second.render := by decide +kernel
  exact ⟨hfirst, hsecond, htext, render_keeps_grouping hfirst hsecond htext⟩

end Expr

end ItemScoring
