import ItemScoring.Proofs.Toml.Numbers
import ItemScoring.Proofs.Toml.Strings
import ItemScoring.Toml.Reading

/-!
# Values that read back

The values of a model file are strings, numbers and lists of these (`Storable`).  The
writer has two layouts for a list, on one line or with a line per element; what the
reader sees of them differs only in the blanks and line ends that it skips, and in the
comma behind the last element.
-/

namespace ItemScoring.Toml

/-- A string, an integer that fits into 64 bits, or a finite float. -/
inductive Simple : Value → Prop
  | text (content : String) : Simple (.text content)
  | integer {n : Nat} (hn : Decimal.isInt64 n) : Simple (.integer n)
  | float {x : Float} (hx : x.isFinite) : Simple (.float x)

/-- A simple value or a list of simple values. -/
inductive Storable : Value → Prop
  | simple {v : Value} (hv : Simple v) : Storable v
  | list {elements : List Value} (h : ∀ v ∈ elements, Simple v) : Storable (.array elements)

/-! ### What a value starts with -/

/-- A quote, a minus or a digit comes first. -/
def StartsSimple (cs : List Char) : Prop :=
  ∃ c ∈ cs.head?, c = '"' ∨ c = '\'' ∨ c = '-' ∨ c.isDigit

theorem StartsSimple.exists_cons {cs : List Char} (h : StartsSimple cs) :
    ∃ c more, cs = c :: more ∧ c ≠ '\n' ∧ c ≠ '\r' ∧ isBlank c = false ∧ c ≠ '#' ∧ c ≠ ']' := by
  obtain ⟨c, hc, hstart⟩ := h
  cases cs with
  | nil => contradiction
  | cons d more =>
      obtain rfl := Option.some.inj hc
      refine ⟨d, more, rfl, ?_⟩
      -- The three signs are not among the five characters, nor is a digit.
      rcases hstart with rfl | rfl | rfl | hdigit
      · decide
      · decide
      · decide
      · have hspace := ne_of_isDigit hdigit (show ' '.isDigit = false from rfl)
        have htab := ne_of_isDigit hdigit (show '\t'.isDigit = false from rfl)
        refine ⟨ne_of_isDigit hdigit rfl, ne_of_isDigit hdigit rfl, ?_, ne_of_isDigit hdigit rfl,
          ne_of_isDigit hdigit rfl⟩
        simp [isBlank, hspace, htab]

theorem skipLines_cons {c : Char} {cs : List Char} (hline : c ≠ '\n') (hreturn : c ≠ '\r')
    (hblank : isBlank c = false) (hcomment : c ≠ '#') :
    skipLines false (c :: cs) = some (c :: cs) := by
  simp [skipLines, hreturn, hblank, hcomment]

theorem StartsSimple.skipLines {cs : List Char} (h : StartsSimple cs) :
    skipLines false cs = some cs := by
  obtain ⟨c, more, rfl, hline, hreturn, hblank, hcomment, -⟩ := h.exists_cons
  exact skipLines_cons hline hreturn hblank hcomment

theorem StartsSimple.append {cs : List Char} (h : StartsSimple cs) (more : List Char) :
    StartsSimple (cs ++ more) := by
  obtain ⟨c, hc, hstart⟩ := h
  cases cs with
  | nil => contradiction
  | cons d cs => exact ⟨c, hc, hstart⟩

theorem exists_quoteText_eq_cons (cs : List Char) :
    ∃ c more, quoteText cs = c :: more ∧ (c = '"' ∨ c = '\'') := by
  rw [quoteText]
  split <;> exact ⟨_, _, rfl, by decide⟩

theorem Simple.startsSimple {v : Value} (hv : Simple v) : StartsSimple v.write.toList := by
  cases hv with
  | text content =>
      obtain ⟨c, more, htext, hc⟩ := exists_quoteText_eq_cons content.toList
      refine ⟨c, by simp [Value.write, htext], ?_⟩
      rcases hc with rfl | rfl
      · exact .inl rfl
      · exact .inr (.inl rfl)
  | integer hn =>
      obtain ⟨c, hc, hstart⟩ := startsNumber_integer _
      exact ⟨c, by rwa [Value.write], .inr (.inr hstart)⟩
  | float hx =>
      obtain ⟨c, hc, hstart⟩ := startsNumber_float hx
      exact ⟨c, by rwa [Value.write], .inr (.inr hstart)⟩

/-! ### Simple values -/

theorem Delimited.head?_ne {rest : List Char} (h : Delimited rest) :
    rest.head? ≠ some '"' ∧ rest.head? ≠ some '\'' := by
  rcases h.exists_cons with ⟨c, cs, rfl, rfl | rfl | rfl⟩ <;> simp

/-- A number is no string, list or table. -/
theorem value_eq_scalar {cs : List Char} (room : Nat) (h : StartsNumber cs) :
    value room cs = scalar cs := by
  obtain ⟨c, hc, hstart⟩ := h
  cases cs with
  | nil => contradiction
  | cons d cs =>
      obtain rfl := Option.some.inj hc
      -- Strings, lists and tables begin with characters that no number begins with.
      have hne : ∀ e : Char, e.isDigit = false → e ≠ '-' → d ≠ e := by
        intro e hdigit hminus
        rcases hstart with rfl | hd
        · exact hminus.symm
        · exact ne_of_isDigit hd hdigit
      have hdouble := hne '"' rfl (by decide)
      have hsingle := hne '\'' rfl (by decide)
      have hlist := hne '[' rfl (by decide)
      have htable := hne '\x7b' rfl (by decide)
      cases room <;> simp [value, hdouble, hsingle, hlist, htable]

theorem StartsNumber.append {cs : List Char} (h : StartsNumber cs) (more : List Char) :
    StartsNumber (cs ++ more) := by
  obtain ⟨c, hc, hstart⟩ := h
  cases cs with
  | nil => contradiction
  | cons d cs => exact ⟨c, hc, hstart⟩

theorem Simple.value_write {v : Value} {rest : List Char} (hv : Simple v) (room : Nat)
    (hrest : Delimited rest) : value room (v.write.toList ++ rest) = some (v, rest) := by
  cases hv with
  | text content =>
      have hread := @text_quoteText content.toList rest hrest.head?_ne.1 hrest.head?_ne.2
      obtain ⟨c, more, htext, hc⟩ := exists_quoteText_eq_cons content.toList
      rw [htext, List.cons_append] at hread
      rcases hc with rfl | rfl <;> simp [Value.write, htext, value, hread]
  | integer hn =>
      rw [Value.write, value_eq_scalar room ((startsNumber_integer _).append rest)]
      exact scalar_integer hn hrest
  | float hx =>
      rw [Value.write, value_eq_scalar room ((startsNumber_float hx).append rest)]
      exact scalar_float hx hrest

/-! ### Lists -/

section Lists

variable {v : Value} {vs : List Value} {cs more rest : List Char} {room fuel : Nat}

theorem elements_nil (room fuel : Nat) (hcs : skipLines false cs = some (']' :: rest)) :
    elements (value room) (fuel + 1) cs = some ([], rest) := by
  simp [elements, hcs]

theorem skipLines_bracket (rest : List Char) : skipLines false (']' :: rest) = some (']' :: rest) :=
  skipLines_cons (by decide) (by decide) rfl (by decide)

/-- The element of a list that no comma follows. -/
theorem elements_last (hv : Simple v)
    (hcs : skipLines false cs = some (v.write.toList ++ ']' :: rest)) :
    elements (value room) (fuel + 1) cs = some ([v], rest) := by
  have hread := @Simple.value_write v (']' :: rest) hv room (.inr (.inl rfl))
  obtain ⟨c, tail, htext, -, -, -, -, hc⟩ := (hv.startsSimple.append (']' :: rest)).exists_cons
  rw [htext] at hcs hread
  simp [elements, hcs, hc, hread, skipLines_bracket]

theorem elements_next (hv : Simple v)
    (hcs : skipLines false cs = some (v.write.toList ++ ',' :: more))
    (hmore : elements (value room) fuel more = some (vs, rest)) :
    elements (value room) (fuel + 1) cs = some (v :: vs, rest) := by
  have hread := @Simple.value_write v (',' :: more) hv room (.inl rfl)
  have hcomma : skipLines false (',' :: more) = some (',' :: more) :=
    skipLines_cons (by decide) (by decide) rfl (by decide)
  obtain ⟨c, tail, htext, -, -, -, -, hc⟩ := (hv.startsSimple.append (',' :: more)).exists_cons
  rw [htext] at hcs hread
  simp [elements, hcs, hc, hread, hcomma, hmore]

/-- The induction is on the list; only what is left behind blanks and line ends matters. -/
theorem elements_joined (h : ∀ v ∈ vs, Simple v) (hfuel : vs.length < fuel)
    (hcs : skipLines false cs =
      skipLines false ((", ".intercalate (writeElements vs)).toList ++ ']' :: rest)) :
    elements (value room) fuel cs = some (vs, rest) := by
  induction vs generalizing cs fuel with
  | nil =>
      obtain ⟨fuel, rfl⟩ : ∃ more, fuel = more + 1 := ⟨fuel - 1, by grind⟩
      rw [writeElements, String.intercalate_nil] at hcs
      exact elements_nil room fuel (hcs.trans (skipLines_bracket rest))
  | cons v vs ih =>
      obtain ⟨fuel, rfl⟩ : ∃ more, fuel = more + 1 := ⟨fuel - 1, by grind⟩
      obtain ⟨hv, hmore⟩ := List.forall_mem_cons.mp h
      rw [List.length_cons] at hfuel
      cases vs with
      | nil =>
          have htext := (hv.startsSimple.append (']' :: rest)).skipLines
          rw [writeElements, writeElements, String.intercalate_singleton, htext] at hcs
          exact elements_last hv hcs
      | cons w vs =>
          -- The blank behind the comma is left to the next round.
          have htail : elements (value room) fuel
              (' ' :: ((", ".intercalate (writeElements (w :: vs))).toList ++ ']' :: rest)) =
                some (w :: vs, rest) := ih hmore (by omega) rfl
          have htext := (hv.startsSimple.append (',' :: ' ' ::
            ((", ".intercalate (writeElements (w :: vs))).toList ++ ']' :: rest))).skipLines
          apply elements_next hv _ htail
          rw [hcs, ← htext]
          simp [writeElements, String.intercalate_cons_cons]

/-- The lines of a list with a line per element. -/
def linesOf (vs : List Value) : List Char :=
  (String.join ((writeElements vs).map fun element => s!"    {element},\n")).toList

theorem linesOf_cons (v : Value) (vs : List Value) :
    linesOf (v :: vs) =
      ' ' :: ' ' :: ' ' :: ' ' :: (v.write.toList ++ ',' :: '\n' :: linesOf vs) := by
  simp [linesOf, writeElements, toString]

theorem elements_lines (h : ∀ v ∈ vs, Simple v) (hfuel : vs.length < fuel)
    (hcs : skipLines false cs = skipLines false (linesOf vs ++ ']' :: rest)) :
    elements (value room) fuel cs = some (vs, rest) := by
  -- Each element takes one step of the fuel, and the closing bracket another.
  induction vs generalizing cs fuel with
  | nil =>
      obtain ⟨fuel, rfl⟩ : ∃ more, fuel = more + 1 := ⟨fuel - 1, by grind⟩
      exact elements_nil room fuel (hcs.trans (skipLines_bracket rest))
  | cons v vs ih =>
      obtain ⟨fuel, rfl⟩ : ∃ more, fuel = more + 1 := ⟨fuel - 1, by grind⟩
      obtain ⟨hv, hmore⟩ := List.forall_mem_cons.mp h
      rw [List.length_cons] at hfuel
      have htail : elements (value room) fuel ('\n' :: (linesOf vs ++ ']' :: rest)) =
          some (vs, rest) := ih hmore (by omega) rfl
      have htext := (hv.startsSimple.append (',' :: '\n' :: (linesOf vs ++ ']' :: rest))).skipLines
      apply elements_next hv _ htail
      rw [hcs, linesOf_cons, ← htext]
      simp [skipLines, isBlank]

theorem length_pos_of_simple (hv : Simple v) : 0 < v.write.toList.length := by
  obtain ⟨c, tail, htext, -⟩ := hv.startsSimple.exists_cons
  rw [htext]
  exact Nat.zero_lt_succ _

theorem length_le_joined (h : ∀ v ∈ vs, Simple v) :
    vs.length ≤ (", ".intercalate (writeElements vs)).toList.length := by
  induction vs with
  | nil => exact Nat.zero_le _
  | cons v vs ih =>
      obtain ⟨hv, hmore⟩ := List.forall_mem_cons.mp h
      have hpos := length_pos_of_simple hv
      have hle := ih hmore
      cases vs with
      | nil =>
          rw [writeElements, writeElements, String.intercalate_singleton]
          exact hpos
      | cons w vs =>
          rw [writeElements] at hle
          rw [writeElements, writeElements, String.intercalate_cons_cons, String.toList_append,
            String.toList_append, List.length_append, List.length_append]
          simp only [List.length_cons] at hle ⊢
          omega

theorem length_le_linesOf (vs : List Value) : vs.length ≤ (linesOf vs).length := by
  induction vs with
  | nil => exact Nat.zero_le _
  | cons v vs ih =>
      simp only [linesOf_cons, List.length_cons, List.length_append]
      omega

theorem value_joined (room : Nat) (h : ∀ v ∈ vs, Simple v) :
    value (room + 1) ((Value.array vs).write.toList ++ rest) = some (.array vs, rest) := by
  have hfuel : vs.length <
      ((", ".intercalate (writeElements vs)).toList ++ ']' :: rest).length := by
    have hle := length_le_joined h
    rw [List.length_append, List.length_cons]
    omega
  have hread : elements (value room) _
      ((", ".intercalate (writeElements vs)).toList ++ ']' :: rest) = some (vs, rest) :=
    elements_joined h hfuel rfl
  have htext : (Value.array vs).write.toList ++ rest =
      '[' :: ((", ".intercalate (writeElements vs)).toList ++ ']' :: rest) := by
    simp [Value.write]
  rw [htext, value, hread]
  rfl

end Lists

/-! ### Storable values -/

theorem Storable.value_write {v : Value} {rest : List Char} (hv : Storable v) (style : Style)
    (room : Nat) (hrest : Delimited rest) :
    value (room + 1) ((style.write v).toList ++ rest) = some (v, rest) := by
  cases hv with
  | simple hv =>
      have hstyle : style.write v = v.write := by cases hv <;> rfl
      rw [hstyle]
      exact hv.value_write (room + 1) hrest
  | @list vs h =>
      match vs, style with
      | [], _ => exact value_joined room h
      | [_], _ => exact value_joined room h
      | _ :: _ :: _, .compact => exact value_joined room h
      | v :: w :: vs, .pretty =>
          have hle := length_le_linesOf (v :: w :: vs)
          have hfuel : (v :: w :: vs).length <
              ('\n' :: (linesOf (v :: w :: vs) ++ ']' :: rest)).length := by
            simp only [List.length_cons, List.length_append] at hle ⊢
            omega
          have hread : elements (value room) _ ('\n' :: (linesOf (v :: w :: vs) ++ ']' :: rest)) =
              some (v :: w :: vs, rest) := elements_lines h hfuel rfl
          have htext : (Style.pretty.write (.array (v :: w :: vs))).toList ++ rest =
              '[' :: '\n' :: (linesOf (v :: w :: vs) ++ ']' :: rest) := by
            simp [Style.write, linesOf]
          rw [htext, value, hread]
          rfl

end ItemScoring.Toml
