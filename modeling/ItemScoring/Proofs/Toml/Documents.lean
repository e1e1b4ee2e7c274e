import ItemScoring.Proofs.Toml.Values

/-!
# Documents that read back

A document of plain keys and storable values is read back as the entries it describes
(`parse?_write`).  The text is taken apart line by line from its end: `Reads` says that
some text, whatever stands in front of it, is read as some statements.  Any number of
rounds above the number of characters will do, since each line takes one round and at
least one character.
-/

namespace ItemScoring.Toml

/-! ### Keys -/

/-- A name that is written without quotes. -/
def IsBareKey (name : String) : Prop :=
  name.toList ≠ [] ∧ ∀ c ∈ name.toList, isBareKeyChar c = true

instance (name : String) : Decidable (IsBareKey name) :=
  decidable_of_iff (name.toList ≠ [] ∧ name.toList.all isBareKeyChar = true) (by simp [IsBareKey])

theorem writePath_bare {name : String} (h : IsBareKey name) : writePath [] name = name := by
  have hempty : name ≠ "" := by
    intro heq
    subst heq
    exact h.1 rfl
  have hall : (name.toList.all fun c => c.isAlphanum || c == '_' || c == '-') = true := by
    apply List.all_eq_true.mpr
    intro c hc
    simpa [isBareKeyChar, or_assoc] using h.2 c hc
  have hkey : writeKey name = name := by
    rw [writeKey, hall]
    simp [hempty]
  simp [writePath, hkey]

theorem ne_of_isBareKeyChar {c d : Char} (hc : isBareKeyChar c = true)
    (hd : isBareKeyChar d = false) : c ≠ d := by
  intro heq
  subst heq
  simp [hd] at hc

theorem IsBareKey.exists_cons {name : String} (h : IsBareKey name) :
    ∃ c cs, name.toList = c :: cs ∧ isBareKeyChar c = true := by
  obtain ⟨c, cs, hname⟩ := List.exists_cons_of_ne_nil h.1
  exact ⟨c, cs, hname, h.2 c (hname ▸ List.mem_cons_self)⟩

/-- A plain name is read up to the blank or bracket behind it. -/
theorem keyPart_bare {name : String} {c : Char} {cs : List Char} (h : IsBareKey name)
    (hc : isBareKeyChar c = false) :
    keyPart (name.toList ++ c :: cs) = some (name, c :: cs) := by
  obtain ⟨d, ds, hname, hd⟩ := h.exists_cons
  have hdouble := ne_of_isBareKeyChar hd (show isBareKeyChar '"' = false by decide)
  have hsingle := ne_of_isBareKeyChar hd (show isBareKeyChar '\'' = false by decide)
  have hname' : String.ofList (d :: ds) = name := by rw [← hname, String.ofList_toList]
  have htaken : (d :: (ds ++ c :: cs)).takeWhile isBareKeyChar = d :: ds := by
    rw [← List.cons_append, ← hname, List.takeWhile_append_of_pos h.2]
    simp [hc]
  have hleft : (d :: (ds ++ c :: cs)).dropWhile isBareKeyChar = c :: cs := by
    rw [← List.cons_append, ← hname, List.dropWhile_append_of_pos h.2]
    simp [hc]
  rw [hname, List.cons_append]
  simp [keyPart, hdouble, hsingle, htaken, hleft, hname']

theorem skipBlanks_bare {name : String} (h : IsBareKey name) (cs : List Char) :
    skipBlanks (name.toList ++ cs) = name.toList ++ cs := by
  obtain ⟨d, ds, hname, hd⟩ := h.exists_cons
  have hspace := ne_of_isBareKeyChar hd (show isBareKeyChar ' ' = false by decide)
  have htab := ne_of_isBareKeyChar hd (show isBareKeyChar '\t' = false by decide)
  simp [hname, skipBlanks, isBlank, hspace, htab]

theorem key_bare {name : String} {c : Char} {cs : List Char} (room : Nat) (h : IsBareKey name)
    (hc : isBareKeyChar c = false) (hdot : (skipBlanks (c :: cs)).head? ≠ some '.') :
    key (room + 1) (name.toList ++ c :: cs) = some (([], name), skipBlanks (c :: cs)) := by
  rw [key, skipBlanks_bare h, keyPart_bare h hc]
  simp only [Option.bind_eq_bind, Option.bind_some]
  split
  next heq => simp [heq] at hdot
  next => rfl

/-! ### Lines -/

theorem endOfLine?_newline (cs : List Char) : endOfLine? ('\n' :: cs) = some cs := by
  simp [endOfLine?, skipBlanks, skipComment, isBlank, lineEnd?]

/-- Some text, whatever stands in front of it, is read as some statements. -/
def Reads (cs : List Char) (read : List Statement) : Prop :=
  ∀ fuel, cs.length < fuel → statements fuel cs = some read

theorem reads_nil : Reads [] [] := by
  intro fuel hfuel
  obtain ⟨fuel, rfl⟩ : ∃ more, fuel = more + 1 := ⟨fuel - 1, by grind⟩
  rfl

theorem Reads.newline {cs : List Char} {read : List Statement} (h : Reads cs read) :
    Reads ('\n' :: cs) read := by
  intro fuel hfuel
  rw [List.length_cons] at hfuel
  obtain ⟨fuel, rfl⟩ : ∃ more, fuel = more + 1 := ⟨fuel - 1, by omega⟩
  simp [statements, skipBlanks, isBlank, h fuel (by omega)]

theorem header_bare {name : String} (h : IsBareKey name) (cs : List Char) :
    header true (name.toList ++ ']' :: ']' :: '\n' :: cs) =
      some (.header true [] name, cs) := by
  have hkey := @key_bare name ']' (']' :: '\n' :: cs) 78 h (by decide)
    (by simp [skipBlanks, isBlank])
  have hblanks : skipBlanks (']' :: ']' :: '\n' :: cs) = ']' :: ']' :: '\n' :: cs := by
    simp [skipBlanks, isBlank]
  simp [header, nestingLimit, hkey, hblanks, expect, endOfLine?_newline]

theorem Reads.header {name : String} {cs : List Char} {read : List Statement}
    (hname : IsBareKey name) (h : Reads cs read) :
    Reads ('[' :: '[' :: (name.toList ++ ']' :: ']' :: '\n' :: cs))
      (.header true [] name :: read) := by
  intro fuel hfuel
  simp only [List.length_cons, List.length_append] at hfuel
  obtain ⟨fuel, rfl⟩ : ∃ more, fuel = more + 1 := ⟨fuel - 1, by omega⟩
  simp [statements, skipBlanks, isBlank, header_bare hname, h fuel (by omega)]

theorem Storable.skipBlanks_write {v : Value} (hv : Storable v) (style : Style)
    (rest : List Char) :
    skipBlanks ((style.write v).toList ++ rest) = (style.write v).toList ++ rest := by
  cases hv with
  | simple hv =>
      have hstyle : style.write v = v.write := by cases hv <;> rfl
      obtain ⟨c, more, htext, -, -, hblank, -⟩ := (hv.startsSimple.append rest).exists_cons
      rw [hstyle, htext]
      simp [skipBlanks, hblank]
  | @list vs h =>
      match vs, style with
      | [], _ => simp [Style.write, Value.write, skipBlanks, isBlank]
      | [_], _ => simp [Style.write, Value.write, skipBlanks, isBlank]
      | _ :: _ :: _, .compact => simp [Style.write, Value.write, skipBlanks, isBlank]
      | _ :: _ :: _, .pretty => simp [Style.write, skipBlanks, isBlank]

/-- An entry with a plain key and a storable value. -/
def IsPlainEntry (written : List String × String × Value) : Prop :=
  written.1 = [] ∧ IsBareKey written.2.1 ∧ Storable written.2.2

/-- The statement that an entry is. -/
def statementOf (written : List String × String × Value) : Statement :=
  .entry written.1 written.2.1 written.2.2

theorem entry_bare {name : String} {v : Value} (hname : IsBareKey name) (hv : Storable v)
    (style : Style) (cs : List Char) :
    entry (value nestingLimit) (name.toList ++ ' ' :: '=' :: ' ' ::
      ((style.write v).toList ++ '\n' :: cs)) = some (([], name, v), '\n' :: cs) := by
  have hblanks : skipBlanks (' ' :: '=' :: ' ' :: ((style.write v).toList ++ '\n' :: cs)) =
      '=' :: ' ' :: ((style.write v).toList ++ '\n' :: cs) := by
    simp [skipBlanks, isBlank]
  have hkey := @key_bare name ' ' ('=' :: ' ' :: ((style.write v).toList ++ '\n' :: cs)) 78 hname
    (by decide) (by simp [hblanks])
  have hgap : skipBlanks (' ' :: ((style.write v).toList ++ '\n' :: cs)) =
      (style.write v).toList ++ '\n' :: cs := hv.skipBlanks_write style ('\n' :: cs)
  have hread := @Storable.value_write v ('\n' :: cs) hv style 78 (.inr (.inr rfl))
  simp [entry, nestingLimit, hkey, hblanks, expect, hgap, hread]

theorem toList_writeEntry {name : String} (hname : IsBareKey name) (style : Style) (v : Value) :
    (style.writeEntry ([], name, v)).toList =
      name.toList ++ ' ' :: '=' :: ' ' :: ((style.write v).toList ++ ['\n']) := by
  simp [Style.writeEntry, writePath_bare hname, toString]

theorem Reads.entry {written : List String × String × Value} {cs : List Char}
    {read : List Statement} (hwritten : IsPlainEntry written) (style : Style)
    (h : Reads cs read) :
    Reads ((style.writeEntry written).toList ++ cs) (statementOf written :: read) := by
  obtain ⟨path, name, v⟩ := written
  obtain ⟨rfl, hname, hv⟩ : path = [] ∧ IsBareKey name ∧ Storable v := hwritten
  have htext : (style.writeEntry ([], name, v)).toList ++ cs =
      name.toList ++ ' ' :: '=' :: ' ' :: ((style.write v).toList ++ '\n' :: cs) := by
    simp [toList_writeEntry hname]
  rw [htext]
  intro fuel hfuel
  simp only [List.length_append, List.length_cons] at hfuel
  obtain ⟨fuel, rfl⟩ : ∃ more, fuel = more + 1 := ⟨fuel - 1, by omega⟩
  have hread := entry_bare hname hv style cs
  have hblanks := skipBlanks_bare hname
    (' ' :: '=' :: ' ' :: ((style.write v).toList ++ '\n' :: cs))
  -- By its first character, the line is no empty line, comment or header.
  obtain ⟨c, more, hc, hbare⟩ := hname.exists_cons
  have hline := ne_of_isBareKeyChar hbare (show isBareKeyChar '\n' = false by decide)
  have hreturn := ne_of_isBareKeyChar hbare (show isBareKeyChar '\r' = false by decide)
  have hcomment := ne_of_isBareKeyChar hbare (show isBareKeyChar '#' = false by decide)
  have hheader := ne_of_isBareKeyChar hbare (show isBareKeyChar '[' = false by decide)
  rw [statements, hblanks]
  rw [hc, List.cons_append] at hread ⊢
  simp [hline, hreturn, hcomment, hheader, hread, endOfLine?_newline, h fuel (by omega),
    statementOf]

theorem Reads.entries {entries : List (List String × String × Value)} {cs : List Char}
    {read : List Statement} (hentries : ∀ written ∈ entries, IsPlainEntry written)
    (style : Style) (h : Reads cs read) :
    Reads ((String.join (entries.map style.writeEntry)).toList ++ cs)
      (entries.map statementOf ++ read) := by
  induction entries with
  | nil => exact h
  | cons first entries ih =>
      obtain ⟨hfirst, hmore⟩ := List.forall_mem_cons.mp hentries
      rw [List.map_cons, String.join_cons, String.toList_append, List.append_assoc]
      exact (ih hmore).entry hfirst style

/-! ### Documents -/

/-- A section that appends a table with plain entries to an array with a plain key. -/
structure IsPlainSection (written : Section) : Prop where
  appends : written.appends = true
  path : written.path = []
  name : IsBareKey written.name
  entries : ∀ entry ∈ written.entries, IsPlainEntry entry

/-- The statements that a section is. -/
def statementsOf (written : Section) : List Statement :=
  .header written.appends written.path written.name :: written.entries.map statementOf

theorem Reads.sections {sections : List Section} (style : Style)
    (hsections : ∀ written ∈ sections, IsPlainSection written) :
    Reads (String.join (sections.map style.writeSection)).toList
      (sections.flatMap statementsOf) := by
  induction sections with
  | nil => exact reads_nil
  | cons written sections ih =>
      obtain ⟨hwritten, hmore⟩ := List.forall_mem_cons.mp hsections
      obtain ⟨appends, path, name, entries⟩ := written
      obtain ⟨rfl, rfl, hname, hentries⟩ := hwritten
      -- The text of a section is a blank line, its header and its entries.
      have htext : (style.writeSection ⟨true, [], name, entries⟩).toList =
          '\n' :: '[' :: '[' :: (name.toList ++ ']' :: ']' :: '\n' ::
            (String.join (entries.map style.writeEntry)).toList) := by
        simp [Style.writeSection, writePath_bare hname, toString]
      rw [List.map_cons, String.join_cons, String.toList_append, htext]
      have hread := (((ih hmore).entries hentries style).header hname).newline
      simpa [statementsOf] using hread

theorem documentOf_entries (entries : List (List String × String × Value))
    (read : List Statement) :
    documentOf (entries.map statementOf ++ read) =
      { preamble := entries ++ (documentOf read).preamble
        sections := (documentOf read).sections } := by
  induction entries with
  | nil => rfl
  | cons first entries ih => simp [statementOf, documentOf, ih]

theorem documentOf_sections (sections : List Section) :
    documentOf (sections.flatMap statementsOf) = { preamble := [], sections } := by
  induction sections with
  | nil => rfl
  | cons written sections ih => simp [statementsOf, documentOf, documentOf_entries, ih]

/-- A document with plain keys and storable values. -/
structure IsPlainDocument (document : Document) : Prop where
  preamble : ∀ entry ∈ document.preamble, IsPlainEntry entry
  sections : ∀ written ∈ document.sections, IsPlainSection written

theorem skipMark_write {document : Document} (h : IsPlainDocument document) (style : Style) :
    skipMark (document.write style).toList = (document.write style).toList := by
  obtain ⟨preamble, sections⟩ := document
  cases preamble with
  | nil =>
      cases sections with
      | nil => rfl
      | cons written sections =>
          simp [Document.write, Style.writeSection, skipMark, toString]
  | cons first preamble =>
      obtain ⟨path, name, v⟩ := first
      obtain ⟨rfl, hname, -⟩ : path = [] ∧ IsBareKey name ∧ _ := h.preamble _ List.mem_cons_self
      obtain ⟨c, cs, hc, hbare⟩ := hname.exists_cons
      have hmark := ne_of_isBareKeyChar hbare (show isBareKeyChar '\ufeff' = false by decide)
      simp [Document.write, toList_writeEntry hname, hc, skipMark, hmark]

/-- In either style, the text of a plain document is read as the entries that the document
describes. -/
theorem parse?_write {document : Document} (h : IsPlainDocument document) (style : Style) :
    parse? (document.write style) = document.entries? := by
  have hread := (Reads.sections style h.sections).entries h.preamble style
  have htext : (document.write style).toList =
      (String.join (document.preamble.map style.writeEntry)).toList ++
        (String.join (document.sections.map style.writeSection)).toList :=
    String.toList_append
  rw [← htext] at hread
  rw [parse?, skipMark_write h, hread _ (Nat.lt_succ_self _)]
  simp [documentOf_entries, documentOf_sections]

end ItemScoring.Toml
