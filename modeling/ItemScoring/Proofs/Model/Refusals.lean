import ItemScoring.Proofs.Model.WellFormed

/-!
# Why tables are refused

Tables may be wrong in several places, and `Model.ofTables` reports one of them.
`ModelTables.FirstDefect` says which, without the checks: the tables are gone through in
the order slopes, labels, leaf rows, offset rows, split rows, items, and the first flaw
that is met is reported.

Whether a row is flawed may depend on the rows before it, as a row may repeat one of them.
All checks of rows are therefore runs of one loop that hands each row the rows before it
(`scan`), and stop at the first flaw (`scan_eq_error_iff`).  What is left for each table is
what the loop does with one row, which is the same for all of them up to the wording
(`rowChecks_eq_error_iff`).
-/

namespace ItemScoring

/-! ### First flaws -/

section Scanning

variable {α ε : Type} {flaw : List α → α → ε → Prop} {check : List α → α → Except ε Unit}
  {list : List α} {e : ε}

/-- No member of the list is flawed, given the members before it. -/
def Sound (flaw : List α → α → ε → Prop) (list : List α) : Prop :=
  ∀ before a after, list = before ++ a :: after → ∀ e, ¬ flaw before a e

/-- The first flawed member of the list has the flaw `e`. -/
def FirstFlaw (flaw : List α → α → ε → Prop) (list : List α) (e : ε) : Prop :=
  ∃ before a after, list = before ++ a :: after ∧ Sound flaw before ∧ flaw before a e

theorem sound_nil : Sound flaw [] := by
  intro before a after heq
  simp at heq

theorem sound_cons {first : α} {rest : List α} : Sound flaw (first :: rest) ↔
    (∀ e, ¬ flaw [] first e) ∧ Sound (fun before => flaw (first :: before)) rest := by
  constructor
  · intro h
    refine ⟨h [] first rest rfl, fun before a after heq => ?_⟩
    exact h (first :: before) a after (by rw [heq, List.cons_append])
  · rintro ⟨hfirst, hrest⟩ before a after heq
    cases before with
    | nil =>
        obtain ⟨rfl, rfl⟩ := List.cons.inj heq
        exact hfirst
    | cons b before =>
        obtain ⟨rfl, htail⟩ := List.cons.inj heq
        exact hrest before a after htail

theorem firstFlaw_nil : ¬ FirstFlaw flaw [] e := by
  rintro ⟨before, a, after, heq, -⟩
  simp at heq

theorem firstFlaw_cons {first : α} {rest : List α} : FirstFlaw flaw (first :: rest) e ↔
    flaw [] first e ∨
      (∀ e, ¬ flaw [] first e) ∧ FirstFlaw (fun before => flaw (first :: before)) rest e := by
  constructor
  · rintro ⟨before, a, after, heq, hsound, hflaw⟩
    -- Either nothing stands before the flaw, or the first member does and is sound.
    cases before with
    | nil =>
        obtain ⟨rfl, -⟩ := List.cons.inj heq
        exact Or.inl hflaw
    | cons b before =>
        obtain ⟨rfl, htail⟩ := List.cons.inj heq
        obtain ⟨hfirst, hsound⟩ := sound_cons.mp hsound
        exact Or.inr ⟨hfirst, before, a, after, htail, hsound, hflaw⟩
  · rintro (hflaw | ⟨hfirst, before, a, after, heq, hsound, hflaw⟩)
    · exact ⟨[], first, rest, rfl, sound_nil, hflaw⟩
    · refine ⟨first :: before, a, after, by rw [heq, List.cons_append], ?_, hflaw⟩
      exact sound_cons.mpr ⟨hfirst, hsound⟩

/-- Checks the members of a list in order, each given all members before it. -/
def scan (check : List α → α → Except ε Unit) (before : List α) : List α → Except ε Unit
  | [] => .ok ()
  | a :: rest => do
    check before a
    scan check (before ++ [a]) rest

/-- What the result of a check says of a list: its first flaw, if there is one. -/
structure Reports (result : Except ε Unit) (flaw : List α → α → ε → Prop) (list : List α) :
    Prop where
  error_iff : ∀ e, result = .error e ↔ FirstFlaw flaw list e
  ok_iff : result = .ok () ↔ Sound flaw list

/-- A scan stops at the first flaw if its check finds the flaws of a member. -/
theorem scan_eq_error_iff (hcheck : ∀ before a e, check before a = .error e ↔ flaw before a e)
    {before : List α} : scan check before list = .error e ↔
      FirstFlaw (fun seen => flaw (before ++ seen)) list e := by
  induction list generalizing before with
  | nil => simp [scan, firstFlaw_nil]
  | cons first rest ih =>
      rw [scan, check_bind_eq_error, eq_ok_iff_forall_ne_error, firstFlaw_cons, ih]
      simp only [hcheck, List.append_nil, List.append_assoc, List.singleton_append]

theorem scan_eq_ok_iff (hcheck : ∀ before a e, check before a = .error e ↔ flaw before a e)
    {before : List α} : scan check before list = .ok () ↔
      Sound (fun seen => flaw (before ++ seen)) list := by
  induction list generalizing before with
  | nil => simp [scan, sound_nil]
  | cons first rest ih =>
      rw [scan, check_bind_eq_ok, eq_ok_iff_forall_ne_error, sound_cons, ih]
      simp only [hcheck, List.append_nil, List.append_assoc, List.singleton_append]

theorem scan_reports (hcheck : ∀ before a e, check before a = .error e ↔ flaw before a e)
    (list : List α) : Reports (scan check [] list) flaw list :=
  ⟨fun _ => scan_eq_error_iff hcheck, scan_eq_ok_iff hcheck⟩

end Scanning

namespace ModelTables

variable {e : ModelError}

/-! ### Flaws of rows -/

/-- The slope of an item is not finite; slopes are counted from one. -/
def SlopeFlaw (before : List Float) (slope : Float) (e : ModelError) : Prop :=
  slope.isFinite = false ∧ e = .nonFiniteValue (.slope (before.length + 1))

/-- A row for `item` with the number `value`: the row belongs to no item, or else the number is
not finite, or else the row is repeated. -/
inductive RowFlaw (itemCount item : Nat) (parameter : Parameter) (value : Float)
    (repeated : ModelError → Prop) : ModelError → Prop
  | outOfRange (outside : item = 0 ∨ itemCount < item) :
      RowFlaw itemCount item parameter value repeated (.itemOutOfRange item itemCount)
  | notFinite (inside : 0 < item ∧ item ≤ itemCount) (notFinite : value.isFinite = false) :
      RowFlaw itemCount item parameter value repeated (.nonFiniteValue parameter)
  | again {e : ModelError} (inside : 0 < item ∧ item ≤ itemCount)
      (finite : value.isFinite = true) (again : repeated e) :
      RowFlaw itemCount item parameter value repeated e

/-- The flaw of a leaf row, which may be the second one for its leaf. -/
def LeafFlaw (itemCount : Nat) (before : List LeafRow) (row : LeafRow) : ModelError → Prop :=
  RowFlaw itemCount row.item (.coefficient row.node row.item) row.coefficient fun e =>
    (∃ earlier ∈ before, earlier.item = row.item ∧ earlier.node = row.node) ∧
      e = .duplicateLeaf row.item row.node

/-- The flaw of an offset row, which may be the second one for its item. -/
def OffsetFlaw (itemCount : Nat) (before : List OffsetRow) (row : OffsetRow) :
    ModelError → Prop :=
  RowFlaw itemCount row.item (.offset row.item) row.offset fun e =>
    (∃ earlier ∈ before, earlier.item = row.item) ∧ e = .duplicateOffset row.item

/-- The flaw of a split row, of which there may be any number for an item. -/
def SplitFlaw (itemCount : Nat) (_ : List Split) (row : Split) : ModelError → Prop :=
  RowFlaw itemCount row.item (.threshold row.number row.item) row.threshold fun _ => False

theorem checkItem_eq_error_iff {count item : Nat} : checkItem count item = .error e ↔
    (item = 0 ∨ count < item) ∧ e = .itemOutOfRange item count := by
  rw [checkItem, error_if_eq_error]

theorem checkFinite_eq_error_iff {parameter : Parameter} {value : Float} :
    checkFinite parameter value = .error e ↔
      value.isFinite = false ∧ e = .nonFiniteValue parameter := by
  cases hfinite : value.isFinite <;> simp [checkFinite, hfinite, @eq_comm _ e]

/-- The checks that all rows have in common find the flaws of a row, if what comes next finds out
whether it is repeated. -/
theorem rowChecks_eq_error_iff {count item : Nat} {parameter : Parameter} {value : Float}
    {next : Except ModelError Unit} :
    (checkItem count item >>= fun _ => checkFinite parameter value >>= fun _ => next) = .error e ↔
      RowFlaw count item parameter value (fun e => next = .error e) e := by
  rw [check_bind_eq_error, check_bind_eq_error, checkItem_eq_error_iff, checkItem_eq_ok_iff,
    checkFinite_eq_error_iff, checkFinite_eq_ok_iff]
  constructor
  · rintro (⟨houtside, rfl⟩ | ⟨hinside, ⟨hnot, rfl⟩ | ⟨hfinite, hnext⟩⟩)
    · exact .outOfRange houtside
    · exact .notFinite hinside hnot
    · exact .again hinside hfinite hnext
  · intro hflaw
    cases hflaw with
    | outOfRange outside => exact Or.inl ⟨outside, rfl⟩
    | notFinite inside notFinite => exact Or.inr ⟨inside, Or.inl ⟨notFinite, rfl⟩⟩
    | again inside finite again => exact Or.inr ⟨inside, Or.inr ⟨finite, again⟩⟩

/-! ### Checks of rows as scans -/

/-- Checks a slope, given the slopes before it. -/
def slopeCheck (before : List Float) (slope : Float) : Except ModelError Unit :=
  checkFinite (.slope (before.length + 1)) slope

/-- Checks a leaf row, given the rows before it. -/
def leafCheck (itemCount : Nat) (before : List LeafRow) (row : LeafRow) :
    Except ModelError Unit := do
  checkItem itemCount row.item
  checkFinite (.coefficient row.node row.item) row.coefficient
  if ∃ earlier ∈ before, earlier.item = row.item ∧ earlier.node = row.node then
    .error (.duplicateLeaf row.item row.node)
  else .ok ()

/-- Checks an offset row, given the rows before it. -/
def offsetCheck (itemCount : Nat) (before : List OffsetRow) (row : OffsetRow) :
    Except ModelError Unit := do
  checkItem itemCount row.item
  checkFinite (.offset row.item) row.offset
  if ∃ earlier ∈ before, earlier.item = row.item then .error (.duplicateOffset row.item)
  else .ok ()

/-- Checks a split row. -/
def splitCheck (itemCount : Nat) (_ : List Split) (row : Split) : Except ModelError Unit := do
  checkItem itemCount row.item
  checkFinite (.threshold row.number row.item) row.threshold
  .ok ()

theorem slopeCheck_eq_error_iff (before : List Float) (slope : Float) (e : ModelError) :
    slopeCheck before slope = .error e ↔ SlopeFlaw before slope e :=
  checkFinite_eq_error_iff

theorem leafCheck_eq_error_iff {count : Nat} (before : List LeafRow) (row : LeafRow)
    (e : ModelError) : leafCheck count before row = .error e ↔ LeafFlaw count before row e := by
  rw [leafCheck, rowChecks_eq_error_iff]
  simp only [error_if_eq_error, LeafFlaw]

theorem offsetCheck_eq_error_iff {count : Nat} (before : List OffsetRow) (row : OffsetRow)
    (e : ModelError) :
    offsetCheck count before row = .error e ↔ OffsetFlaw count before row e := by
  rw [offsetCheck, rowChecks_eq_error_iff]
  simp only [error_if_eq_error, OffsetFlaw]

theorem splitCheck_eq_error_iff {count : Nat} (before : List Split) (row : Split)
    (e : ModelError) : splitCheck count before row = .error e ↔ SplitFlaw count before row e := by
  rw [splitCheck, rowChecks_eq_error_iff]
  simp [SplitFlaw]

theorem checkSlopes_eq_scan {before slopes : List Float} :
    checkSlopes (before.length + 1) slopes = scan slopeCheck before slopes := by
  induction slopes generalizing before with
  | nil => rfl
  | cons first rest ih =>
      have hrest := @ih (before ++ [first])
      rw [List.length_append, List.length_singleton] at hrest
      rw [checkSlopes, scan, hrest]
      rfl

/-- What a loop has seen, kept as a list of keys, are the keys of the rows before. -/
theorem mem_cons_iff_mem_concat {α κ : Type} {key : α → κ} {earlier : List κ} {before : List α}
    (hearlier : ∀ k, k ∈ earlier ↔ k ∈ before.map key) (a : α) (k : κ) :
    k ∈ key a :: earlier ↔ k ∈ (before ++ [a]).map key := by
  rw [List.mem_cons, hearlier, List.map_append, List.mem_append, List.map_singleton,
    List.mem_singleton, or_comm]

theorem checkLeaves_eq_scan {count : Nat} {earlier : List (Nat × NodeId)}
    {before rows : List LeafRow}
    (hearlier : ∀ leaf, leaf ∈ earlier ↔ leaf ∈ before.map fun row => (row.item, row.node)) :
    checkLeaves count earlier rows = scan (leafCheck count) before rows := by
  induction rows generalizing earlier before with
  | nil => rfl
  | cons first rest ih =>
      have hrest := ih (mem_cons_iff_mem_concat hearlier first)
      have hagain : (first.item, first.node) ∈ earlier ↔
          ∃ row ∈ before, row.item = first.item ∧ row.node = first.node := by
        simp [hearlier]
      rw [checkLeaves, scan, hrest, leafCheck]
      simp only [hagain, bind_assoc]
      split <;> rfl

theorem checkOffsets_eq_scan {count : Nat} {earlier : List Nat} {before rows : List OffsetRow}
    (hearlier : ∀ item, item ∈ earlier ↔ item ∈ before.map OffsetRow.item) :
    checkOffsets count earlier rows = scan (offsetCheck count) before rows := by
  induction rows generalizing earlier before with
  | nil => rfl
  | cons first rest ih =>
      have hrest := ih (mem_cons_iff_mem_concat hearlier first)
      have hagain : first.item ∈ earlier ↔ ∃ row ∈ before, row.item = first.item := by
        simp [hearlier]
      rw [checkOffsets, scan, hrest, offsetCheck]
      simp only [hagain, bind_assoc]
      split <;> rfl

theorem checkSplits_eq_scan {count : Nat} {before rows : List Split} :
    checkSplits count rows = scan (splitCheck count) before rows := by
  induction rows generalizing before with
  | nil => rfl
  | cons first rest ih =>
      rw [checkSplits, scan, @ih (before ++ [first]), splitCheck]
      simp only [bind_assoc]
      rfl

theorem checkSlopes_reports (slopes : List Float) :
    Reports (checkSlopes 1 slopes) SlopeFlaw slopes := by
  have heq : checkSlopes 1 slopes = scan slopeCheck [] slopes := @checkSlopes_eq_scan [] slopes
  exact heq ▸ scan_reports slopeCheck_eq_error_iff slopes

theorem checkLeaves_reports (count : Nat) (rows : List LeafRow) :
    Reports (checkLeaves count [] rows) (LeafFlaw count) rows := by
  rw [@checkLeaves_eq_scan count [] [] rows (by simp)]
  exact scan_reports leafCheck_eq_error_iff rows

theorem checkOffsets_reports (count : Nat) (rows : List OffsetRow) :
    Reports (checkOffsets count [] rows) (OffsetFlaw count) rows := by
  rw [@checkOffsets_eq_scan count [] [] rows (by simp)]
  exact scan_reports offsetCheck_eq_error_iff rows

theorem checkSplits_reports (count : Nat) (rows : List Split) :
    Reports (checkSplits count rows) (SplitFlaw count) rows := by
  rw [@checkSplits_eq_scan count [] rows]
  exact scan_reports splitCheck_eq_error_iff rows

theorem checkLabels_eq_error_iff {count : Nat} {labels? : Option (List String)} :
    checkLabels count labels? = .error e ↔ ∃ labels, labels? = some labels ∧
      labels.length ≠ count ∧ e = .labelCountMismatch labels.length count := by
  cases labels? with
  | none => simp [checkLabels]
  | some labels =>
      by_cases hlength : labels.length = count <;> simp [checkLabels, hlength, @eq_comm _ e]

/-! ### Flaws of items -/

variable {tables : ModelTables} {item : Nat}

/-- The flaw of an item: two kinds of intercept, none, or leaf rows that make up no tree with the
split rows of the item. -/
inductive ItemFlaw (tables : ModelTables) (item : Nat) : ModelError → Prop
  | conflicting (leaf : ∃ row ∈ tables.leaves, row.item = item)
      (offset : ∃ row ∈ tables.offsets, row.item = item) :
      ItemFlaw tables item (.conflictingItem item)
  | missing (leaf : ¬ ∃ row ∈ tables.leaves, row.item = item)
      (offset : ¬ ∃ row ∈ tables.offsets, row.item = item) :
      ItemFlaw tables item (.missingItemCoefficients item)
  | tree {defect : TreeError} (leaf : ∃ row ∈ tables.leaves, row.item = item)
      (offset : ¬ ∃ row ∈ tables.offsets, row.item = item)
      (refused : ItemTree.ofRows (tables.splits.filter (·.item == item))
        (.ofEntries ((tables.leaves.filter (·.item == item)).map fun row =>
          (row.node, row.coefficient))) = .error defect) :
      ItemFlaw tables item (.invalidTree item defect)

theorem interceptOf_eq_error_iff : tables.interceptOf item = .error e ↔ ItemFlaw tables item e := by
  have hleaves := @leavesOf_ne_nil_iff tables item
  have hoffset := @offsetOf?_eq_none_iff tables item
  have hoffset' := (not_congr hoffset).trans not_not
  rw [interceptOf]
  constructor
  · intro h
    -- Leaf rows and an offset are conflicting, neither is missing, and of leaf rows alone a tree is
    -- made, which may be refused.
    split at h
    next hcons hsome =>
      obtain rfl := Except.error.inj h
      exact .conflicting (hleaves.mp (by simp [hcons])) (hoffset'.mp (by simp [hsome]))
    next hnil hnone =>
      obtain rfl := Except.error.inj h
      exact .missing (hleaves.not.mp (by simp [hnil])) (hoffset.mp hnone)
    next => simp at h
    next hcons hnone =>
      split at h
      next => simp at h
      next hrefused =>
        obtain rfl := Except.error.inj h
        exact .tree (hleaves.mp (by simp [hcons])) (hoffset.mp hnone) hrefused
  · intro h
    cases h with
    | conflicting leaf offset =>
        obtain ⟨row, rest, hcons⟩ := List.exists_cons_of_ne_nil (hleaves.mpr leaf)
        obtain ⟨found, hsome⟩ := Option.ne_none_iff_exists'.mp (hoffset'.mpr offset)
        rw [hcons, hsome]
    | missing leaf offset =>
        rw [not_not.mp (hleaves.not.mpr leaf), hoffset.mpr offset]
    | tree leaf offset refused =>
        obtain ⟨row, rest, hcons⟩ := List.exists_cons_of_ne_nil (hleaves.mpr leaf)
        have htree : ItemTree.ofRows (tables.splitsOf item) (tables.coefficientsOf item) = _ :=
          refused
        simp only [hcons, hoffset.mpr offset, htree]

/-- The intercepts of items are formed in order, up to the first that has none. -/
theorem itemsFrom_eq_error_iff {first : Nat} {slopes : List Float} :
    tables.itemsFrom first slopes = .error e ↔
      ∃ item, (first ≤ item ∧ item < first + slopes.length) ∧ ItemFlaw tables item e ∧
        ∀ smaller, first ≤ smaller → smaller < item → ∀ e', ¬ ItemFlaw tables smaller e' := by
  induction slopes generalizing first with
  | nil =>
      simp only [itemsFrom, reduceCtorEq, false_iff, not_exists, List.length_nil]
      omega
  | cons slope rest ih =>
      rw [itemsFrom, bind_eq_error]
      simp only [bind_eq_error, ih, pure, Except.pure, reduceCtorEq, and_false, exists_false,
        or_false, interceptOf_eq_error_iff, List.length_cons]
      constructor
      · -- The first item is at fault, or it has an intercept and a later one is at fault.
        rintro (hfirst | ⟨intercept, hintercept, item, hrange, hflaw, hsmaller⟩)
        · exact ⟨first, by omega, hfirst, fun smaller hle hlt => by omega⟩
        · refine ⟨item, by omega, hflaw, fun smaller hle hlt e' hbad => ?_⟩
          by_cases heq : smaller = first
          · rw [heq, ← interceptOf_eq_error_iff, hintercept] at hbad
            contradiction
          · exact hsmaller smaller (by omega) hlt e' hbad
      · rintro ⟨item, hrange, hflaw, hsmaller⟩
        by_cases heq : item = first
        · exact Or.inl (heq ▸ hflaw)
        · have hsound := hsmaller first le_rfl (by omega)
          simp only [← interceptOf_eq_error_iff] at hsound
          obtain ⟨intercept, hintercept⟩ :
              ∃ intercept, tables.interceptOf first = .ok intercept := by
            cases hfirst : tables.interceptOf first with
            | error e' => exact absurd hfirst (hsound e')
            | ok intercept => exact ⟨intercept, rfl⟩
          refine Or.inr ⟨intercept, hintercept, item, by omega, hflaw, fun smaller hle hlt => ?_⟩
          exact hsmaller smaller (by omega) hlt

/-! ### The first defect -/

/-- What is reported about tables, in the order in which they are gone through. -/
inductive FirstDefect (tables : ModelTables) : ModelError → Prop
  | slope {e : ModelError} (first : FirstFlaw SlopeFlaw tables.slopes e) : FirstDefect tables e
  | labels {labels : List String} (slopes : Sound SlopeFlaw tables.slopes)
      (given : tables.labels = some labels) (mismatch : labels.length ≠ tables.itemCount) :
      FirstDefect tables (.labelCountMismatch labels.length tables.itemCount)
  | leaf {e : ModelError} (slopes : Sound SlopeFlaw tables.slopes)
      (labels : ∀ labels ∈ tables.labels, labels.length = tables.itemCount)
      (first : FirstFlaw (LeafFlaw tables.itemCount) tables.leaves e) : FirstDefect tables e
  | offset {e : ModelError} (slopes : Sound SlopeFlaw tables.slopes)
      (labels : ∀ labels ∈ tables.labels, labels.length = tables.itemCount)
      (leaves : Sound (LeafFlaw tables.itemCount) tables.leaves)
      (first : FirstFlaw (OffsetFlaw tables.itemCount) tables.offsets e) : FirstDefect tables e
  | split {e : ModelError} (slopes : Sound SlopeFlaw tables.slopes)
      (labels : ∀ labels ∈ tables.labels, labels.length = tables.itemCount)
      (leaves : Sound (LeafFlaw tables.itemCount) tables.leaves)
      (offsets : Sound (OffsetFlaw tables.itemCount) tables.offsets)
      (first : FirstFlaw (SplitFlaw tables.itemCount) tables.splits e) : FirstDefect tables e
  | item {e : ModelError} {item : Nat} (rows : RowsInOrder tables)
      (inside : 0 < item ∧ item ≤ tables.itemCount) (flaw : ItemFlaw tables item e)
      (complete : ∀ smaller, 0 < smaller → smaller < item → ∀ e', ¬ ItemFlaw tables smaller e') :
      FirstDefect tables e

end ModelTables

/-- Whether an error is about an item as a whole. -/
def ModelError.isAboutItem : ModelError → Bool
  | .conflictingItem _ | .missingItemCoefficients _ | .invalidTree _ _ => true
  | _ => false

namespace ModelTables

theorem RowFlaw.not_isAboutItem {count item : Nat} {parameter : Parameter} {value : Float}
    {repeated : ModelError → Prop} {e : ModelError}
    (hrepeated : ∀ e, repeated e → e.isAboutItem = false)
    (h : RowFlaw count item parameter value repeated e) : e.isAboutItem = false := by
  cases h with
  | outOfRange => rfl
  | notFinite => rfl
  | again inside finite again => exact hrepeated e again

/-- What is said about an item as a whole is a flaw of an item, and all rows are in order. -/
theorem FirstDefect.about_item {tables : ModelTables} {e : ModelError} (h : FirstDefect tables e)
    (habout : e.isAboutItem = true) : RowsInOrder tables ∧ ∃ item, ItemFlaw tables item e := by
  suffices hrow : e.isAboutItem = false ∨ RowsInOrder tables ∧ ∃ item, ItemFlaw tables item e by
    simpa [habout] using hrow
  -- All defects of rows come before those of items, and none of them names a tree.
  cases h with
  | slope first =>
      obtain ⟨before, slope, after, -, -, -, rfl⟩ := first
      exact Or.inl rfl
  | labels => exact Or.inl rfl
  | leaf slopes labels first =>
      obtain ⟨before, row, after, -, -, hflaw⟩ := first
      exact Or.inl (hflaw.not_isAboutItem (by rintro - ⟨-, rfl⟩; rfl))
  | offset slopes labels leaves first =>
      obtain ⟨before, row, after, -, -, hflaw⟩ := first
      exact Or.inl (hflaw.not_isAboutItem (by rintro - ⟨-, rfl⟩; rfl))
  | split slopes labels leaves offsets first =>
      obtain ⟨before, row, after, -, -, hflaw⟩ := first
      exact Or.inl (hflaw.not_isAboutItem (by simp))
  | item rows inside flaw => exact Or.inr ⟨rows, _, flaw⟩

end ModelTables

namespace Model

open ModelTables

variable {tables : ModelTables} {e : ModelError}

/-- Tables are refused exactly for their first defect. -/
theorem ofTables_eq_error_iff : ofTables tables = .error e ↔ tables.FirstDefect e := by
  have hitems : (tables.itemsFrom 1 tables.slopes >>= fun items =>
        (pure ⟨tables, items⟩ : Except ModelError Model)) = .error e ↔
      ∃ item, (0 < item ∧ item ≤ tables.itemCount) ∧ ItemFlaw tables item e ∧
        ∀ smaller, 0 < smaller → smaller < item → ∀ e', ¬ ItemFlaw tables smaller e' := by
    simp only [bind_eq_error, pure, Except.pure, reduceCtorEq, and_false, exists_false, or_false,
      itemsFrom_eq_error_iff, Nat.succ_le_iff, Nat.lt_one_add_iff]
    rfl
  -- The checks of the rows are unfolded together; each of them reports its first flaw.
  rw [ofTables, check_bind_eq_error, checkRows_eq_ok_iff, hitems]
  simp only [checkRows, check_bind_eq_error, (checkSlopes_reports _).error_iff,
    (checkSlopes_reports _).ok_iff, checkLabels_eq_error_iff, checkLabels_eq_ok_iff,
    (checkLeaves_reports _ _).error_iff, (checkLeaves_reports _ _).ok_iff,
    (checkOffsets_reports _ _).error_iff, (checkOffsets_reports _ _).ok_iff,
    (checkSplits_reports _ _).error_iff]
  constructor
  · rintro ((h | ⟨hslopes, ⟨labels, hgiven, hne, rfl⟩ |
        ⟨hlabels, h | ⟨hleaves, h | ⟨hoffsets, h⟩⟩⟩⟩) | ⟨hrows, item, hinside, hflaw, hsmaller⟩)
    · exact .slope h
    · exact .labels hslopes hgiven hne
    · exact .leaf hslopes hlabels h
    · exact .offset hslopes hlabels hleaves h
    · exact .split hslopes hlabels hleaves hoffsets h
    · exact .item hrows hinside hflaw hsmaller
  · intro h
    cases h with
    | slope first => exact Or.inl (Or.inl first)
    | labels slopes given mismatch =>
        exact Or.inl (Or.inr ⟨slopes, Or.inl ⟨_, given, mismatch, rfl⟩⟩)
    | leaf slopes labels first => exact Or.inl (Or.inr ⟨slopes, Or.inr ⟨labels, Or.inl first⟩⟩)
    | offset slopes labels leaves first =>
        exact Or.inl (Or.inr ⟨slopes, Or.inr ⟨labels, Or.inr ⟨leaves, Or.inl first⟩⟩⟩)
    | split slopes labels leaves offsets first =>
        exact Or.inl (Or.inr ⟨slopes, Or.inr ⟨labels, Or.inr ⟨leaves, Or.inr ⟨offsets, first⟩⟩⟩⟩)
    | item rows inside flaw complete => exact Or.inr ⟨rows, _, inside, flaw, complete⟩

/-- Tables that are refused are refused for the first of their defects.  An error about an item as
a whole means that all rows are in order; one about a tree is the error of the rows and leaves that
the tables have for the item. -/
theorem ofTables_reports_first (tables : ModelTables) :
    (∀ e, ofTables tables = .error e ↔ tables.FirstDefect e) ∧
    (∀ e, ofTables tables = .error e → e.isAboutItem = true → tables.RowsInOrder) ∧
    ∀ item defect, ofTables tables = .error (.invalidTree item defect) →
      let splits := tables.splits.filter (·.item == item)
      let coefficients : Coefficients := .ofEntries
        ((tables.leaves.filter (·.item == item)).map fun row => (row.node, row.coefficient))
      ItemTree.ofRows splits coefficients = .error defect ∧
      ∀ node coefficient, coefficients[node]? = some coefficient ↔
        ⟨item, node, coefficient⟩ ∈ tables.leaves := by
  refine ⟨fun e => ofTables_eq_error_iff, fun e h habout => ?_, fun item defect h => ?_⟩
  · exact ((ofTables_eq_error_iff.mp h).about_item habout).1
  · obtain ⟨hrows, number, hflaw⟩ := (ofTables_eq_error_iff.mp h).about_item rfl
    cases hflaw with
    | tree leaf offset refused =>
        refine ⟨refused, fun node coefficient => hrows.coefficientsOf_eq_some_iff.trans ?_⟩
        constructor
        · rintro ⟨⟨_, _, _⟩, hmem, rfl, rfl, rfl⟩
          exact hmem
        · intro hmem
          exact ⟨_, hmem, rfl, rfl, rfl⟩

/-- Tables with a leaf given twice, a row of no item, and an item with two kinds of intercept. -/
def messyTables : ModelTables where
  slopes := [1, 2]
  labels := none
  leaves := [⟨1, 2, 0.5⟩, ⟨1, 3, -1⟩, ⟨1, 2, 0.25⟩, ⟨3, 2, 0⟩]
  offsets := [⟨1, 0⟩]
  splits := [⟨1, 1, some 2, some 3, "age", 40⟩]

/-- Tables with a way back to the root, and an item with no intercept. -/
def loopTables : ModelTables where
  slopes := [1, 2]
  labels := none
  leaves := [⟨1, 2, 0.5⟩]
  offsets := []
  splits := [⟨1, 1, some 2, some 1, "age", 40⟩]

/-- The repeated leaf comes before the row of no item and what is wrong with the item, and the way
back in the first item before what is missing in the second. -/
theorem ofTables_reports_first_messyTables :
    messyTables.FirstDefect (.duplicateLeaf 1 2) ∧
      loopTables.FirstDefect (.invalidTree 1 (.cycleDetected 1)) ∧ loopTables.RowsInOrder ∧
      ItemTree.ofRows [⟨1, 1, some 2, some 1, "age", 40⟩] (.ofEntries [(2, 0.5)]) =
        .error (.cycleDetected 1) := by
  have hmessy : ofTables messyTables = .error (.duplicateLeaf 1 2) := by decide +kernel
  have hloop : ofTables loopTables = .error (.invalidTree 1 (.cycleDetected 1)) := by
    decide +kernel
  obtain ⟨hfirst, hrows, htree⟩ := ofTables_reports_first loopTables
  exact ⟨((ofTables_reports_first messyTables).1 _).mp hmessy, (hfirst _).mp hloop,
    hrows _ hloop rfl, (htree 1 _ hloop).1⟩

end Model

end ItemScoring
