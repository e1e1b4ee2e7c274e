import ItemScoring.Proofs.Expr.Values

/-!
# Where an expression reads its columns

A reading is a place in an expression where a column stands, by itself or in an indicator.  Its
path says how to get there, one position after the other, and of two readings the one with the
lexicographically smaller path stands further to the left (`Expr.ReadsAt`).

The columns of an expression are said to be those that it reads, by first occurrence
(`Expr.ListsColumns`).  The list is made by a walk that forgets the places.  `Expr.readings` is the
same walk with the places kept; its paths ascend (`pairwise_readings`), so that what is mentioned
first is also read further to the left (`exists_path_lt`).
-/

namespace ItemScoring

namespace Expr

/-! ### Places of readings -/

/-- At the end of this path the expression reads the column of this name.  A path leads from an
expression to one of its factors or terms, which it gives by its position, and so on. -/
inductive ReadsAt : Expr → List Nat → String → Prop
  | column {name : String} : ReadsAt (.column name) [] name
  | indicator {name : String} {test : Comparison} {threshold : Float} :
      ReadsAt (.indicator name test threshold) [] name
  | factor {factors : List Expr} {position : Nat} {factor : Expr} {path : List Nat} {name : String}
      (get : factors[position]? = some factor) (reads : ReadsAt factor path name) :
      ReadsAt (.product factors) (position :: path) name
  | term {terms : List Expr} {position : Nat} {term : Expr} {path : List Nat} {name : String}
      (get : terms[position]? = some term) (reads : ReadsAt term path name) :
      ReadsAt (.sum terms) (position :: path) name

/-- The names are those of the columns that the expression reads, each once, in the order of
the leftmost places where they are read. -/
structure ListsColumns (e : Expr) (names : List String) : Prop where
  mem_iff : ∀ name, name ∈ names ↔ ∃ path, e.ReadsAt path name
  distinct : names.Nodup
  ordered : names.Pairwise fun earlier later =>
    ∃ path, e.ReadsAt path earlier ∧ ∀ other, e.ReadsAt other later → path < other

mutual

/-- All readings with their paths, from left to right. -/
def readings : Expr → List (List Nat × String)
  | coefficient _ => []
  | column name => [([], name)]
  | indicator name _ _ => [([], name)]
  | product factors => readingsFrom 0 factors
  | sum terms => readingsFrom 0 terms

/-- The readings of expressions of which the first stands at the given position. -/
def readingsFrom (position : Nat) : List Expr → List (List Nat × String)
  | [] => []
  | first :: rest =>
    first.readings.map (Prod.map (List.cons position) id) ++ readingsFrom (position + 1) rest

end

mutual

theorem map_snd_readings : (e : Expr) → e.readings.map Prod.snd = e.mentions
  | .coefficient _ => rfl
  | .column _ => rfl
  | .indicator _ _ _ => rfl
  | .product factors => map_snd_readingsFrom 0 factors
  | .sum terms => map_snd_readingsFrom 0 terms

theorem map_snd_readingsFrom (position : Nat) : (terms : List Expr) →
    (readingsFrom position terms).map Prod.snd = mentionsAll terms
  | [] => rfl
  | first :: rest => by
      rw [readingsFrom, mentionsAll, List.map_append, List.map_map,
        map_snd_readingsFrom (position + 1) rest, ← map_snd_readings first]
      rfl

end

theorem mem_readingsFrom {position : Nat} {terms : List Expr} {path : List Nat} {name : String} :
    (path, name) ∈ readingsFrom position terms ↔ ∃ i term below, terms[i]? = some term ∧
      path = (position + i) :: below ∧ (below, name) ∈ term.readings := by
  induction terms generalizing position with
  | nil => simp [readingsFrom]
  | cons first rest ih =>
      rw [readingsFrom, List.mem_append, ih]
      constructor
      · rintro (hfirst | ⟨i, term, below, hterm, rfl, hmem⟩)
        · obtain ⟨⟨below, _⟩, hmem, heq⟩ := List.mem_map.mp hfirst
          simp only [Prod.map_apply, id_eq, Prod.mk.injEq] at heq
          obtain ⟨rfl, rfl⟩ := heq
          exact ⟨0, first, below, rfl, rfl, hmem⟩
        · exact ⟨i + 1, term, below, hterm, by rw [Nat.add_right_comm, Nat.add_assoc], hmem⟩
      · rintro ⟨i, term, below, hterm, rfl, hmem⟩
        -- The reading is in the first term or, one place further, in one of the others.
        cases i with
        | zero =>
            obtain rfl := Option.some.inj hterm
            exact Or.inl (List.mem_map.mpr ⟨(below, name), hmem, rfl⟩)
        | succ i =>
            exact Or.inr ⟨i, term, below, hterm, by rw [Nat.add_right_comm, Nat.add_assoc], hmem⟩

theorem readsAt_of_mem {e : Expr} {path : List Nat} {name : String}
    (h : (path, name) ∈ e.readings) : e.ReadsAt path name := by
  -- A path leads to a reading at its end, and through the terms of a product or a sum before.
  induction path generalizing e with
  | nil =>
      cases e with
      | coefficient value => simp [readings] at h
      | column found =>
          obtain rfl : name = found := by simpa [readings] using h
          exact .column
      | indicator found test threshold =>
          obtain rfl : name = found := by simpa [readings] using h
          exact .indicator
      | product factors => simp [readings, mem_readingsFrom] at h
      | sum terms => simp [readings, mem_readingsFrom] at h
  | cons position below ih =>
      cases e with
      | coefficient value => simp [readings] at h
      | column found => simp [readings] at h
      | indicator found test threshold => simp [readings] at h
      | product factors =>
          rw [readings, mem_readingsFrom] at h
          obtain ⟨i, factor, _, hfactor, hpath, hmem⟩ := h
          obtain ⟨rfl, rfl⟩ := List.cons.inj hpath
          rw [Nat.zero_add]
          exact .factor hfactor (ih hmem)
      | sum terms =>
          rw [readings, mem_readingsFrom] at h
          obtain ⟨i, term, _, hterm, hpath, hmem⟩ := h
          obtain ⟨rfl, rfl⟩ := List.cons.inj hpath
          rw [Nat.zero_add]
          exact .term hterm (ih hmem)

theorem mem_readings_iff {e : Expr} {path : List Nat} {name : String} :
    (path, name) ∈ e.readings ↔ e.ReadsAt path name := by
  refine ⟨readsAt_of_mem, fun h => ?_⟩
  induction h with
  | column => exact List.mem_singleton_self _
  | indicator => exact List.mem_singleton_self _
  | @factor factors position factor path name get reads ih =>
      exact mem_readingsFrom.mpr ⟨position, factor, path, get, by rw [Nat.zero_add], ih⟩
  | @term terms position term path name get reads ih =>
      exact mem_readingsFrom.mpr ⟨position, term, path, get, by rw [Nat.zero_add], ih⟩

theorem exists_readsAt_iff {e : Expr} {name : String} :
    (∃ path, e.ReadsAt path name) ↔ name ∈ e.mentions := by
  simp only [← mem_readings_iff, ← map_snd_readings, List.mem_map, Prod.exists, exists_eq_right]

mutual

theorem pairwise_readings : (e : Expr) → e.readings.Pairwise fun first second => first.1 < second.1
  | .coefficient _ => .nil
  | .column _ => List.pairwise_singleton _ _
  | .indicator _ _ _ => List.pairwise_singleton _ _
  | .product factors => pairwise_readingsFrom 0 factors
  | .sum terms => pairwise_readingsFrom 0 terms

/-- Paths through one part of an expression come before those through the parts behind it. -/
theorem pairwise_readingsFrom (position : Nat) : (terms : List Expr) →
    (readingsFrom position terms).Pairwise fun first second => first.1 < second.1
  | [] => .nil
  | first :: rest => by
      refine List.pairwise_append.mpr ⟨?_, pairwise_readingsFrom (position + 1) rest, ?_⟩
      · refine List.pairwise_map.mpr ((pairwise_readings first).imp fun h => ?_)
        exact List.cons_lt_cons_self.mpr h
      · rintro ⟨path, name⟩ hfirst ⟨later, other⟩ hrest
        obtain ⟨⟨below, _⟩, -, heq⟩ := List.mem_map.mp hfirst
        obtain ⟨i, -, after, -, rfl, -⟩ := mem_readingsFrom.mp hrest
        obtain ⟨rfl, -⟩ := Prod.mk.inj heq
        exact .rel (by omega)

end

/-- What is mentioned first is read at a path before all paths at which the other is read. -/
theorem exists_path_lt {e : Expr} {earlier later : String} (hne : earlier ≠ later)
    (hfirst : FirstIn (fun name => name = earlier ∨ name = later) e.mentions earlier) :
    ∃ path, e.ReadsAt path earlier ∧ ∀ other, e.ReadsAt other later → path < other := by
  obtain ⟨before, after, hmentions, hbefore, -⟩ := hfirst
  rw [← map_snd_readings, List.map_eq_append_iff] at hmentions
  obtain ⟨front, back, hreadings, rfl, hback⟩ := hmentions
  obtain ⟨⟨path, _⟩, back, rfl, rfl, -⟩ := List.map_eq_cons_iff.mp hback
  have hsorted := e.pairwise_readings
  rw [hreadings] at hsorted
  refine ⟨path, mem_readings_iff.mp (by simp [hreadings]), fun other hother => ?_⟩
  -- The other name does not occur before, so that it can only be read behind.
  have hmem := mem_readings_iff.mpr hother
  rw [hreadings, List.mem_append, List.mem_cons] at hmem
  rcases hmem with hfront | heq | hback
  · exact absurd (Or.inr rfl) (hbefore later (List.mem_map.mpr ⟨_, hfront, rfl⟩))
  · exact absurd (Prod.mk.inj heq).2.symm hne
  · exact List.rel_of_pairwise_cons (List.pairwise_append.mp hsorted).2.1 hback

theorem listsColumns_columns (e : Expr) : e.ListsColumns e.columns where
  mem_iff := by
    intro name
    rw [mem_columns, exists_readsAt_iff]
  distinct := nodup_eraseDups _
  ordered := (pairwise_eraseDups e.mentions).imp fun h => exists_path_lt h.1 h.2

end Expr

end ItemScoring
