import Mathlib.Data.List.Infix
import ItemScoring.Command.Disk
import ItemScoring.Proofs.Sequence

/-!
# Where files are created

A file is created in a directory that is there already, so creating it makes no directory and
takes none away (`hasDirectory_write`).  Therefore each path stands for the same place before and
after (`place_write`), and what is found there changes at the place of the created file only
(`getElem?_write`).
-/

namespace ItemScoring.Disk

variable {disk next : Disk} {here home names : List String} {name path text place : String}

/-! ### Paths -/

theorem slash_not_mem_of_mem_segments {cs segment : List Char} (h : segment ∈ segments cs) :
    '/' ∉ segment := by
  induction cs generalizing segment with
  | nil =>
      rw [segments, List.mem_singleton] at h
      simp [h]
  | cons c cs ih =>
      rw [segments] at h
      split at h
      · rcases List.mem_cons.mp h with rfl | h
        · exact List.not_mem_nil
        · exact ih h
      next hc =>
        split at h
        · rw [List.mem_singleton] at h
          simp [h, Ne.symm hc]
        next first rest hsegments =>
          -- The character is no slash, and comes in front of the first segment of the rest.
          have hfirst : '/' ∉ first := ih (hsegments ▸ List.mem_cons_self)
          rcases List.mem_cons.mp h with rfl | h
          · simp [hfirst, Ne.symm hc]
          · exact ih (hsegments ▸ List.mem_cons_of_mem first h)

theorem slash_not_mem_of_mem_namesOf (h : namesOf path = .ok names) (hname : name ∈ names) :
    '/' ∉ name.toList := by
  unfold namesOf at h
  split at h
  · contradiction
  · contradiction
  · obtain ⟨segment, hsegment, rfl⟩ := List.mem_map.mp (Except.ok.inj h ▸ hname)
    simpa using slash_not_mem_of_mem_segments hsegment

theorem pathOf_append (h : names ≠ []) :
    pathOf (names ++ [name]) = pathOf names ++ "/" ++ name := by
  simp [pathOf, String.intercalate_append_of_ne_nil h (List.cons_ne_nil name [])]

/-! ### Directories -/

theorem hasDirectory_iff : disk.hasDirectory names ↔
    names = [] ∨ ∃ path ∈ disk.files, (pathOf names ++ "/").toList <+: path.toList := by
  simp [hasDirectory, Std.TreeMap.mem_keys]

theorem hasDirectory_nil : disk.hasDirectory [] := hasDirectory_iff.mpr (Or.inl rfl)

theorem hasDirectory_dropLast (h : disk.hasDirectory names) : disk.hasDirectory names.dropLast := by
  rcases List.eq_nil_or_concat' names with rfl | ⟨above, last, rfl⟩
  · exact h
  · rw [List.dropLast_concat]
    rcases eq_or_ne above [] with rfl | hne
    · exact hasDirectory_nil
    · obtain hnil | ⟨path, hpath, hprefix⟩ := hasDirectory_iff.mp h
      · simp at hnil
      · refine hasDirectory_iff.mpr (Or.inr ⟨path, hpath, ?_⟩)
        rw [pathOf_append hne] at hprefix
        refine List.IsPrefix.trans ?_ hprefix
        simp [String.toList_append]

/-- Names lead from directories to directories. -/
theorem hasDirectory_of_enter (h : disk.enter here names = .ok home)
    (hhere : disk.hasDirectory here) : disk.hasDirectory home := by
  induction names generalizing here with
  | nil =>
      rw [enter] at h
      exact Except.ok.inj h ▸ hhere
  | cons name rest ih =>
      rw [enter] at h
      split_ifs at h with hstay hup htop hdirectory
      · exact ih h hhere
      · exact ih h (hasDirectory_dropLast hhere)
      · exact ih h hdirectory

/-- Which paths names lead to depends on the directories alone. -/
theorem enter_eq_ok_congr (h : ∀ names, next.hasDirectory names = disk.hasDirectory names) :
    next.enter here names = .ok home ↔ disk.enter here names = .ok home := by
  induction names generalizing here with
  | nil => rfl
  | cons name rest ih =>
      rw [enter, enter, h]
      split_ifs
      all_goals first | exact ih | simp

/-! ### Creating a file -/

theorem place_eq_ok : disk.place path = .ok place ↔ ∃ names home solid,
    namesOf path = .ok names ∧ solid = (names.reverse.dropWhile (· == "")).reverse ∧
      disk.enter [] solid.dropLast = .ok home ∧
      ¬ (isDots (names.getLastD "") ∨ disk.hasDirectory (home ++ [solid.getLastD ""])) ∧
      pathOf (home ++ [solid.getLastD ""]) = place := by
  simp only [Disk.place, bind_eq_ok, ite_eq_iff]
  simp

/-- A file is created in a directory that is there. -/
theorem exists_of_place (h : disk.place path = .ok place) : ∃ home name,
    disk.hasDirectory home ∧ '/' ∉ name.toList ∧ place = pathOf (home ++ [name]) := by
  obtain ⟨names, home, solid, hnames, hsolid, hhome, -, rfl⟩ := place_eq_ok.mp h
  refine ⟨home, _, hasDirectory_of_enter hhome hasDirectory_nil, ?_, rfl⟩
  have hmem : solid.getLastD "" ∈ "" :: solid := List.getLastD_mem_cons
  rcases List.mem_cons.mp hmem with hlast | hlast
  · rw [hlast]
    exact List.not_mem_nil
  · have hsub : solid.reverse.Sublist names.reverse := by
      rw [hsolid, List.reverse_reverse]
      exact List.dropWhile_sublist _
    exact slash_not_mem_of_mem_namesOf hnames ((List.reverse_sublist.mp hsub).subset hlast)

theorem write_eq_ok : disk.write path text = .ok next ↔
    ∃ place, disk.place path = .ok place ∧
      { files := disk.files.insert place text.toUTF8 } = next := by
  simp only [write, bind_eq_ok, pure, Except.pure, Except.ok.injEq]

/-- A start that ends with a letter is over before a text without that letter. -/
theorem prefix_of_prefix_append {letter : Char} {start front rest : List Char}
    (hrest : letter ∉ rest) (h : start ++ [letter] <+: front ++ rest) :
    start ++ [letter] <+: front := by
  induction rest using List.reverseRecOn with
  | nil => rwa [List.append_nil] at h
  | append_singleton rest last ih =>
      rw [List.mem_append, List.mem_singleton, not_or] at hrest
      rw [← List.append_assoc, List.prefix_concat_iff] at h
      rcases h with h | h
      · exact absurd (List.append_inj_right' h rfl) (by simpa using hrest.2)
      · exact ih hrest.1 h

/-- The directories on the way to a file are those on the way to its directory. -/
theorem hasDirectory_of_prefix (hhome : disk.hasDirectory home) (hname : '/' ∉ name.toList)
    (h : (pathOf names ++ "/").toList <+: (pathOf (home ++ [name])).toList) :
    disk.hasDirectory names := by
  rcases eq_or_ne home [] with rfl | hne
  · have hmem : '/' ∈ (pathOf names ++ "/").toList := by simp
    exact absurd (by simpa [pathOf] using h.subset hmem) hname
  · obtain ⟨file, hfile, hprefix⟩ := (hasDirectory_iff.mp hhome).resolve_left hne
    rw [pathOf_append hne, String.toList_append, String.toList_append] at h
    have hfront := prefix_of_prefix_append hname h
    refine hasDirectory_iff.mpr (Or.inr ⟨file, hfile, ?_⟩)
    rw [String.toList_append]
    exact hfront.trans hprefix

/-- Creating a file neither makes a directory nor takes one away. -/
theorem hasDirectory_write (h : disk.write path text = .ok next) (names : List String) :
    next.hasDirectory names = disk.hasDirectory names := by
  obtain ⟨place, hplace, rfl⟩ := write_eq_ok.mp h
  obtain ⟨home, name, hhome, hname, rfl⟩ := exists_of_place hplace
  rw [Bool.eq_iff_iff]
  constructor
  · intro hnext
    obtain rfl | ⟨file, hfile, hprefix⟩ := hasDirectory_iff.mp hnext
    · exact hasDirectory_nil
    · -- The new file lies in a directory that was there, so it makes no directory.
      rcases Std.TreeMap.mem_insert.mp hfile with heq | hfile
      · rw [Std.compare_eq_iff_eq] at heq
        exact hasDirectory_of_prefix hhome hname (heq ▸ hprefix)
      · exact hasDirectory_iff.mpr (Or.inr ⟨file, hfile, hprefix⟩)
  · intro hdirectory
    obtain rfl | ⟨file, hfile, hprefix⟩ := hasDirectory_iff.mp hdirectory
    · exact hasDirectory_nil
    · exact hasDirectory_iff.mpr (Or.inr
        ⟨file, Std.TreeMap.mem_insert.mpr (Or.inr hfile), hprefix⟩)

/-- A path stands for the same place after a file was created. -/
theorem place_write {other : String} (h : disk.write path text = .ok next) :
    next.place other = .ok place ↔ disk.place other = .ok place := by
  simp only [place_eq_ok, enter_eq_ok_congr (hasDirectory_write h), hasDirectory_write h]

/-- What is at the places of other paths stays. -/
theorem getElem?_write {other : String} (h : disk.write path text = .ok next)
    (hother : disk.place path ≠ .ok other) : next.files[other]? = disk.files[other]? := by
  obtain ⟨place, hplace, rfl⟩ := write_eq_ok.mp h
  have hne : compare place other ≠ .eq := by
    rw [Ne, Std.compare_eq_iff_eq]
    rintro rfl
    exact hother hplace
  rw [Std.TreeMap.getElem?_insert, if_neg hne]

end ItemScoring.Disk
