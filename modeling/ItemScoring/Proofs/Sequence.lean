import Mathlib.Data.List.Basic
import Mathlib.Data.List.Forall2

/-!
# Steps that may fail

The checks and readers of the library are sequences of steps, of which the first
failure ends the whole.  The lemmas of this file take such a sequence apart: what
each step came to if the whole succeeded, and which step failed if it did not.
-/

namespace ItemScoring

variable {ε α β : Type}

@[simp] theorem ok_bind (a : α) (f : α → Except ε β) : (Except.ok a >>= f) = f a := rfl

@[simp] theorem error_bind (e : ε) (f : α → Except ε β) :
    ((Except.error e : Except ε α) >>= f) = .error e := rfl

theorem bind_eq_ok {x : Except ε α} {f : α → Except ε β} {b : β} :
    (x >>= f) = .ok b ↔ ∃ a, x = .ok a ∧ f a = .ok b := by
  cases x <;> simp

theorem bind_eq_error {x : Except ε α} {f : α → Except ε β} {e : ε} :
    (x >>= f) = .error e ↔ x = .error e ∨ ∃ a, x = .ok a ∧ f a = .error e := by
  cases x <;> simp

/-- A step without a result is followed by the next one if it succeeds. -/
theorem check_bind_eq_ok {x : Except ε Unit} {next : Except ε β} {b : β} :
    (x >>= fun _ => next) = .ok b ↔ x = .ok () ∧ next = .ok b := by
  cases x <;> simp

/-- A step without a result fails, or is followed by a step that does. -/
theorem check_bind_eq_error {x : Except ε Unit} {next : Except ε β} {e : ε} :
    (x >>= fun _ => next) = .error e ↔ x = .error e ∨ x = .ok () ∧ next = .error e := by
  cases x <;> simp

theorem eq_ok_iff_forall_ne_error {x : Except ε Unit} : x = .ok () ↔ ∀ e, ¬ x = .error e := by
  cases x <;> simp

theorem error_if_eq_error {p : Prop} [Decidable p] {e e' : ε} :
    (if p then .error e' else .ok () : Except ε Unit) = .error e ↔ p ∧ e = e' := by
  by_cases hp : p <;> simp [hp, @eq_comm _ e]

theorem mapError_eq_ok {ε' : Type} {x : Except ε α} {f : ε → ε'} {a : α} :
    x.mapError f = .ok a ↔ x = .ok a := by
  cases x <;> simp [Except.mapError]

theorem map_eq_ok {x : Except ε α} {f : α → β} {b : β} :
    x.map f = .ok b ↔ ∃ a, x = .ok a ∧ f a = b := by
  cases x <;> simp [Except.map]

theorem map_eq_error {x : Except ε α} {f : α → β} {e : ε} : x.map f = .error e ↔ x = .error e := by
  cases x <;> simp [Except.map]

/-- What follows a refusal under a condition runs if the condition fails. -/
theorem throw_if_eq_ok {p : Prop} [Decidable p] {e : ε} {next : Except ε β} {b : β} :
    (if p then (throw e : Except ε Unit) >>= fun _ => next else next) = .ok b ↔
      ¬ p ∧ next = .ok b := by
  by_cases hp : p <;> simp [hp, throw, throwThe, MonadExceptOf.throw]

theorem error_if_bind {p : Prop} [Decidable p] {e : ε} {next : Except ε α} {f : α → Except ε β} :
    ((if p then .error e else next) >>= f) = if p then .error e else next >>= f := by
  by_cases hp : p <;> simp [hp]

/-! ### Distinct members -/

/-- A list is distinct, and apart from an earlier one, if its members are so one after
the other. -/
theorem nodup_cons_fresh {first : α} {rest earlier : List α} :
    (first ∉ earlier ∧ rest.Nodup ∧ ∀ a ∈ rest, a ∉ first :: earlier) ↔
      (first :: rest).Nodup ∧ ∀ a ∈ first :: rest, a ∉ earlier := by
  simp only [List.mem_cons, not_or, List.nodup_cons, forall_eq_or_imp]
  constructor
  · rintro ⟨hfirst, hrest, hnew⟩
    exact ⟨⟨fun hmem => (hnew first hmem).1 rfl, hrest⟩, hfirst, fun a ha => (hnew a ha).2⟩
  · rintro ⟨⟨hnew, hrest⟩, hfirst, hold⟩
    exact ⟨hfirst, hrest, fun a ha => ⟨fun h => hnew (h ▸ ha), hold a ha⟩⟩

/-- If no two entries share a key, looking up a key finds its entry. -/
theorem lookup_eq_some_iff_mem [DecidableEq α] {entries : List (α × β)}
    (hdistinct : (entries.map Prod.fst).Nodup) {key : α} {value : β} :
    entries.lookup key = some value ↔ (key, value) ∈ entries := by
  induction entries with
  | nil => simp
  | cons first rest ih =>
      obtain ⟨other, found⟩ := first
      obtain ⟨hother, hrest⟩ := List.nodup_cons.mp hdistinct
      by_cases hkey : key = other
      · -- The key stands in front, and nowhere else.
        subst hkey
        have hnew : (key, value) ∉ rest := fun h => hother (List.mem_map.mpr ⟨_, h, rfl⟩)
        simp [hnew, eq_comm]
      · rw [List.lookup_cons, beq_eq_false_iff_ne.mpr hkey]
        simp [hkey, ih hrest]

section EraseDups

variable [DecidableEq α]

theorem nodup_eraseDups (list : List α) : list.eraseDups.Nodup := by
  -- The rest without its first member is shorter than the list.
  induction hlength : list.length using Nat.strongRecOn generalizing list with
  | ind length ih =>
      cases list with
      | nil => simp
      | cons first rest =>
          have hle := List.length_filter_le (fun a => !a == first) rest
          rw [List.length_cons] at hlength
          rw [List.eraseDups_cons, List.nodup_cons]
          refine ⟨fun hmem => ?_, ih _ (by omega) _ rfl⟩
          have hfiltered := List.mem_eraseDups.mp hmem
          simp at hfiltered

theorem head?_eraseDups (list : List α) : list.eraseDups.head? = list.head? := by
  cases list with
  | nil => simp
  | cons first rest => simp [List.eraseDups_cons]

end EraseDups

/-! ### First members -/

/-- The first member of a list with a property. -/
def FirstIn {α : Type} (P : α → Prop) (list : List α) (a : α) : Prop :=
  ∃ before after, list = before ++ a :: after ∧ (∀ b ∈ before, ¬ P b) ∧ P a

section FirstIn

variable {α : Type} {P : α → Prop} {list : List α} {a b : α}

theorem find?_eq_some_iff_firstIn {p : α → Bool} :
    list.find? p = some a ↔ FirstIn (fun b => p b = true) list a := by
  rw [List.find?_eq_some_iff_append, FirstIn]
  constructor
  · rintro ⟨ha, before, after, rfl, hbefore⟩
    exact ⟨before, after, rfl, by simpa using hbefore, ha⟩
  · rintro ⟨before, after, rfl, hbefore, ha⟩
    exact ⟨ha, before, after, rfl, by simpa using hbefore⟩

theorem FirstIn.mem (h : FirstIn P list a) : a ∈ list := by
  obtain ⟨before, after, rfl, -⟩ := h
  simp

theorem FirstIn.holds (h : FirstIn P list a) : P a := by
  obtain ⟨-, -, -, -, ha⟩ := h
  exact ha

theorem firstIn_cons_of_pos {first : α} {rest : List α} (hfirst : P first) :
    FirstIn P (first :: rest) a ↔ a = first := by
  constructor
  · rintro ⟨before, after, heq, hbefore, -⟩
    cases before with
    | nil => exact (List.cons.inj heq).1.symm
    | cons b before =>
        obtain ⟨rfl, -⟩ := List.cons.inj heq
        exact absurd hfirst (hbefore _ List.mem_cons_self)
  · intro heq
    subst heq
    exact ⟨[], rest, rfl, by simp, hfirst⟩

theorem firstIn_cons_of_neg {first : α} {rest : List α} (hfirst : ¬ P first) :
    FirstIn P (first :: rest) a ↔ FirstIn P rest a := by
  constructor
  · rintro ⟨before, after, heq, hbefore, ha⟩
    cases before with
    | nil =>
        obtain ⟨rfl, -⟩ := List.cons.inj heq
        exact absurd ha hfirst
    | cons b before =>
        obtain ⟨-, rfl⟩ := List.cons.inj heq
        exact ⟨before, after, rfl, (List.forall_mem_cons.mp hbefore).2, ha⟩
  · rintro ⟨before, after, rfl, hbefore, ha⟩
    exact ⟨first :: before, after, rfl, List.forall_mem_cons.mpr ⟨hfirst, hbefore⟩, ha⟩

theorem firstIn_congr {Q : α → Prop} (h : ∀ b ∈ list, P b ↔ Q b) :
    FirstIn P list a ↔ FirstIn Q list a := by
  constructor
  · rintro ⟨before, after, rfl, hbefore, ha⟩
    exact ⟨before, after, rfl, fun b hb => mt (h b (by simp [hb])).mpr (hbefore b hb),
      (h a (by simp)).mp ha⟩
  · rintro ⟨before, after, rfl, hbefore, ha⟩
    exact ⟨before, after, rfl, fun b hb => mt (h b (by simp [hb])).mp (hbefore b hb),
      (h a (by simp)).mpr ha⟩

/-- Leaving out repetitions does not change which member is the first. -/
theorem firstIn_eraseDups [DecidableEq α] :
    FirstIn P list.eraseDups a ↔ FirstIn P list a := by
  classical
  suffices h : list.eraseDups.find? (fun b => decide (P b)) = list.find? fun b => decide (P b) by
    have : list.find? (fun b => decide (P b)) = some a ↔
        FirstIn (fun b => decide (P b) = true) list a := find?_eq_some_iff_firstIn
    rw [← h, find?_eq_some_iff_firstIn] at this
    simpa using this
  induction hlength : list.length using Nat.strongRecOn generalizing list with
  | ind length ih =>
      cases list with
      | nil => simp
      | cons first rest =>
          rw [List.eraseDups_cons, List.find?_cons, List.find?_cons]
          split
          · rfl
          next hfirst =>
            have hle := List.length_filter_le (fun b => !b == first) rest
            rw [ih _ (by simp only [List.length_cons] at hlength; omega) rfl, List.find?_filter]
            congr 1
            funext b
            by_cases hb : b = first
            · subst hb
              simp [hfirst]
            · simp [hb]

/-- The first member of two lists is that of the first list, or that of the second one if the
first has none. -/
theorem firstIn_append {first second : List α} :
    FirstIn P (first ++ second) a ↔
      FirstIn P first a ∨ (∀ b ∈ first, ¬ P b) ∧ FirstIn P second a := by
  induction first with
  | nil => simp [FirstIn]
  | cons b rest ih =>
      by_cases hb : P b
      · rw [List.cons_append, firstIn_cons_of_pos hb, firstIn_cons_of_pos hb]
        simp [hb]
      · rw [List.cons_append, firstIn_cons_of_neg hb, firstIn_cons_of_neg hb, ih]
        simp [hb]

/-- The first image with a property is that of the first member whose image has it. -/
theorem firstIn_map {β : Type} {f : β → α} {list : List β} :
    FirstIn P (list.map f) a ↔ ∃ b, FirstIn (fun b => P (f b)) list b ∧ f b = a := by
  induction list with
  | nil => simp [FirstIn]
  | cons b rest ih =>
      rw [List.map_cons]
      by_cases hb : P (f b)
      · have hcons : ∀ c, FirstIn (fun b => P (f b)) (b :: rest) c ↔ c = b :=
          fun c => firstIn_cons_of_pos hb
        simp [firstIn_cons_of_pos hb, hcons, eq_comm]
      · have hcons : ∀ c, FirstIn (fun b => P (f b)) (b :: rest) c ↔
            FirstIn (fun b => P (f b)) rest c := fun c => firstIn_cons_of_neg hb
        simp [firstIn_cons_of_neg hb, hcons, ih]

/-- In a list that is ordered, what comes before a member is what is less. -/
theorem firstIn_iff_of_pairwise {R : α → α → Prop} (hordered : list.Pairwise R)
    (hasymm : ∀ b, R a b → ¬ R b a) :
    FirstIn P list a ↔ a ∈ list ∧ P a ∧ ∀ b ∈ list, R b a → ¬ P b := by
  constructor
  · rintro ⟨before, after, rfl, hbefore, ha⟩
    refine ⟨by simp, ha, fun b hb hless => ?_⟩
    obtain ⟨-, hbehind, -⟩ := List.pairwise_append.mp hordered
    rcases List.mem_append.mp hb with hb | hb
    · exact hbefore b hb
    · rcases List.mem_cons.mp hb with rfl | hb
      · exact absurd hless (hasymm _ hless)
      · -- What stands behind the member is not less.
        exact absurd hless (hasymm b ((List.pairwise_cons.mp hbehind).1 b hb))
  · rintro ⟨hmem, ha, hless⟩
    obtain ⟨before, after, rfl⟩ := List.append_of_mem hmem
    obtain ⟨-, -, hfront⟩ := List.pairwise_append.mp hordered
    exact ⟨before, after, rfl, fun b hb => hless b (List.mem_append_left _ hb)
      (hfront b hb a List.mem_cons_self), ha⟩

theorem exists_firstIn {list : List α} (h : ∃ a ∈ list, P a) : ∃ a, FirstIn P list a := by
  classical
  obtain ⟨a, ha, hPa⟩ := h
  cases hfind : list.find? fun b => decide (P b) with
  | some b => exact ⟨b, by simpa using find?_eq_some_iff_firstIn.mp hfind⟩
  | none => exact absurd hPa (by simpa using List.find?_eq_none.mp hfind a ha)

/-- The first member of joined lists does not change with lists that have the same first members. -/
theorem firstIn_flatMap_congr {β : Type} {f g : β → List α} {list : List β}
    (h : ∀ b ∈ list, ∀ a, FirstIn P (f b) a ↔ FirstIn P (g b) a) :
    FirstIn P (list.flatMap f) a ↔ FirstIn P (list.flatMap g) a := by
  -- A list without such a member has no first one, so the two lists lack them together.
  have hnone : ∀ b ∈ list, ((∀ c ∈ f b, ¬ P c) ↔ ∀ c ∈ g b, ¬ P c) := by
    intro b hb
    constructor
    · intro hf c hc hPc
      obtain ⟨d, hd⟩ := exists_firstIn ⟨c, hc, hPc⟩
      have hd := (h b hb d).mpr hd
      exact hf d hd.mem hd.holds
    · intro hg c hc hPc
      obtain ⟨d, hd⟩ := exists_firstIn ⟨c, hc, hPc⟩
      have hd := (h b hb d).mp hd
      exact hg d hd.mem hd.holds
  induction list with
  | nil => rfl
  | cons b rest ih =>
      obtain ⟨hb, hrest⟩ := List.forall_mem_cons.mp h
      obtain ⟨hnoneb, hnonerest⟩ := List.forall_mem_cons.mp hnone
      rw [List.flatMap_cons, List.flatMap_cons, firstIn_append, firstIn_append]
      exact or_congr (hb a) (and_congr hnoneb (ih hrest hnonerest))

/-- Distinct members are listed in the order in which they are found. -/
theorem pairwise_firstIn {list : List α} (hdistinct : list.Nodup) :
    list.Pairwise fun a b => FirstIn (fun c => c = a ∨ c = b) list a := by
  induction list with
  | nil => exact .nil
  | cons first rest ih =>
      obtain ⟨hfirst, hrest⟩ := List.nodup_cons.mp hdistinct
      refine List.pairwise_cons.mpr ⟨fun b _ => ⟨[], rest, rfl, by simp, Or.inl rfl⟩, ?_⟩
      refine (ih hrest).imp_of_mem fun {a b} ha hb h => (firstIn_cons_of_neg ?_).mpr h
      rintro (rfl | rfl)
      · exact hfirst ha
      · exact hfirst hb

/-- Without repetitions members are listed in the order in which they first occur. -/
theorem pairwise_eraseDups [DecidableEq α] (list : List α) :
    list.eraseDups.Pairwise fun a b => a ≠ b ∧ FirstIn (fun c => c = a ∨ c = b) list a := by
  have hdistinct := nodup_eraseDups list
  refine List.Pairwise.and hdistinct ?_
  exact (pairwise_firstIn hdistinct).imp firstIn_eraseDups.mp

end FirstIn

/-! ### Checking a list -/

section Checks

variable {check : α → Except ε Unit}

theorem forM_cons_eq (first : α) (rest : List α) :
    (first :: rest).forM check = (check first >>= fun _ => rest.forM check) := rfl

/-- A list passes a check if all its members do. -/
theorem forM_eq_ok {list : List α} :
    list.forM check = .ok () ↔ ∀ a ∈ list, check a = .ok () := by
  induction list with
  | nil => simp [List.forM, pure, Except.pure]
  | cons first rest ih =>
      rw [forM_cons_eq, bind_eq_ok]
      simp only [List.mem_cons, forall_eq_or_imp, ih]
      exact ⟨fun ⟨_, hfirst, hrest⟩ => ⟨hfirst, hrest⟩, fun ⟨hfirst, hrest⟩ => ⟨_, hfirst, hrest⟩⟩

/-- A list fails a check at the first member that does. -/
theorem forM_eq_error {list : List α} {e : ε} :
    list.forM check = .error e ↔
      ∃ a, FirstIn (fun a => ¬ check a = .ok ()) list a ∧ check a = .error e := by
  induction list with
  | nil => simp [List.forM, pure, Except.pure, FirstIn]
  | cons first rest ih =>
      rw [forM_cons_eq, bind_eq_error, ih]
      cases hfirst : check first with
      | error e' =>
          have hbad : ¬ check first = .ok () := by simp [hfirst]
          have hcons : ∀ a, FirstIn (fun a => ¬ check a = .ok ()) (first :: rest) a ↔ a = first :=
            fun a => firstIn_cons_of_pos hbad
          simp [hcons, hfirst]
      | ok _ =>
          have hgood : ¬ ¬ check first = .ok () := by simp [hfirst]
          have hcons : ∀ a, FirstIn (fun a => ¬ check a = .ok ()) (first :: rest) a ↔
              FirstIn (fun a => ¬ check a = .ok ()) rest a :=
            fun a => firstIn_cons_of_neg hgood
          simp [hcons]

end Checks

/-! ### Evaluating a list -/

/-- Lists that are related member by member stay so with one more pair at the end. -/
theorem forall₂_concat {R : α → β → Prop} {as : List α} {bs : List β} {a : α} {b : β}
    (h : List.Forall₂ R as bs) (hab : R a b) : List.Forall₂ R (as ++ [a]) (bs ++ [b]) :=
  List.rel_append h (.cons hab .nil)

/-- A member of one list has a property if a member of the other has the corresponding one. -/
theorem exists_mem_iff_of_forall₂ {R : α → β → Prop} {P : α → Prop} {Q : β → Prop} {as : List α}
    {bs : List β} (h : List.Forall₂ R as bs) (hiff : ∀ a b, R a b → (P a ↔ Q b)) :
    (∃ a ∈ as, P a) ↔ ∃ b ∈ bs, Q b := by
  induction h with
  | nil => simp
  | cons hab _ ih => rw [List.exists_mem_cons_iff, List.exists_mem_cons_iff, hiff _ _ hab, ih]

/-- All members of a list have a value if the list of values exists. -/
theorem mapM_eq_ok {f : α → Except ε β} {list : List α} {values : List β} :
    list.mapM f = .ok values ↔ List.Forall₂ (fun a b => f a = .ok b) list values := by
  induction list generalizing values with
  | nil => simp [pure, Except.pure, eq_comm]
  | cons first rest ih =>
      simp only [List.mapM_cons, bind_eq_ok, List.forall₂_cons_left_iff, pure, Except.pure,
        Except.ok.injEq, ih]
      constructor
      · rintro ⟨b, hb, others, hothers, rfl⟩
        exact ⟨b, others, hb, hothers, rfl⟩
      · rintro ⟨b, others, hb, hothers, rfl⟩
        exact ⟨b, hb, others, hothers, rfl⟩

/-- The list of values does not exist because of the first member without a value. -/
theorem mapM_eq_error {f : α → Except ε β} {list : List α} {e : ε} :
    list.mapM f = .error e ↔
      ∃ a, FirstIn (fun a => ¬ ∃ b, f a = .ok b) list a ∧ f a = .error e := by
  induction list with
  | nil => simp [pure, Except.pure, FirstIn]
  | cons first rest ih =>
      rw [List.mapM_cons, bind_eq_error]
      -- The first member fails and is the first to fail, or it does not and the failure is behind
      -- it.
      cases hfirst : f first with
      | error e' =>
          have hbad : ¬ ∃ b, f first = .ok b := by simp [hfirst]
          have hcons : ∀ a, FirstIn (fun a => ¬ ∃ b, f a = .ok b) (first :: rest) a ↔ a = first :=
            fun a => firstIn_cons_of_pos hbad
          simp only [hcons, exists_eq_left, hfirst, reduceCtorEq, false_and, exists_false, or_false]
      | ok b =>
          have hgood : ¬ ¬ ∃ b, f first = .ok b := not_not.mpr ⟨b, hfirst⟩
          have hcons : ∀ a, FirstIn (fun a => ¬ ∃ b, f a = .ok b) (first :: rest) a ↔
              FirstIn (fun a => ¬ ∃ b, f a = .ok b) rest a :=
            fun a => firstIn_cons_of_neg hgood
          simp only [hcons, reduceCtorEq, false_or, Except.ok.injEq, exists_eq_left', bind_eq_error,
            ih, pure, Except.pure, and_false, exists_false, or_false]

theorem mapM_eq_some {f : α → Option β} {list : List α} {values : List β} :
    list.mapM f = some values ↔ List.Forall₂ (fun a b => f a = some b) list values := by
  induction list generalizing values with
  | nil => simp [eq_comm]
  | cons first rest ih =>
      simp only [List.mapM_cons, Option.bind_eq_bind, Option.bind_eq_some_iff, Option.pure_def,
        Option.some.injEq, List.forall₂_cons_left_iff, ih]
      constructor
      · rintro ⟨b, hb, others, hothers, rfl⟩
        exact ⟨b, others, hb, hothers, rfl⟩
      · rintro ⟨b, others, hb, hothers, rfl⟩
        exact ⟨b, hb, others, hothers, rfl⟩

theorem mapM_eq_none {f : α → Option β} {list : List α} :
    list.mapM f = none ↔ ∃ a ∈ list, f a = none := by
  induction list with
  | nil => simp
  | cons first rest ih =>
      rw [List.mapM_cons, List.exists_mem_cons_iff, ← ih]
      cases f first <;> cases rest.mapM f <;> simp

/-- If all members of a list have a value, the list of values exists. -/
theorem exists_mapM_eq_ok {f : α → Except ε β} {list : List α} (h : ∀ a ∈ list, ∃ b, f a = .ok b) :
    ∃ values, list.mapM f = .ok values := by
  simp only [mapM_eq_ok]
  induction list with
  | nil => exact ⟨[], .nil⟩
  | cons first rest ih =>
      obtain ⟨hfirst, hrest⟩ := List.forall_mem_cons.mp h
      obtain ⟨b, hb⟩ := hfirst
      obtain ⟨values, hvalues⟩ := ih hrest
      exact ⟨b :: values, .cons hb hvalues⟩

/-- Lists that are both related to a third one are related to each other. -/
theorem forall₂_of_shared {γ : Type} {R : α → β → Prop} {S : α → γ → Prop} {T : β → γ → Prop}
    {as : List α} {bs : List β} {cs : List γ} (hbs : List.Forall₂ R as bs)
    (hcs : List.Forall₂ S as cs) (hT : ∀ a b c, R a b → S a c → T b c) :
    List.Forall₂ T bs cs := by
  induction hbs generalizing cs with
  | nil =>
      cases hcs
      exact .nil
  | cons hab hrest ih =>
      cases hcs with
      | cons hac hothers => exact .cons (hT _ _ _ hab hac) (ih hothers)

/-- Lists that are related member by member are so at every position. -/
theorem forall₂_getElem? {R : α → β → Prop} {as : List α} {bs : List β}
    (h : List.Forall₂ R as bs) {i : Nat} {a : α} (ha : as[i]? = some a) :
    ∃ b, bs[i]? = some b ∧ R a b := by
  induction h generalizing i with
  | nil => simp at ha
  | cons hab hrest ih =>
      cases i with
      | zero =>
          rw [List.getElem?_cons_zero, Option.some.injEq] at ha
          subst ha
          exact ⟨_, rfl, hab⟩
      | succ i => exact ih ha

end ItemScoring
