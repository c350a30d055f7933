/-! # Association lists in key order

A finite map is held as the list of its pairs with strictly increasing keys, so
that equal maps are equal lists. `lookup_insert` and `lookup_erase` say what a
change does to every key, and `ext_lookup` says that the lookups determine the list.
-/

namespace IndexedStore.Assoc

universe u v

variable {κ : Type u} {β : Type v} [LT κ] [DecidableLT κ] [DecidableEq κ]

abbrev Sorted (l : List (κ × β)) : Prop := l.Pairwise fun a b => a.1 < b.1

def lookup (k : κ) : List (κ × β) → Option β
  | [] => none
  | (j, b) :: l => if j = k then some b else lookup k l

/-- Sets the value of `k`, keeping the order of the keys. -/
def insert (k : κ) (b : β) : List (κ × β) → List (κ × β)
  | [] => [(k, b)]
  | (j, c) :: l =>
    if k < j then (k, b) :: (j, c) :: l
    else if j = k then (k, b) :: l
    else (j, c) :: insert k b l

def erase (k : κ) (l : List (κ × β)) : List (κ × β) := l.filter fun p => p.1 ≠ k

def ofList (pairs : List (κ × β)) : List (κ × β) :=
  pairs.foldl (fun l p => insert p.1 p.2 l) []

omit [DecidableLT κ] in
theorem Sorted.erase {l : List (κ × β)} (h : Sorted l) (k : κ) : Sorted (erase k l) :=
  h.filter _

theorem mem_keys_insert {k : κ} {b : β} {l : List (κ × β)} {p : κ × β}
    (hp : p ∈ insert k b l) : p.1 = k ∨ p ∈ l := by
  induction l with
  | nil => exact Or.inl (by rw [List.mem_singleton.mp hp])
  | cons q l ih =>
    obtain ⟨j, c⟩ := q
    unfold insert at hp
    split at hp
    · rcases List.mem_cons.mp hp with rfl | hp
      · exact Or.inl rfl
      · exact Or.inr hp
    · split at hp
      · rcases List.mem_cons.mp hp with rfl | hp
        · exact Or.inl rfl
        · exact Or.inr (List.mem_cons_of_mem _ hp)
      · rcases List.mem_cons.mp hp with rfl | hp
        · exact Or.inr List.mem_cons_self
        · exact (ih hp).imp id (List.mem_cons_of_mem _)

theorem lookup_insert (k j : κ) (b : β) (l : List (κ × β)) :
    lookup j (insert k b l) = if k = j then some b else lookup j l := by
  induction l with
  | nil => rfl
  | cons q l ih =>
    obtain ⟨i, c⟩ := q
    unfold insert
    split
    · rfl
    · split
      · rename_i he
        subst he
        by_cases h : i = j
        · simp only [lookup, h, if_true]
        · simp only [lookup, h, if_false]
      · rename_i he
        simp only [lookup]
        rw [ih]
        by_cases h : i = j
        · subst h
          simp only [if_true, Ne.symm he, if_false]
        · simp only [h, if_false]

omit [LT κ] [DecidableLT κ] in
theorem lookup_erase (k j : κ) (l : List (κ × β)) :
    lookup j (erase k l) = if k = j then none else lookup j l := by
  induction l with
  | nil => simp [erase, lookup]
  | cons q l ih =>
    obtain ⟨i, c⟩ := q
    unfold erase at ih ⊢
    rw [List.filter_cons]
    by_cases hi : i = k
    · subst hi
      simp only [ne_eq, not_true_eq_false, decide_false, Bool.false_eq_true, if_false, ih, lookup]
      by_cases h : i = j <;> simp only [h, if_true, if_false]
    · simp only [ne_eq, hi, not_false_eq_true, decide_true, if_true, lookup, ih]
      by_cases h : i = j
      · subst h
        simp only [if_true, Ne.symm hi, if_false]
      · simp only [h, if_false]

section Order

variable [LE κ] [Std.IsLinearOrder κ] [Std.LawfulOrderLT κ]

theorem Sorted.insert {l : List (κ × β)} (h : Sorted l) (k : κ) (b : β) :
    Sorted (insert k b l) := by
  induction l with
  | nil => exact List.pairwise_singleton _ _
  | cons q l ih =>
    obtain ⟨j, c⟩ := q
    obtain ⟨hj, hl⟩ := List.pairwise_cons.mp h
    unfold Assoc.insert
    split
    · rename_i hk
      refine List.pairwise_cons.mpr ⟨fun p hp => ?_, h⟩
      rcases List.mem_cons.mp hp with rfl | hp
      · exact hk
      · exact Std.lt_trans hk (hj p hp)
    · rename_i hk
      split
      · rename_i he
        subst he
        exact List.pairwise_cons.mpr ⟨hj, hl⟩
      · rename_i he
        refine List.pairwise_cons.mpr ⟨fun p hp => ?_, ih hl⟩
        rcases mem_keys_insert hp with hpk | hp
        · rw [hpk]
          exact ((Std.lt_trichotomy j k).resolve_right
            (fun h => h.elim (fun h => he h) (fun h => hk h)))
        · exact hj p hp

theorem sorted_ofList (pairs : List (κ × β)) : Sorted (ofList pairs) := by
  suffices ∀ l, Sorted l → Sorted (pairs.foldl (fun l p => Assoc.insert p.1 p.2 l) l) from
    this [] List.Pairwise.nil
  induction pairs with
  | nil => exact fun _ h => h
  | cons p pairs ih => exact fun l h => ih _ (h.insert p.1 p.2)

omit [DecidableLT κ] [Std.IsLinearOrder κ] in
theorem lookup_eq_none_of_lt {k : κ} {l : List (κ × β)} (h : ∀ p ∈ l, k < p.1) :
    lookup k l = none := by
  induction l with
  | nil => rfl
  | cons q l ih =>
    obtain ⟨j, c⟩ := q
    have hj : j ≠ k := Ne.symm (Std.ne_of_lt (h _ List.mem_cons_self))
    simp only [lookup, hj, if_false]
    exact ih fun p hp => h p (List.mem_cons_of_mem _ hp)

omit [DecidableLT κ] in
/-- A list in key order is determined by its lookups. -/
theorem ext_lookup {l m : List (κ × β)} (hl : Sorted l) (hm : Sorted m)
    (h : ∀ k, lookup k l = lookup k m) : l = m := by
  induction l generalizing m with
  | nil =>
    cases m with
    | nil => rfl
    | cons q m =>
      have := h q.1
      simp [lookup] at this
  | cons p l ih =>
    obtain ⟨i, b⟩ := p
    cases m with
    | nil =>
      have := h i
      simp [lookup] at this
    | cons q m =>
      obtain ⟨j, c⟩ := q
      obtain ⟨hi, hl'⟩ := List.pairwise_cons.mp hl
      obtain ⟨hj, hm'⟩ := List.pairwise_cons.mp hm
      have hij : i = j := by
        rcases Std.lt_trichotomy i j with hlt | he | hlt
        · have := h i
          rw [lookup_eq_none_of_lt (l := (j, c) :: m) (fun p hp => by
            rcases List.mem_cons.mp hp with rfl | hp
            · exact hlt
            · exact Std.lt_trans hlt (hj p hp))] at this
          simp [lookup] at this
        · exact he
        · have := h j
          rw [lookup_eq_none_of_lt (l := (i, b) :: l) (fun p hp => by
            rcases List.mem_cons.mp hp with rfl | hp
            · exact hlt
            · exact Std.lt_trans hlt (hi p hp))] at this
          simp [lookup] at this
      subst hij
      have hbc : b = c := by simpa [lookup] using h i
      subst hbc
      congr 1
      refine ih hl' hm' fun k => ?_
      by_cases hk : i = k
      · subst hk
        rw [lookup_eq_none_of_lt hi, lookup_eq_none_of_lt hj]
      · simpa [lookup, hk] using h k

end Order

end IndexedStore.Assoc
