import IndexedStore.Collection.Dict

/-! # Dictionaries through their look-ups

Every operation on dictionaries and on sets of texts is described by what it does to the
look-up of each key; the entries themselves are the pairs that a look-up finds.
-/
namespace IndexedStore

universe u v

namespace Assoc

variable {κ : Type u} {β : Type v} [DecidableEq κ]

theorem lookup_eq_some_iff_of_nodup {l : List (κ × β)} (hl : (l.map Prod.fst).Nodup) (k : κ)
    (b : β) : lookup k l = some b ↔ (k, b) ∈ l := by
  induction l with
  | nil => simp [lookup]
  | cons p l ih =>
    obtain ⟨j, c⟩ := p
    obtain ⟨hj, hl'⟩ := List.nodup_cons.mp hl
    by_cases h : j = k
    · subst h
      have hn : (j, b) ∉ l := fun hm => hj (List.mem_map.mpr ⟨_, hm, rfl⟩)
      simp [lookup, hn, eq_comm]
    · simp [lookup, h, ih hl', Ne.symm h]

variable [LT κ] [LE κ] [Std.IsLinearOrder κ] [Std.LawfulOrderLT κ]

omit [Std.IsLinearOrder κ] [DecidableEq κ] in
theorem Sorted.nodup {l : List (κ × β)} (hl : Sorted l) : (l.map Prod.fst).Nodup :=
  List.pairwise_map.mpr (hl.imp Std.ne_of_lt)

omit [Std.IsLinearOrder κ] in
theorem lookup_eq_some_iff {l : List (κ × β)} (hl : Sorted l) (k : κ) (b : β) :
    lookup k l = some b ↔ (k, b) ∈ l :=
  lookup_eq_some_iff_of_nodup hl.nodup k b

end Assoc

namespace Dict

variable {β : Type u} {γ : Type v}

theorem mem_entries {d : Dict β} {k : String} {b : β} :
    (k, b) ∈ d.entries ↔ d.get? k = some b :=
  (Assoc.lookup_eq_some_iff d.sorted k b).symm

theorem contains_eq_true {d : Dict β} {k : String} :
    d.contains k = true ↔ ∃ b, d.get? k = some b :=
  Option.isSome_iff_exists

theorem contains_eq_false {d : Dict β} {k : String} :
    d.contains k = false ↔ d.get? k = none := by
  simp [contains]

theorem mem_keys {d : Dict β} {k : String} : k ∈ d.keys ↔ d.contains k = true := by
  rw [contains_eq_true]
  simp [keys, mem_entries]

theorem pairwise_keys (d : Dict β) : d.keys.Pairwise (· < ·) :=
  List.pairwise_map.mpr d.sorted

theorem nodup_keys (d : Dict β) : d.keys.Nodup := d.sorted.nodup

theorem length_keys (d : Dict β) : d.keys.length = d.size := List.length_map _

theorem isEmpty_iff {d : Dict β} : d.isEmpty = true ↔ ∀ k, d.get? k = none := by
  constructor
  · intro h k
    rw [isEmpty, List.isEmpty_iff] at h
    rw [get?, h]
    rfl
  · intro h
    obtain rfl : d = empty := ext_get? h
    rfl

/-- The pairs of a list that agree on each key are found, the others as before. -/
theorem get?_foldl_insert {pairs : List (String × β)}
    (hp : ∀ k b c, (k, b) ∈ pairs → (k, c) ∈ pairs → b = c) (d : Dict β) (k : String) (b : β) :
    (pairs.foldl (fun d p => d.insert p.1 p.2) d).get? k = some b ↔
      (k, b) ∈ pairs ∨ ((∀ c, (k, c) ∉ pairs) ∧ d.get? k = some b) := by
  induction pairs generalizing d with
  | nil => simp
  | cons p pairs ih =>
    obtain ⟨j, c⟩ := p
    have hpairs := ih (fun k b c hb hc => hp k b c (List.mem_cons_of_mem _ hb)
      (List.mem_cons_of_mem _ hc)) (d.insert j c)
    rw [List.foldl_cons, hpairs, get?_insert]
    by_cases h : j = k
    · subst h
      have hc : ∀ b, (j, b) ∈ pairs → b = c := fun b hb =>
        hp j b c (List.mem_cons_of_mem _ hb) List.mem_cons_self
      grind
    · grind

theorem ofList_eq_foldl (pairs : List (String × β)) :
    ofList pairs = pairs.foldl (fun d p => d.insert p.1 p.2) empty := by
  suffices h : ∀ d : Dict β, (pairs.foldl (fun d p => d.insert p.1 p.2) d).entries =
      pairs.foldl (fun l p => Assoc.insert p.1 p.2 l) d.entries by
    have he := h empty
    generalize pairs.foldl (fun d p => d.insert p.1 p.2) empty = d at he
    obtain ⟨l, hl⟩ := d
    cases he
    rfl
  induction pairs with
  | nil => exact fun _ => rfl
  | cons p pairs ih => exact fun d => ih (d.insert p.1 p.2)

theorem get?_ofList {pairs : List (String × β)}
    (hp : ∀ k b c, (k, b) ∈ pairs → (k, c) ∈ pairs → b = c) (k : String) (b : β) :
    (ofList pairs).get? k = some b ↔ (k, b) ∈ pairs := by
  rw [ofList_eq_foldl, get?_foldl_insert hp]
  simp [get?_empty]

theorem ofList_entries (d : Dict β) : ofList d.entries = d := by
  apply ext_get?
  intro k
  ext b
  have hp : ∀ k b c, (k, b) ∈ d.entries → (k, c) ∈ d.entries → b = c := by
    intro k b c hb hc
    rw [mem_entries] at hb hc
    exact Option.some.inj (hb.symm.trans hc)
  rw [get?_ofList hp, mem_entries]

theorem get?_filterKeys (d : Dict β) (p : String → Bool) (k : String) :
    (d.filterKeys p).get? k = if p k then d.get? k else none := by
  ext b
  rw [← mem_entries, filterKeys, List.mem_filter]
  split
  · simp_all [mem_entries]
  · simp_all

theorem get?_union (d e : Dict β) (k : String) :
    (d.union e).get? k = (e.get? k).or (d.get? k) := by
  have hp : ∀ k b c, (k, b) ∈ e.entries → (k, c) ∈ e.entries → b = c := by
    intro k b c hb hc
    rw [mem_entries] at hb hc
    exact Option.some.inj (hb.symm.trans hc)
  ext b
  rw [union, get?_foldl_insert hp]
  simp only [mem_entries]
  cases e.get? k <;> simp

theorem contains_insert (d : Dict β) (k j : String) (b : β) :
    (d.insert k b).contains j = (decide (k = j) || d.contains j) := by
  simp only [contains, get?_insert]
  split <;> simp_all

end Dict

namespace Assoc

theorem lookup_eq_none {β : Type u} {k : String} {l : List (String × β)} :
    lookup k l = none ↔ k ∉ l.map Prod.fst := by
  induction l with
  | nil => simp [lookup]
  | cons p l ih =>
    obtain ⟨j, b⟩ := p
    by_cases h : j = k
    · simp [lookup, h]
    · simp [lookup, h, ih, Ne.symm h]

theorem ofList_of_sorted {β : Type u} {l : List (String × β)} (h : Sorted l) :
    ofList l = l :=
  congrArg Dict.entries (Dict.ofList_entries ⟨l, h⟩)

end Assoc

namespace TextSet

theorem contains_ofTexts (l : List String) (t : String) :
    (ofTexts l).contains t = true ↔ t ∈ l := by
  rw [Dict.contains_eq_true, ofTexts]
  simp [Dict.get?_ofList]

@[simp] theorem contains_empty (t : String) : (Dict.empty : TextSet).contains t = false := rfl

theorem contains_inter (s t : TextSet) (x : String) :
    (s.inter t).contains x = (s.contains x && t.contains x) := by
  rw [Dict.contains, inter, Dict.get?_filterKeys]
  cases t.contains x <;> simp [Dict.contains]

theorem contains_union (s t : TextSet) (x : String) :
    Dict.contains (Dict.union s t) x = (s.contains x || t.contains x) := by
  rw [Dict.contains, Dict.get?_union]
  cases h : Dict.get? t x <;> simp [Dict.contains, h]

theorem keys_ofTexts {l : List String} (h : l.Pairwise (· < ·)) : (ofTexts l).keys = l := by
  have hs : Assoc.Sorted (l.map fun s => (s, ())) := List.pairwise_map.mpr h
  have hentries : (ofTexts l).entries = l.map fun s => (s, ()) := Assoc.ofList_of_sorted hs
  rw [Dict.keys, hentries, List.map_map]
  exact List.map_id l

theorem ext {s t : TextSet} (h : ∀ x, s.contains x = t.contains x) : s = t := by
  apply Dict.ext_get?
  intro k
  have hk := h k
  simp only [Dict.contains] at hk
  cases hs : s.get? k <;> cases ht : t.get? k <;> simp_all

end TextSet

theorem Dict.keys_ext {β : Type u} {γ : Type v} {d : Dict β} {e : Dict γ}
    (h : ∀ k, d.contains k = e.contains k) : d.keys = e.keys := by
  have hs : TextSet.ofTexts d.keys = TextSet.ofTexts e.keys := by
    apply TextSet.ext
    intro k
    rw [Bool.eq_iff_iff, TextSet.contains_ofTexts, TextSet.contains_ofTexts, mem_keys, mem_keys,
      h k]
  rw [← TextSet.keys_ofTexts d.pairwise_keys, hs, TextSet.keys_ofTexts e.pairwise_keys]

end IndexedStore
