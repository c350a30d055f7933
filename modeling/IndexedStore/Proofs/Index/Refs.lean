import IndexedStore.Index.Entries
import IndexedStore.Proofs.Codec.Value

/-! # Lists of owned entries

A list of index entries is determined by what it contains, and its payload is read back as
the same list.
-/
namespace IndexedStore

open Cbor (Item)

namespace IndexRef

theorem ofItem?_toItem (e : IndexRef) : ofItem? e.toItem = some e := by
  unfold ofItem?
  cases e with
  | equality k =>
    rw [toItem, Item.variant?_variant (n := 0) (by decide) (by decide)]
    rfl
  | geo k =>
    rw [toItem, Item.variant?_variant (n := 1) (by decide) (by decide)]
    rfl

end IndexRef

namespace BackRefs

@[simp] theorem contains_empty (r : IndexRef) : empty.contains r = false := by
  cases r <;> rfl

theorem ext_contains {r s : BackRefs} (h : ∀ e, r.contains e = s.contains e) : r = s := by
  obtain ⟨q, g⟩ := r
  obtain ⟨q', g'⟩ := s
  obtain rfl : q = q' := TextSet.ext fun k => h (.equality k)
  obtain rfl : g = g' := TextSet.ext fun k => h (.geo k)
  rfl

theorem mem_toList {r : BackRefs} {e : IndexRef} : e ∈ r.toList ↔ r.contains e = true := by
  cases e <;> simp [toList, contains, Dict.mem_keys]

theorem isEmpty_iff {r : BackRefs} : r.isEmpty = true ↔ ∀ e, r.contains e = false := by
  unfold isEmpty
  rw [Bool.and_eq_true, Dict.isEmpty_iff, Dict.isEmpty_iff]
  constructor
  · rintro ⟨hq, hg⟩ (k | k)
    · exact Dict.contains_eq_false.mpr (hq k)
    · exact Dict.contains_eq_false.mpr (hg k)
  · intro h
    exact ⟨fun k => Dict.contains_eq_false.mp (h (.equality k)),
      fun k => Dict.contains_eq_false.mp (h (.geo k))⟩

theorem contains_insert (r : BackRefs) (e e' : IndexRef) :
    (r.insert e).contains e' = (decide (e = e') || r.contains e') := by
  cases e <;> cases e' <;> simp [insert, contains, TextSet.insertText, Dict.contains_insert]

theorem contains_foldl_insert (l : List IndexRef) (r : BackRefs) (e : IndexRef) :
    (l.foldl insert r).contains e = (decide (e ∈ l) || r.contains e) := by
  induction l generalizing r with
  | nil => simp
  | cons a l ih =>
    rw [List.foldl_cons, ih, contains_insert]
    by_cases h : e = a
    · simp [h]
    · simp [h, Ne.symm h]

theorem ofList_toList (r : BackRefs) : ofList r.toList = r := by
  apply ext_contains
  intro e
  rw [ofList, contains_foldl_insert, contains_empty, Bool.or_false, Bool.eq_iff_iff]
  simp [mem_toList]

theorem canonical_toItem (r : BackRefs) : r.toItem.Canonical := by
  apply Item.allCanonical_iff.mpr
  intro i hi
  obtain ⟨e, -, rfl⟩ := List.mem_map.mp hi
  cases e <;> exact Item.canonical_variant trivial

theorem ofItem?_toItem (r : BackRefs) : ofItem? r.toItem = some r := by
  have hread := mapM_map_of_inverse IndexRef.ofItem?_toItem r.toList
  simp [ofItem?, toItem, Item.list?, Item.untagged, hread, ofList_toList]

theorem faithful (r : BackRefs) : Faithful r := ⟨r.canonical_toItem, fun _ => r.ofItem?_toItem⟩

theorem nesting_toItem (r : BackRefs) : r.toItem.nesting ≤ 2 := by
  have hitems : ∀ l : List IndexRef, Item.itemsNesting (l.map IndexRef.toItem) ≤ 1 := by
    intro l
    induction l with
    | nil => exact Nat.zero_le _
    | cons e l ih =>
      rw [List.map_cons, Item.itemsNesting, Nat.max_le]
      exact ⟨by cases e <;> exact Nat.le_refl 1, ih⟩
  exact Nat.succ_le_succ (hitems r.toList)

theorem decode_payload {r r' : BackRefs} :
    decode (payload r) = .ok r' ↔ r' = r ∧ (payload r).length ≤ maxPayload := by
  have hn : (Storable.toItem r).nesting ≤ Cbor.maxNesting :=
    Nat.le_trans r.nesting_toItem (by decide)
  rw [IndexedStore.decode_payload r.faithful]
  simp [hn]

end BackRefs

end IndexedStore
