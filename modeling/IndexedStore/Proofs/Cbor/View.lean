import IndexedStore.Cbor.View
import IndexedStore.Proofs.Cbor.RoundTrip

/-! # Written records and variants

A record that was written field by field is taken apart into the same fields, and a variant
into its position and what it carries.
-/
namespace IndexedStore.Cbor.Item

theorem fill_text {names : List String} {strict : Bool} {slots : List (Option Item)} {n : Nat}
    {name : String} (hn : names.idxOf name = n) (hlt : n < names.length)
    (hslot : slots[n]? = some none) (v : Item) :
    fill names strict slots (.text name, v) = some (slots.set n (some v)) := by
  simp [fill, position?, untagged, hn, Nat.not_le.mpr hlt, hslot]

theorem foldlM_fill (done rest : List (String × Item)) (strict : Bool)
    (hn : ((done ++ rest).map Prod.fst).Nodup) :
    (rest.map fun f => (text f.1, f.2)).foldlM (fill ((done ++ rest).map Prod.fst) strict)
      (done.map (fun f => some f.2) ++ List.replicate rest.length none) =
        some ((done ++ rest).map fun f => some f.2) := by
  induction rest generalizing done with
  | nil => simp
  | cons f rest ih =>
    obtain ⟨name, v⟩ := f
    have hnot : name ∉ done.map Prod.fst := by
      rw [List.map_append, List.nodup_append] at hn
      intro hmem
      exact hn.2.2 name hmem name (by simp) rfl
    have hidx : ((done ++ (name, v) :: rest).map Prod.fst).idxOf name = done.length := by
      rw [List.map_append, List.idxOf_append, if_neg hnot]
      simp
    have hslot : (done.map (fun f => some f.2) ++
        List.replicate ((name, v) :: rest).length (none : Option Item))[done.length]? =
          some none := by
      simp
    rw [List.map_cons, List.foldlM_cons, fill_text hidx (by simp) hslot]
    have hset : (done.map (fun f => some f.2) ++
        List.replicate ((name, v) :: rest).length (none : Option Item)).set done.length (some v) =
          (done ++ [(name, v)]).map (fun f => some f.2) ++ List.replicate rest.length none := by
      simp [List.replicate_succ]
    have happ : done ++ (name, v) :: rest = (done ++ [(name, v)]) ++ rest := by simp
    rw [hset, happ]
    rw [happ] at hn
    exact ih (done ++ [(name, v)]) hn

theorem fields?_record {l : List (String × Item)} (hn : (l.map Prod.fst).Nodup) (spare : Nat)
    (strict : Bool) :
    (record l).fields? (l.map Prod.fst) spare strict = some (l.map fun f => some f.2) := by
  have h := foldlM_fill [] l strict hn
  simpa [record, object, fields?, untagged] using h

theorem variant?_variant {names : List String} {name : String} {n : Nat}
    (hn : names.idxOf name = n) (hlt : n < names.length) (payload : Item) :
    (variant name payload).variant? names = some (n, some payload) := by
  simp [variant, record, object, variant?, position?, untagged, hn, hlt]

theorem variant?_text {names : List String} {name : String} {n : Nat}
    (hn : names.idxOf name = n) (hlt : n < names.length) :
    (text name).variant? names = some (n, none) := by
  simp [variant?, position?, untagged, hn, hlt]

theorem canonical_object {entries : List (Item × Item)} (h : EntriesCanonical entries) :
    (object entries).Canonical := ⟨rfl, h⟩

theorem canonical_record {l : List (String × Item)} (h : ∀ f ∈ l, f.2.Canonical) :
    (record l).Canonical := by
  apply canonical_object
  induction l with
  | nil => trivial
  | cons f l ih =>
    obtain ⟨hf, hl⟩ := List.forall_mem_cons.mp h
    exact ⟨trivial, hf, ih hl⟩

theorem canonical_variant {name : String} {payload : Item} (h : payload.Canonical) :
    (variant name payload).Canonical :=
  canonical_record fun f hf => by rwa [List.mem_singleton.mp hf]

theorem allCanonical_iff {items : List Item} : AllCanonical items ↔ ∀ i ∈ items, i.Canonical := by
  induction items with
  | nil => simp [AllCanonical]
  | cons i items ih => simp [AllCanonical, ih]

theorem nesting_object (entries : List (Item × Item)) :
    (object entries).nesting = entriesNesting entries + 1 := rfl

theorem nesting_variant (name : String) (payload : Item) :
    (variant name payload).nesting = payload.nesting + 1 := by
  simp [variant, record, object, nesting, entriesNesting]

end IndexedStore.Cbor.Item
