import IndexedStore.Proofs.Index.Stage

/-! # The plan of a save, slot by slot

A geo entry that the record asks for is always written, an equality entry only when it is not
taken as owned. An owned entry that the record does not ask for is removed.
-/
namespace IndexedStore

open Key (Slot)

namespace IndexPlan

variable {m : KeyspaceModel} {e : Entity} {id : String} {x : IndexEntries} {owned : BackRefs}

theorem lookup_geo (hx : IndexEntries.derive m e id = .ok x) (path : String) :
    (Assoc.lookup (Key.geo m.name path id) x.geo.entries).map payload =
      m.wanted? e.fields (.geo path) := by
  ext b
  rw [KeyspaceModel.wanted?_eq_some, Slot.wanted?_geo, Option.map_eq_some_iff]
  constructor
  · rintro ⟨p, hp, hb⟩
    obtain ⟨path', hpath, hat, hk⟩ := (IndexEntries.get?_geo hx _ p).mp hp
    cases Slot.key_left_inj (s := .geo path) (t := .geo path') hk
    exact ⟨hpath, p, hat, hb⟩
  · rintro ⟨hpath, p, hat, hb⟩
    exact ⟨p, (IndexEntries.get?_geo hx _ p).mpr ⟨path, hpath, hat, rfl⟩, hb⟩

theorem lookup_geo_equality (hx : IndexEntries.derive m e id = .ok x) (path token : String) :
    Assoc.lookup (Key.equality m.name path token id) x.geo.entries = none := by
  cases hp : Assoc.lookup (Key.equality m.name path token id) x.geo.entries with
  | none => rfl
  | some p =>
    obtain ⟨path', -, -, hk⟩ := (IndexEntries.get?_geo hx _ p).mp hp
    cases Slot.key_left_inj (s := .equality path token) (t := .geo path') hk

theorem mem_insert (hx : IndexEntries.derive m e id = .ok x) (k : String) :
    k ∈ (ofEntries owned x).insert ↔
      (m.refs e.fields id).contains (.equality k) = true ∧ owned.contains (.equality k) = false := by
  rw [← IndexEntries.refs_eq hx]
  simp [ofEntries, BackRefs.contains, IndexEntries.refs, Dict.mem_keys]

theorem mem_remove (hx : IndexEntries.derive m e id = .ok x) (hown : owned.Own m.name id)
    {s : Slot} {r : IndexRef} (hr : s.ref? m.name id = some r) :
    r.key ∈ (ofEntries owned x).remove.map IndexRef.key ↔
      owned.contains r = true ∧ m.wanted? e.fields s = none := by
  have hmem : r.key ∈ (ofEntries owned x).remove.map IndexRef.key ↔
      ∃ r', owned.contains r' = true ∧ (m.refs e.fields id).contains r' = false ∧
        r'.key = r.key := by
    rw [← IndexEntries.refs_eq hx]
    simp [ofEntries, BackRefs.mem_toList, and_assoc]
  rw [hmem, ← Option.not_isSome_iff_eq_none, ← KeyspaceModel.contains_refs_of_ref? e.fields hr,
    Bool.not_eq_true]
  constructor
  · rintro ⟨r', hc, hn, hk⟩
    obtain ⟨t, hr'⟩ := hown r' hc
    have hslot : t = s := Slot.key_left_inj
      ((Slot.key_of_ref? hr').trans (hk.trans (Slot.key_of_ref? hr).symm))
    rw [hslot, hr] at hr'
    obtain rfl := Option.some.inj hr'
    exact ⟨hc, hn⟩
  · rintro ⟨hc, hn⟩
    exact ⟨r, hc, hn, rfl⟩

/-- Apart from the list of entries, points go before markers and markers before removals. -/
theorem planned_ofEntries {keyspace k : String} (h : ¬Key.backRefs keyspace id = k) :
    (ofEntries owned x).planned keyspace id k =
      match Assoc.lookup k x.geo.entries with
      | some g => some (some (payload g))
      | none =>
        if k ∈ (ofEntries owned x).insert then some (some [])
        else if k ∈ (ofEntries owned x).remove.map IndexRef.key then some none
        else none :=
  if_neg h

theorem planned_geo (hx : IndexEntries.derive m e id = .ok x) (hown : owned.Own m.name id)
    (path : String) :
    (ofEntries owned x).planned m.name id (Key.geo m.name path id) =
      match m.wanted? e.fields (.geo path) with
      | some b => some (some b)
      | none => if owned.contains (.geo (Key.geo m.name path id)) then some none else none := by
  have hlookup := lookup_geo hx path
  have hrem := mem_remove hx hown (s := .geo path) rfl
  have hins : Key.geo m.name path id ∉ (ofEntries owned x).insert := by
    rw [mem_insert hx, KeyspaceModel.contains_refs]
    rintro ⟨⟨slot, hr, -⟩, -⟩
    cases Slot.key_left_inj (t := .geo path) (Slot.key_of_ref? hr)
    cases hr
  have hne : ¬Key.backRefs m.name id = Key.geo m.name path id := fun h =>
    nomatch Slot.key_left_inj (s := .backRefs) (t := .geo path) h
  rw [planned_ofEntries hne]
  cases hl : Assoc.lookup (Key.geo m.name path id) x.geo.entries with
  | some p =>
    rw [hl] at hlookup
    rw [← hlookup]
    rfl
  | none =>
    rw [hl] at hlookup
    rw [← hlookup] at hrem ⊢
    simp only [hins, IndexRef.key] at hrem ⊢
    simp [hrem]

theorem planned_equality (hx : IndexEntries.derive m e id = .ok x) (hown : owned.Own m.name id)
    (path token : String) :
    (ofEntries owned x).planned m.name id (Key.equality m.name path token id) =
      if owned.contains (.equality (Key.equality m.name path token id)) then
        if (m.wanted? e.fields (.equality path token)).isSome then none else some none
      else (m.wanted? e.fields (.equality path token)).map some := by
  have hrem := mem_remove hx hown (s := .equality path token) rfl
  have hins : Key.equality m.name path token id ∈ (ofEntries owned x).insert ↔ _ := mem_insert hx _
  rw [KeyspaceModel.contains_refs_of_ref? (s := .equality path token) e.fields rfl] at hins
  have hne : ¬Key.backRefs m.name id = Key.equality m.name path token id := fun h =>
    nomatch Slot.key_left_inj (s := .backRefs) (t := .equality path token) h
  rw [planned_ofEntries hne, lookup_geo_equality hx]
  simp only [IndexRef.key] at hrem
  cases he : m.wanted? e.fields (.equality path token) with
  | none => simp [hins, hrem, he]
  | some b =>
    obtain rfl := (Slot.wanted?_equality.mp (KeyspaceModel.wanted?_eq_some.mp he).2).1
    cases hc : owned.contains (.equality (Key.equality m.name path token id)) <;>
      simp [hins, hrem, he, hc]

theorem planned_other (hx : IndexEntries.derive m e id = .ok x) (hown : owned.Own m.name id)
    {k : String} (hk : ∀ slot : Slot, k ≠ slot.key m.name id) :
    (ofEntries owned x).planned m.name id k = none := by
  have hgeo : Assoc.lookup k x.geo.entries = none := by
    cases hp : Assoc.lookup k x.geo.entries with
    | none => rfl
    | some p =>
      obtain ⟨path, -, -, he⟩ := (IndexEntries.get?_geo hx k p).mp hp
      exact absurd he (hk (.geo path))
  have hins : k ∉ (ofEntries owned x).insert := by
    rw [mem_insert hx, KeyspaceModel.contains_refs]
    rintro ⟨⟨slot, hr, -⟩, -⟩
    exact hk slot (Slot.key_of_ref? hr).symm
  have hrem : k ∉ (ofEntries owned x).remove.map IndexRef.key := by
    intro hmem
    obtain ⟨r, hr, rfl⟩ := List.mem_map.mp hmem
    obtain ⟨slot, hslot⟩ := hown r (BackRefs.mem_toList.mp (List.mem_filter.mp hr).1)
    exact hk slot (Slot.key_of_ref? hslot).symm
  have hne : ¬Key.backRefs m.name id = k := (hk .backRefs).symm
  rw [planned_ofEntries hne, hgeo]
  dsimp only
  rw [if_neg hins, if_neg hrem]

end IndexPlan

end IndexedStore
