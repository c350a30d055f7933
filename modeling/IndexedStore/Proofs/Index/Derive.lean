import IndexedStore.Proofs.Index.Refs
import IndexedStore.Proofs.Key.Slot

/-! # The entries that a record asks for

Whether a slot is wanted is said of the field map alone, path by path: an equality entry for
every indexed path whose value has a token, a geo entry for every geo-indexed path that holds
a point. `IndexEntries.derive` gives exactly the wanted entries.
-/
namespace IndexedStore

open Key (Slot)

namespace Fields

def valueAt (fields : Fields) (path : String) : Option Value :=
  Entity.getPath? ⟨"", none, fields⟩ path

def tokenAt (fields : Fields) (path : String) : Option String :=
  (fields.valueAt path).bind Value.token?

def pointAt (fields : Fields) (path : String) : Option GeoPoint :=
  (fields.valueAt path).bind Value.asPoint?

end Fields

/-- What a geo-indexed path may hold. -/
def Value.isPlace : Value → Bool
  | null => true
  | point p => p.isValid
  | _ => false

theorem Entity.getPath?_eq (e : Entity) (path : String) :
    e.getPath? path = e.fields.valueAt path := rfl

namespace Key.Slot

/-- The index entry that stands in a slot of the entity `id`. -/
def ref? (keyspace id : String) : Slot → Option IndexRef
  | equality path token => some (.equality (Key.equality keyspace path token id))
  | geo path => some (.geo (Key.geo keyspace path id))
  | _ => none

/-- What an index entry that agrees with the record holds: nothing where the value at the path
has the token, the point where the path holds one. -/
def wanted? (fields : Fields) : Slot → Option Bytes
  | equality path token => if fields.tokenAt path = some token then some [] else none
  | geo path => (fields.pointAt path).map payload
  | _ => none

theorem wanted?_equality {fields : Fields} {path token : String} {b : Bytes} :
    (equality path token).wanted? fields = some b ↔ b = [] ∧ fields.tokenAt path = some token := by
  by_cases h : fields.tokenAt path = some token <;> simp [wanted?, h, eq_comm]

theorem wanted?_geo {fields : Fields} {path : String} {b : Bytes} :
    (geo path).wanted? fields = some b ↔ ∃ p, fields.pointAt path = some p ∧ payload p = b :=
  Option.map_eq_some_iff

theorem key_of_ref? {keyspace id : String} {slot : Slot} {e : IndexRef}
    (h : slot.ref? keyspace id = some e) : slot.key keyspace id = e.key := by
  cases slot <;> cases h <;> rfl

theorem eq_of_ref? {keyspace id : String} {slot slot' : Slot} {e : IndexRef}
    (h : slot.ref? keyspace id = some e) (h' : slot'.ref? keyspace id = some e) :
    slot = slot' :=
  key_left_inj ((key_of_ref? h).trans (key_of_ref? h').symm)

end Key.Slot

/-- Every listed entry stands in a slot of the entity. -/
def BackRefs.Own (r : BackRefs) (keyspace id : String) : Prop :=
  ∀ e, r.contains e = true → ∃ slot : Slot, slot.ref? keyspace id = some e

namespace KeyspaceModel

/-- The slots whose path is indexed in their way. -/
def Declares (m : KeyspaceModel) : Slot → Prop
  | .equality path _ => path ∈ m.indexes
  | .geo path => path ∈ m.geoIndexes
  | _ => False

instance (m : KeyspaceModel) : DecidablePred m.Declares
  | .equality path _ => inferInstanceAs (Decidable (path ∈ m.indexes))
  | .geo path => inferInstanceAs (Decidable (path ∈ m.geoIndexes))
  | .record | .member | .backRefs => inferInstanceAs (Decidable False)

def wanted? (m : KeyspaceModel) (fields : Fields) (slot : Slot) : Option Bytes :=
  if m.Declares slot then slot.wanted? fields else none

theorem wanted?_eq_some {m : KeyspaceModel} {fields : Fields} {slot : Slot} {b : Bytes} :
    m.wanted? fields slot = some b ↔ m.Declares slot ∧ slot.wanted? fields = some b := by
  unfold wanted?
  split <;> simp_all

def refs (m : KeyspaceModel) (fields : Fields) (id : String) : BackRefs :=
  ⟨TextSet.ofTexts (m.indexes.filterMap fun path =>
      (fields.tokenAt path).map fun token => Key.equality m.name path token id),
    TextSet.ofTexts (m.geoIndexes.filterMap fun path =>
      (fields.pointAt path).map fun _ => Key.geo m.name path id)⟩

theorem contains_refs_equality {m : KeyspaceModel} {fields : Fields} {id k : String} :
    (m.refs fields id).contains (.equality k) = true ↔
      ∃ path ∈ m.indexes, ∃ token, fields.tokenAt path = some token ∧
        Key.equality m.name path token id = k := by
  rw [BackRefs.contains, refs, TextSet.contains_ofTexts]
  simp only [List.mem_filterMap, Option.map_eq_some_iff]

theorem contains_refs_geo {m : KeyspaceModel} {fields : Fields} {id k : String} :
    (m.refs fields id).contains (.geo k) = true ↔
      ∃ path ∈ m.geoIndexes, ∃ p, fields.pointAt path = some p ∧ Key.geo m.name path id = k := by
  rw [BackRefs.contains, refs, TextSet.contains_ofTexts]
  simp only [List.mem_filterMap, Option.map_eq_some_iff]

/-- The list of a record's index entries has one for each slot that is not empty. -/
theorem contains_refs {m : KeyspaceModel} {fields : Fields} {id : String} {e : IndexRef} :
    (m.refs fields id).contains e = true ↔
      ∃ slot : Slot, slot.ref? m.name id = some e ∧ (m.wanted? fields slot).isSome = true := by
  constructor
  · intro h
    cases e with
    | equality k =>
      obtain ⟨path, hp, token, ht, rfl⟩ := contains_refs_equality.mp h
      exact ⟨.equality path token, rfl, by simp [wanted?, Declares, Slot.wanted?, hp, ht]⟩
    | geo k =>
      obtain ⟨path, hp, p, hat, rfl⟩ := contains_refs_geo.mp h
      exact ⟨.geo path, rfl, by simp [wanted?, Declares, Slot.wanted?, hp, hat]⟩
  · rintro ⟨slot, hr, he⟩
    obtain ⟨b, hb⟩ := Option.isSome_iff_exists.mp he
    obtain ⟨hd, hb⟩ := wanted?_eq_some.mp hb
    cases slot with
    | equality path token =>
      cases hr
      exact contains_refs_equality.mpr ⟨path, hd, token, (Slot.wanted?_equality.mp hb).2, rfl⟩
    | geo path =>
      cases hr
      obtain ⟨p, hp, -⟩ := Slot.wanted?_geo.mp hb
      exact contains_refs_geo.mpr ⟨path, hd, p, hp, rfl⟩
    | _ => cases hr

theorem contains_refs_of_ref? {m : KeyspaceModel} (fields : Fields) {id : String} {s : Slot}
    {e : IndexRef} (hr : s.ref? m.name id = some e) :
    (m.refs fields id).contains e = (m.wanted? fields s).isSome := by
  rw [Bool.eq_iff_iff, contains_refs]
  constructor
  · rintro ⟨t, hr', he⟩
    rwa [Slot.eq_of_ref? hr hr']
  · exact fun he => ⟨s, hr, he⟩

theorem own_refs (m : KeyspaceModel) (fields : Fields) (id : String) :
    (m.refs fields id).Own m.name id := by
  intro e he
  obtain ⟨slot, hr, -⟩ := contains_refs.mp he
  exact ⟨slot, hr⟩

end KeyspaceModel

namespace IndexEntries

theorem pointAt_eq_ok {m : KeyspaceModel} {e : Entity} {path : String} {o : Option GeoPoint}
    (h : pointAt m e path = .ok o) : o = e.fields.pointAt path := by
  unfold pointAt at h
  rw [Entity.getPath?_eq] at h
  unfold Fields.pointAt
  split at h
  · rename_i hv
    cases h
    rw [hv]
    rfl
  · rename_i hv
    cases h
    rw [hv]
    rfl
  · rename_i p hv
    rw [hv]
    cases hp : p.validate with
    | error x =>
      rw [hp] at h
      cases h
    | ok u =>
      rw [hp] at h
      cases h
      rfl
  · cases h

theorem exists_pointAt_iff {m : KeyspaceModel} {e : Entity} {path : String} :
    (∃ o, pointAt m e path = .ok o) ↔
      ∀ v, e.fields.valueAt path = some v → v.isPlace = true := by
  unfold pointAt
  rw [Entity.getPath?_eq]
  cases hv : e.fields.valueAt path with
  | none => simp
  | some v =>
    cases v with
    | null => simp [Value.isPlace]
    | point p =>
      unfold GeoPoint.validate
      cases hp : p.isValid <;> simp [Value.isPlace, hp, Except.map]
    | _ => simp [Value.isPlace]

theorem exists_geoEntries_iff {m : KeyspaceModel} {e : Entity} {id : String}
    {paths : List String} {d : Dict GeoPoint} :
    (∃ d', geoEntries m e id paths d = .ok d') ↔
      ∀ path ∈ paths, ∃ o, pointAt m e path = .ok o := by
  induction paths generalizing d with
  | nil => simp [geoEntries]
  | cons path paths ih =>
    rw [List.forall_mem_cons]
    unfold geoEntries
    cases hp : pointAt m e path with
    | error x => simp
    | ok o => cases o <;> simp [ih]

/-- The entries of a record can be derived when every geo-indexed path holds a place or
nothing. -/
theorem exists_derive_iff {m : KeyspaceModel} {e : Entity} {id : String} :
    (∃ x, derive m e id = .ok x) ↔
      ∀ path ∈ m.geoIndexes, ∀ v, e.fields.valueAt path = some v → v.isPlace = true := by
  have hgeo : (∃ x, derive m e id = .ok x) ↔
      ∃ d, geoEntries m e id m.geoIndexes Dict.empty = .ok d := by
    unfold derive
    cases geoEntries m e id m.geoIndexes Dict.empty <;> simp [Except.map]
  rw [hgeo, exists_geoEntries_iff]
  simp only [exists_pointAt_iff]

theorem geoEntries_eq_ok {m : KeyspaceModel} {e : Entity} {id : String} {paths : List String}
    {d d' : Dict GeoPoint} (h : geoEntries m e id paths d = .ok d') :
    d' = (paths.filterMap fun path =>
      (e.fields.pointAt path).map fun p => (Key.geo m.name path id, p)).foldl
        (fun d g => d.insert g.1 g.2) d := by
  induction paths generalizing d with
  | nil =>
    cases h
    rfl
  | cons path paths ih =>
    unfold geoEntries at h
    split at h
    · cases h
    · rename_i hp
      rw [List.filterMap_cons, ← pointAt_eq_ok hp]
      exact ih h
    · rename_i p hp
      rw [List.filterMap_cons, ← pointAt_eq_ok hp]
      exact ih h

theorem get?_geo {m : KeyspaceModel} {e : Entity} {id : String} {x : IndexEntries}
    (h : derive m e id = .ok x) (k : String) (p : GeoPoint) :
    x.geo.get? k = some p ↔
      ∃ path ∈ m.geoIndexes, e.fields.pointAt path = some p ∧ k = Key.geo m.name path id := by
  unfold derive at h
  cases hg : geoEntries m e id m.geoIndexes Dict.empty with
  | error y =>
    rw [hg] at h
    cases h
  | ok geo =>
    rw [hg] at h
    cases h
    rw [geoEntries_eq_ok hg, Dict.get?_foldl_insert]
    · simp only [List.mem_filterMap, Option.map_eq_some_iff, Prod.mk.injEq, Dict.get?_empty]
      grind
    · intro k b c hb hc
      simp only [List.mem_filterMap, Option.map_eq_some_iff, Prod.mk.injEq] at hb hc
      obtain ⟨path, -, q, hq, rfl, rfl⟩ := hb
      obtain ⟨path', -, q', hq', hk, rfl⟩ := hc
      cases Slot.key_left_inj (s := .geo path') (t := .geo path) hk
      exact Option.some.inj (hq.symm.trans hq')

theorem contains_refs_geo {x : IndexEntries} {k : String} :
    x.refs.contains (.geo k) = x.geo.contains k := by
  have h : ∀ l : List (String × GeoPoint),
      Assoc.lookup k (l.map fun e => (e.1, ())) = (Assoc.lookup k l).map fun _ => () := by
    intro l
    induction l with
    | nil => rfl
    | cons e l ih =>
      obtain ⟨j, p⟩ := e
      by_cases hj : j = k <;> simp [Assoc.lookup, hj, ih]
  simp [BackRefs.contains, refs, Dict.contains, Dict.get?, h]

theorem refs_eq {m : KeyspaceModel} {e : Entity} {id : String} {x : IndexEntries}
    (h : derive m e id = .ok x) : x.refs = m.refs e.fields id := by
  apply BackRefs.ext_contains
  intro r
  cases r with
  | equality k =>
    unfold derive at h
    cases hg : geoEntries m e id m.geoIndexes Dict.empty with
    | error y =>
      rw [hg] at h
      cases h
    | ok geo =>
      rw [hg] at h
      cases h
      rfl
  | geo k =>
    rw [Bool.eq_iff_iff, contains_refs_geo, KeyspaceModel.contains_refs_geo,
      Dict.contains_eq_true]
    constructor
    · rintro ⟨p, hp⟩
      obtain ⟨path, hpath, hat, hk⟩ := (get?_geo h k p).mp hp
      exact ⟨path, hpath, p, hat, hk.symm⟩
    · rintro ⟨path, hpath, p, hat, hk⟩
      exact ⟨p, (get?_geo h k p).mpr ⟨path, hpath, hat, hk.symm⟩⟩

end IndexEntries

end IndexedStore
