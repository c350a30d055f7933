import IndexedStore.Proofs.Codec.Value
import IndexedStore.Proofs.Index.Derive

/-! # The points of a record

The points of a value are visited in the order of the names that lead to them. So the point
that a check of all of them reports is the invalid one whose names come first, and a record
that passes holds no invalid point at any depth.
-/
namespace IndexedStore

theorem Number.isNaN_of_le {x y : Float} (h : x ≤ y) : x.isNaN = false := by
  have hmodel : x.toModel ≤ y.toModel := of_decide_eq_true h
  have hle : x.toModel.unpack.le y.toModel.unpack = true := hmodel
  show x.toModel.unpack.isNaN = false
  cases hx : x.toModel.unpack with
  | notANumber =>
    rw [hx] at hle
    cases hle
  | _ => rfl

namespace GeoPoint

/-- The coordinates are numbers within the range of degrees. -/
structure InRange (p : GeoPoint) : Prop where
  west : -180 ≤ p.longitude
  east : p.longitude ≤ 180
  south : -90 ≤ p.latitude
  north : p.latitude ≤ 90
  longitude_number : p.longitude.isNaN = false
  latitude_number : p.latitude.isNaN = false

theorem isValid_iff {p : GeoPoint} : p.isValid = true ↔ p.InRange := by
  unfold isValid
  simp only [Bool.and_eq_true, decide_eq_true_eq]
  constructor
  · rintro ⟨⟨⟨hw, he⟩, hs⟩, hn⟩
    exact ⟨hw, he, hs, hn, Number.isNaN_of_le he, Number.isNaN_of_le hn⟩
  · intro h
    exact ⟨⟨⟨h.west, h.east⟩, h.south⟩, h.north⟩

end GeoPoint

namespace Fields

/-- What the names lead to, one nested field map after another. -/
def descend (fields : Fields) (names : List String) : Option Value :=
  (Value.embedded fields).descend names

/-- Every point in the fields, at any depth, is in range. -/
def InRange (fields : Fields) : Prop :=
  ∀ names p, fields.descend names = some (.point p) → p.InRange

/-- The names lead to an invalid point, and none that come before them do. -/
structure FirstInvalid (fields : Fields) (names : List String) (p : GeoPoint) : Prop where
  leads : fields.descend names = some (.point p)
  invalid : ¬p.InRange
  first : ∀ names' q, names' < names → fields.descend names' = some (.point q) → q.InRange

end Fields

namespace Value

mutual

/-- Every point held by the value behind the names that lead to it, in the order of `points`. -/
def places : Value → List (List String × GeoPoint)
  | point p => [([], p)]
  | embedded fields => fieldPlaces fields
  | entity _ _ fields => fieldPlaces fields
  | _ => []

def fieldPlaces : List (String × Value) → List (List String × GeoPoint)
  | [] => []
  | (name, v) :: fields => v.places.map (fun q => (name :: q.1, q.2)) ++ fieldPlaces fields

end

mutual

theorem map_snd_places (v : Value) : v.places.map Prod.snd = v.points := by
  cases v with
  | embedded fields => exact map_snd_fieldPlaces fields
  | entity k i fields => exact map_snd_fieldPlaces fields
  | _ => rfl

theorem map_snd_fieldPlaces (fields : Fields) :
    (fieldPlaces fields).map Prod.snd = fieldPoints fields := by
  match fields with
  | [] => rfl
  | (name, v) :: fields =>
    rw [fieldPlaces, fieldPoints, List.map_append, List.map_map, ← map_snd_places v,
      map_snd_fieldPlaces fields]
    rfl

end

theorem descend_cons (v : Value) (name : String) (names : List String) :
    v.descend (name :: names) = (v.child? name).bind fun w => w.descend names := by
  rw [descend]
  cases v.child? name <;> rfl

theorem descend_entity {k : String} {i : Option String} {fields : Fields} {names : List String}
    {p : GeoPoint} : (entity k i fields).descend names = some (.point p) ↔
      fields.descend names = some (.point p) := by
  cases names <;> simp [Fields.descend, descend, child?]

mutual

/-- In ordered field maps the places are where names lead to points. -/
theorem mem_places (v : Value) (hv : v.Ordered) (names : List String) (p : GeoPoint) :
    (names, p) ∈ v.places ↔ v.descend names = some (.point p) := by
  cases v with
  | embedded fields => exact mem_fieldPlaces fields hv.1 hv.2 names p
  | entity k i fields =>
    rw [descend_entity]
    exact mem_fieldPlaces fields hv.1 hv.2 names p
  | _ => cases names <;> simp [places, descend, child?, eq_comm]

theorem mem_fieldPlaces (fields : Fields) (hs : Assoc.Sorted fields) (hf : AllOrdered fields)
    (names : List String) (p : GeoPoint) :
    (names, p) ∈ fieldPlaces fields ↔ fields.descend names = some (.point p) := by
  match fields with
  | [] => cases names <;> simp [fieldPlaces, Fields.descend, descend, child?, Assoc.lookup]
  | (first, v) :: fields =>
    obtain ⟨hfirst, hs⟩ := List.pairwise_cons.mp hs
    rw [fieldPlaces, List.mem_append, mem_fieldPlaces fields hs hf.2 names p]
    simp only [List.mem_map, Prod.mk.injEq, Prod.exists]
    cases names with
    | nil => simp [Fields.descend, descend]
    | cons name rest =>
      simp only [Fields.descend, descend_cons, child?, Assoc.lookup]
      by_cases hne : first = name
      · subst hne
        have hnew : Assoc.lookup first fields = none := Assoc.lookup_eq_none_of_lt hfirst
        simp [hnew, mem_places v hf.1]
      · simp [hne]

end

mutual

/-- The places of a value are listed in the order of the names that lead there. -/
theorem pairwise_places (v : Value) (hv : v.Ordered) : v.places.Pairwise fun a b => a.1 < b.1 := by
  cases v with
  | embedded fields => exact pairwise_fieldPlaces fields hv.1 hv.2
  | entity k i fields => exact pairwise_fieldPlaces fields hv.1 hv.2
  | point p => exact List.pairwise_singleton _ _
  | _ => exact List.Pairwise.nil

theorem pairwise_fieldPlaces (fields : Fields) (hs : Assoc.Sorted fields)
    (hf : AllOrdered fields) : (fieldPlaces fields).Pairwise fun a b => a.1 < b.1 := by
  match fields with
  | [] => exact List.Pairwise.nil
  | (first, v) :: fields =>
    obtain ⟨hfirst, hs⟩ := List.pairwise_cons.mp hs
    rw [fieldPlaces, List.pairwise_append, List.pairwise_map]
    refine ⟨?_, pairwise_fieldPlaces fields hs hf.2, ?_⟩
    · exact (pairwise_places v hf.1).imp fun h => List.cons_lt_cons_iff.mpr (Or.inr ⟨rfl, h⟩)
    · intro a ha b hb
      obtain ⟨q, -, rfl⟩ := List.mem_map.mp ha
      -- every later place starts at a later field, whatever follows its first name
      obtain ⟨_ | ⟨name, rest⟩, p⟩ := b
      · cases (mem_fieldPlaces fields hs hf.2 [] p).mp hb
      · have hlead := (mem_fieldPlaces fields hs hf.2 (name :: rest) p).mp hb
        rw [Fields.descend, descend_cons] at hlead
        obtain ⟨w, hw, -⟩ := Option.bind_eq_some_iff.mp hlead
        have hmem : (name, w) ∈ fields := (Assoc.lookup_eq_some_iff hs name w).mp hw
        exact List.cons_lt_cons_iff.mpr (Or.inl (hfirst (name, w) hmem))

end

end Value

namespace Entity

variable {e : Entity}

theorem invalidPoint?_eq_find? (e : Entity) : e.invalidPoint? =
    ((Value.fieldPlaces e.fields).find? fun q => !q.2.isValid).map Prod.snd := by
  unfold invalidPoint? points
  rw [← Value.map_snd_fieldPlaces, List.find?_map]
  rfl

theorem mem_places (he : e.fields.Ordered) (names : List String) (p : GeoPoint) :
    (names, p) ∈ Value.fieldPlaces e.fields ↔ e.fields.descend names = some (.point p) :=
  Value.mem_fieldPlaces e.fields he.1 he.2 names p

theorem invalidPoint?_eq_none_iff (he : e.fields.Ordered) :
    e.invalidPoint? = none ↔ e.fields.InRange := by
  rw [invalidPoint?_eq_find?, Option.map_eq_none_iff, List.find?_eq_none]
  constructor
  · intro h names p hp
    have hvalid := h (names, p) ((mem_places he names p).mpr hp)
    exact GeoPoint.isValid_iff.mp (by simpa using hvalid)
  · rintro h ⟨names, p⟩ hp
    simp [GeoPoint.isValid_iff.mpr (h names p ((mem_places he names p).mp hp))]

/-- What is reported is the invalid point whose names come first. -/
theorem firstInvalid_of_invalidPoint? (he : e.fields.Ordered) {p : GeoPoint}
    (h : e.invalidPoint? = some p) : ∃ names, e.fields.FirstInvalid names p := by
  rw [invalidPoint?_eq_find?] at h
  obtain ⟨⟨names, p⟩, hfind, rfl⟩ := Option.map_eq_some_iff.mp h
  obtain ⟨hp, before, after, hsplit, hbefore⟩ := List.find?_eq_some_iff_append.mp hfind
  have hmem : (names, p) ∈ Value.fieldPlaces e.fields := by simp [hsplit]
  refine ⟨names, (mem_places he names p).mp hmem, ?_, ?_⟩
  · rw [← GeoPoint.isValid_iff]
    simpa using hp
  · intro names' q hlt hq
    have horder := Value.pairwise_fieldPlaces e.fields he.1 he.2
    have hq := (mem_places he names' q).mpr hq
    rw [hsplit] at horder hq
    obtain ⟨-, hafter, -⟩ := List.pairwise_append.mp horder
    rcases List.mem_append.mp hq with hq | hq
    · exact GeoPoint.isValid_iff.mp (by simpa using hbefore _ hq)
    · rcases List.mem_cons.mp hq with heq | hq
      · cases heq
        exact absurd hlt (List.lt_irrefl _)
      · exact absurd (List.lt_trans hlt ((List.pairwise_cons.mp hafter).1 _ hq)) (List.lt_irrefl _)

theorem invalidPoint?_eq_some_iff (he : e.fields.Ordered) {p : GeoPoint} :
    e.invalidPoint? = some p ↔ ∃ names, e.fields.FirstInvalid names p := by
  constructor
  · exact firstInvalid_of_invalidPoint? he
  · rintro ⟨names, hp⟩
    cases hq : e.invalidPoint? with
    | none => exact absurd ((invalidPoint?_eq_none_iff he).mp hq names p hp.leads) hp.invalid
    | some q =>
      obtain ⟨names', hq⟩ := firstInvalid_of_invalidPoint? he hq
      rcases lt_trichotomy names names' with hlt | rfl | hlt
      · exact absurd (hq.first names p hlt hp.leads) hp.invalid
      · cases hq.leads.symm.trans hp.leads
        rfl
      · exact absurd (hp.first names' q hlt hq.leads) hq.invalid

/-- A coordinate that is no number is found in a nested record, ahead of a later field. -/
example : invalidPoint? ⟨"k", none,
    [("a", .point ⟨0, 90⟩), ("b", .embedded [("z", .point ⟨0 / 0, 0⟩)]), ("c", .point ⟨0, 91⟩)]⟩ =
      some ⟨0 / 0, 0⟩ := by rfl

end Entity

theorem Entity.getPath?_eq_descend (e : Entity) (path : String) :
    e.getPath? path = e.fields.descend ((Path.segments path).take Path.maxDepth) := by
  unfold getPath?
  cases hn : (Path.segments path).take Path.maxDepth with
  | nil => simp [Path.segments, Path.splitDots_ne_nil, Path.maxDepth] at hn
  | cons name names => rfl

theorem Fields.descend_of_pointAt {fields : Fields} {path : String} {p : GeoPoint}
    (h : fields.pointAt path = some p) : ∃ names, fields.descend names = some (.point p) := by
  obtain ⟨v, hv, hp⟩ := Option.bind_eq_some_iff.mp h
  obtain rfl : v = .point p := by cases v <;> cases hp; rfl
  exact ⟨_, (Entity.getPath?_eq_descend _ path).symm.trans hv⟩

end IndexedStore
