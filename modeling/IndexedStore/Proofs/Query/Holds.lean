import IndexedStore.Proofs.Index.Derive
import IndexedStore.Query.Plan
import IndexedStore.Storage.Content

/-! # What a predicate means

A predicate holds or not once its leaves are given a meaning. The leaves mean something of a
record, `Fields.leaves`, and something of the index entries of an id, `Content.leaves`. A
planned predicate has leaves only that the model indexes.
-/
namespace IndexedStore

/-- What the leaves of a predicate mean. -/
structure Leaves where
  eq : String → Value → Bool
  near : String → GeoPoint → Distance → Bool

namespace Predicate

mutual

/-- All of no predicates hold, and none of no predicates. -/
def holds (l : Leaves) : Predicate → Bool
  | eq path value => l.eq path value
  | near path center distance => l.near path center distance
  | all children => allHold l children
  | any children => anyHolds l children

def allHold (l : Leaves) : List Predicate → Bool
  | [] => true
  | p :: rest => p.holds l && allHold l rest

def anyHolds (l : Leaves) : List Predicate → Bool
  | [] => false
  | p :: rest => p.holds l || anyHolds l rest

end

end Predicate

/-- The meaning of the leaves for a record: the value at the path has the token of the given
value, or the path holds a point within the distance. -/
def Fields.leaves (fields : Fields) : Leaves where
  eq path value := (fields.tokenAt path).any fun token => value.token? == some token
  near path center distance :=
    (fields.pointAt path).any fun p => center.distanceTo p ≤ distance.toMeters

def GeoPoint.reaches (center : GeoPoint) (radius : Float) (b : Bytes) : Bool :=
  match decode b with
  | .ok p => center.distanceTo p ≤ radius
  | .error _ => false

/-- The meaning of the leaves for the index entries of an id. -/
def Content.leaves (c : Content) (keyspace id : String) : Leaves where
  eq path value :=
    value.token?.any fun token => (c.get? (Key.equality keyspace path token id)).isSome
  near path center distance :=
    (c.get? (Key.geo keyspace path id)).any (center.reaches distance.toMeters)

theorem Fields.leaves_eq (fields : Fields) (path : String) (value : Value) :
    fields.leaves.eq path value =
      (fields.tokenAt path).any fun token => value.token? == some token := rfl

theorem Fields.leaves_near (fields : Fields) (path : String) (center : GeoPoint)
    (distance : Distance) : fields.leaves.near path center distance =
      (fields.pointAt path).any fun p => center.distanceTo p ≤ distance.toMeters := rfl

theorem Content.leaves_eq (c : Content) (keyspace id path : String) (value : Value) :
    (c.leaves keyspace id).eq path value =
      value.token?.any fun token => (c.get? (Key.equality keyspace path token id)).isSome := rfl

theorem Content.leaves_near (c : Content) (keyspace id path : String) (center : GeoPoint)
    (distance : Distance) : (c.leaves keyspace id).near path center distance =
      (c.get? (Key.geo keyspace path id)).any (center.reaches distance.toMeters) := rfl

namespace Predicate

mutual

/-- Every leaf is one that the model indexes. -/
def Indexed (m : KeyspaceModel) : Predicate → Prop
  | eq path _ => path ∈ m.indexes
  | near path _ _ => path ∈ m.geoIndexes
  | all children => EachIndexed m children
  | any children => EachIndexed m children

def EachIndexed (m : KeyspaceModel) : List Predicate → Prop
  | [] => True
  | p :: rest => p.Indexed m ∧ EachIndexed m rest

end

mutual

theorem indexed_of_check {m : KeyspaceModel} (p : Predicate) (h : p.check m = .ok ()) :
    p.Indexed m := by
  cases p with
  | eq path value =>
    rw [check, checkLeaf, KeyspaceModel.checkEq] at h
    rw [Indexed]
    split at h
    · cases h
    · split at h
      · cases h
      · rename_i hi
        simpa [KeyspaceModel.isIndexed] using hi
  | near path center distance =>
    rw [check, checkLeaf] at h
    rw [Indexed]
    split at h
    · cases h
    · rename_i hg
      simpa [KeyspaceModel.isGeoIndexed] using hg
  | all children =>
    rw [check] at h
    rw [Indexed]
    exact eachIndexed_of_checkEach children h
  | any children =>
    rw [check] at h
    rw [Indexed]
    exact eachIndexed_of_checkEach children h

theorem eachIndexed_of_checkEach {m : KeyspaceModel} (l : List Predicate)
    (h : checkEach m l = .ok ()) : EachIndexed m l := by
  cases l with
  | nil => trivial
  | cons p rest =>
    rw [checkEach] at h
    split at h
    · rename_i hp
      exact ⟨indexed_of_check p hp, eachIndexed_of_checkEach rest h⟩
    · cases h

end

mutual

/-- Leaves that mean more on the indexed paths make predicates over these paths hold more. -/
theorem holds_mono {m : KeyspaceModel} {l l' : Leaves}
    (heq : ∀ path v, path ∈ m.indexes → l.eq path v = true → l'.eq path v = true)
    (hnear : ∀ path p d, path ∈ m.geoIndexes → l.near path p d = true →
      l'.near path p d = true) (p : Predicate) (hp : p.Indexed m) (h : p.holds l = true) :
    p.holds l' = true := by
  cases p with
  | eq path value => exact heq path value hp h
  | near path center distance => exact hnear path center distance hp h
  | all children => exact allHold_mono heq hnear children hp h
  | any children => exact anyHolds_mono heq hnear children hp h

theorem allHold_mono {m : KeyspaceModel} {l l' : Leaves}
    (heq : ∀ path v, path ∈ m.indexes → l.eq path v = true → l'.eq path v = true)
    (hnear : ∀ path p d, path ∈ m.geoIndexes → l.near path p d = true →
      l'.near path p d = true) (ps : List Predicate) (hp : EachIndexed m ps)
    (h : allHold l ps = true) : allHold l' ps = true := by
  cases ps with
  | nil => rfl
  | cons p rest =>
    rw [allHold, Bool.and_eq_true] at h ⊢
    exact ⟨holds_mono heq hnear p hp.1 h.1, allHold_mono heq hnear rest hp.2 h.2⟩

theorem anyHolds_mono {m : KeyspaceModel} {l l' : Leaves}
    (heq : ∀ path v, path ∈ m.indexes → l.eq path v = true → l'.eq path v = true)
    (hnear : ∀ path p d, path ∈ m.geoIndexes → l.near path p d = true →
      l'.near path p d = true) (ps : List Predicate) (hp : EachIndexed m ps)
    (h : anyHolds l ps = true) : anyHolds l' ps = true := by
  cases ps with
  | nil => cases h
  | cons p rest =>
    rw [anyHolds, Bool.or_eq_true] at h ⊢
    exact h.imp (holds_mono heq hnear p hp.1) (anyHolds_mono heq hnear rest hp.2)

end

theorem holds_congr {m : KeyspaceModel} {l l' : Leaves}
    (heq : ∀ path v, path ∈ m.indexes → l.eq path v = l'.eq path v)
    (hnear : ∀ path p d, path ∈ m.geoIndexes → l.near path p d = l'.near path p d)
    {p : Predicate} (hp : p.Indexed m) : p.holds l = p.holds l' := by
  rw [Bool.eq_iff_iff]
  constructor
  · exact holds_mono (fun path v hi h => heq path v hi ▸ h)
      (fun path q d hi h => hnear path q d hi ▸ h) p hp
  · exact holds_mono (fun path v hi h => (heq path v hi).symm ▸ h)
      (fun path q d hi h => (hnear path q d hi).symm ▸ h) p hp

end Predicate

end IndexedStore
