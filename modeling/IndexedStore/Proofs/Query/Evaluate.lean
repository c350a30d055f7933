import IndexedStore.Operation.Search
import IndexedStore.Proofs.Query.Holds
import IndexedStore.Proofs.Store.Lookup
import IndexedStore.Proofs.Store.Owned

/-! # What a predicate evaluates to

Over a consistent content the evaluation of a predicate succeeds and gives the live ids whose
index entries satisfy it. The early end of an intersection makes no difference, since nothing
is left to narrow.
-/
namespace IndexedStore

open Key (Slot IsName)

/-- The ids of the live entities that satisfy `p`. -/
def Entities.matching (d : Entities) (keyspace : String) (p : String → Bool) : TextSet :=
  TextSet.ofTexts ((d keyspace).keys.filter p)

namespace Entities

variable {d : Entities} {keyspace : String} {p : String → Bool}

theorem contains_matching {id : String} :
    (d.matching keyspace p).contains id = ((d keyspace).contains id && p id) := by
  rw [Bool.eq_iff_iff, matching, TextSet.contains_ofTexts, List.mem_filter, Dict.mem_keys,
    Bool.and_eq_true]

theorem keys_matching : (d.matching keyspace p).keys = (d keyspace).keys.filter p :=
  TextSet.keys_ofTexts ((d keyspace).pairwise_keys.filter p)

/-- Once no id is left, no further condition changes that. -/
theorem matching_and_of_isEmpty (h : (d.matching keyspace p).isEmpty = true)
    (q : String → Bool) :
    d.matching keyspace (fun id => p id && q id) = d.matching keyspace p := by
  apply TextSet.ext
  intro id
  have hp : (d.matching keyspace p).contains id = false :=
    Dict.contains_eq_false.mpr (Dict.isEmpty_iff.mp h id)
  rw [hp, contains_matching, ← Bool.and_assoc, ← contains_matching, hp, Bool.false_and]

theorem inter_matching (q : String → Bool) :
    (d.matching keyspace p).inter (d.matching keyspace q) =
      d.matching keyspace fun id => p id && q id := by
  apply TextSet.ext
  intro id
  simp only [TextSet.contains_inter, contains_matching]
  cases (d keyspace).contains id <;> simp

theorem union_matching (q : String → Bool) :
    Dict.union (d.matching keyspace p) (d.matching keyspace q) =
      d.matching keyspace fun id => p id || q id := by
  apply TextSet.ext
  intro id
  simp only [TextSet.contains_union, contains_matching]
  cases (d keyspace).contains id <;> simp

end Entities

namespace Task

theorem reading_reportLookup (kind : LookupKind) (keyspace : String) (ids : TextSet) :
    Reading (reportLookup kind keyspace ids) :=
  (Reading.emit _).bind fun _ => Reading.pure _

theorem reading_lookupMembers (keyspace : String) : Reading (lookupMembers keyspace) :=
  (reading_scanIds _).bind fun _ => reading_reportLookup _ _ _

theorem reading_lookupEq (keyspace path : String) (value : Value) :
    Reading (lookupEq keyspace path value) := by
  unfold lookupEq
  split
  · exact (reading_scanIds _).bind fun _ => reading_reportLookup _ _ _
  · exact reading_reportLookup _ _ _

theorem on_lookupEq (keyspace path : String) (value : Value) (c : Content) :
    (lookupEq keyspace path value).on c = .ok (match value.token? with
      | some token => c.ids (Key.equalityPrefix keyspace path token)
      | none => Dict.empty) := by
  unfold lookupEq
  cases value.token? <;> rfl

theorem reading_within (start : String) (center : GeoPoint) (radius : Float)
    (l : List (String × Bytes)) : Reading (within start center radius l) := by
  induction l with
  | nil => exact Reading.pure _
  | cons e rest ih =>
    obtain ⟨key, b⟩ := e
    unfold within
    split
    · exact ih
    · exact (reading_decodeAt _ _).bind fun _ => ih.bind fun _ => Reading.pure _

theorem on_within {start : String} {center : GeoPoint} {radius : Float}
    {l : List (String × Bytes)}
    (h : ∀ e ∈ l, ∀ id, Key.trailingId? start e.1 = some id →
      ∃ p : GeoPoint, decode e.2 = .ok p) (c : Content) :
    (within start center radius l).on c = .ok (l.filterMap fun e =>
      (Key.trailingId? start e.1).filter fun _ => center.reaches radius e.2) := by
  induction l with
  | nil => rfl
  | cons e rest ih =>
    have ihrest := ih fun e he => h e (List.mem_cons_of_mem _ he)
    obtain ⟨key, b⟩ := e
    unfold within
    split
    · rename_i ht
      rw [ihrest, List.filterMap_cons, ht]
      rfl
    · rename_i id ht
      obtain ⟨p, hp⟩ := h (key, b) List.mem_cons_self id ht
      rw [on_bind (reading_decodeAt _ _) fun _ => (reading_within _ _ _ _).bind fun _ =>
        Reading.pure _, on_decodeAt, hp]
      show (within start center radius rest >>= fun ids =>
        (pure (if center.distanceTo p ≤ radius then id :: ids else ids) : Task _)).on c = _
      rw [on_bind (reading_within _ _ _ _) fun _ => Reading.pure _, ihrest, List.filterMap_cons,
        ht]
      by_cases hr : center.distanceTo p ≤ radius <;>
        simp [Except.bind, Option.filter, GeoPoint.reaches, hp, hr]

theorem reading_lookupNear (keyspace path : String) (center : GeoPoint) (distance : Distance) :
    Reading (lookupNear keyspace path center distance) :=
  (Reading.scan _).bind fun _ => (reading_within _ _ _ _).bind fun _ =>
    reading_reportLookup _ _ _

end Task

namespace Predicate

mutual

theorem reading_evaluate (keyspace : String) (p : Predicate) :
    Task.Reading (p.evaluate keyspace) := by
  match p with
  | eq path value => exact Task.reading_lookupEq _ _ _
  | near path center distance => exact Task.reading_lookupNear _ _ _ _
  | all [] => exact Task.reading_lookupMembers _
  | all (p :: rest) =>
    exact (reading_evaluate keyspace p).bind fun ids => reading_narrow keyspace ids rest
  | any children => exact reading_widen keyspace _ children

theorem reading_narrow (keyspace : String) (ids : TextSet) (ps : List Predicate) :
    Task.Reading (narrow keyspace ids ps) := by
  match ps with
  | [] => exact Task.Reading.pure _
  | p :: rest =>
    rw [narrow]
    split
    · exact Task.Reading.pure _
    · exact (reading_evaluate keyspace p).bind fun next => reading_narrow keyspace _ rest

theorem reading_widen (keyspace : String) (ids : TextSet) (ps : List Predicate) :
    Task.Reading (widen keyspace ids ps) := by
  match ps with
  | [] => exact Task.Reading.pure _
  | p :: rest =>
    rw [widen]
    exact (reading_evaluate keyspace p).bind fun next => reading_widen keyspace _ rest

end

end Predicate

namespace Consistent

variable {c : Content} {d : Entities} {keyspace : String}

theorem ids_members (h : Consistent c d) (hk : IsName keyspace) :
    c.ids (Key.membersPrefix keyspace) = d.matching keyspace fun _ => true := by
  apply TextSet.ext
  intro id
  rw [h.contains_members hk, Entities.contains_matching, Bool.and_true]

theorem on_lookupEq (h : Consistent c d) (hk : IsName keyspace) (path : String)
    (value : Value) : (Task.lookupEq keyspace path value).on c =
      .ok (d.matching keyspace fun id => (c.leaves keyspace id).eq path value) := by
  rw [Task.on_lookupEq]
  apply congrArg Except.ok
  apply TextSet.ext
  intro id
  rw [Entities.contains_matching, Content.leaves_eq]
  cases value.token? with
  | none => simp
  | some token =>
    rw [Bool.eq_iff_iff, Bool.and_eq_true, Option.any_some]
    refine (h.contains_ids (Key.finds_equality hk path token) hk).trans
      ⟨fun ⟨hid, hb⟩ => ?_, fun ⟨hd, hb⟩ => ⟨h.id_ne_of_contains hd, hb⟩⟩
    obtain ⟨b, hget⟩ := Option.isSome_iff_exists.mp hb
    exact ⟨h.contains_of_get? hk hid hget, hb⟩

theorem decode_geo (h : Consistent c d) (hk : IsName keyspace) {path id : String} {b : Bytes}
    (hid : id ≠ "") (hb : c.get? (Key.geo keyspace path id) = some b) :
    ∃ p : GeoPoint, decode b = .ok p := by
  have hd := h.contains_of_get? (s := .geo path) hk hid hb
  obtain ⟨fields, hf⟩ := Dict.contains_eq_true.mp hd
  obtain ⟨refs, hl⟩ := h.live keyspace id fields hf
  obtain ⟨p, -, rfl⟩ := Slot.wanted?_geo.mp (hl.listed (.geo path) _ b rfl hb).2
  exact ⟨p, GeoPoint.decode_payload.mpr rfl⟩

theorem on_lookupNear (h : Consistent c d) (hk : IsName keyspace) (path : String)
    (center : GeoPoint) (distance : Distance) :
    (Task.lookupNear keyspace path center distance).on c =
      .ok (d.matching keyspace fun id => (c.leaves keyspace id).near path center distance) := by
  have hfinds := Key.finds_geo hk path
  have hread : ∀ e ∈ c.scan (Key.geoPrefix keyspace path), ∀ id,
      Key.trailingId? (Key.geoPrefix keyspace path) e.1 = some id →
      ∃ p : GeoPoint, decode e.2 = .ok p := by
    intro e he id ht
    obtain ⟨hid, b, hget, rfl⟩ :=
      (h.exists_scan hfinds hk (P := fun b => b = e.2)).mp ⟨e, he, ht, rfl⟩
    exact h.decode_geo hk hid hget
  unfold Task.lookupNear
  rw [Task.on_bind (Task.Reading.scan _) fun _ => (Task.reading_within _ _ _ _).bind fun _ =>
    Task.reading_reportLookup _ _ _, Task.on_scan]
  simp only [Except.bind]
  rw [Task.on_bind (Task.reading_within _ _ _ _) fun _ => Task.reading_reportLookup _ _ _,
    Task.on_within hread]
  apply congrArg Except.ok
  apply TextSet.ext
  intro id
  rw [Bool.eq_iff_iff, TextSet.contains_ofTexts, List.mem_filterMap, Entities.contains_matching,
    Bool.and_eq_true, Content.leaves_near, Option.any_eq_true]
  simp only [Option.filter_eq_some_iff]
  refine (h.exists_scan hfinds hk (P := fun b => center.reaches distance.toMeters b = true)).trans
    ⟨fun ⟨hid, b, hget, hr⟩ => ?_, fun ⟨hd, hb⟩ => ⟨h.id_ne_of_contains hd, hb⟩⟩
  exact ⟨h.contains_of_get? hk hid hget, b, hget, hr⟩

open Predicate

mutual

/-- Evaluation succeeds with the live ids whose entries satisfy the predicate. -/
theorem on_evaluate (h : Consistent c d) (hk : IsName keyspace) (p : Predicate) :
    (p.evaluate keyspace).on c =
      .ok (d.matching keyspace fun id => p.holds (c.leaves keyspace id)) := by
  match p with
  | .eq path value => exact h.on_lookupEq hk path value
  | .near path center distance => exact h.on_lookupNear hk path center distance
  | .all [] => exact congrArg Except.ok (h.ids_members hk)
  | .all (p :: rest) =>
    rw [evaluate, Task.on_bind (reading_evaluate keyspace p) fun ids =>
      reading_narrow keyspace ids rest, h.on_evaluate hk p]
    exact h.on_narrow hk rest _
  | .any children =>
    have hnone : (Dict.empty : TextSet) = d.matching keyspace fun _ => false := by
      apply TextSet.ext
      intro id
      rw [Entities.contains_matching, Bool.and_false]
      rfl
    rw [evaluate, hnone, h.on_widen hk children]
    rfl

theorem on_narrow (h : Consistent c d) (hk : IsName keyspace) (ps : List Predicate)
    (f : String → Bool) : (narrow keyspace (d.matching keyspace f) ps).on c =
      .ok (d.matching keyspace fun id => f id && allHold (c.leaves keyspace id) ps) := by
  match ps with
  | [] =>
    simp only [allHold, Bool.and_true]
    rfl
  | p :: rest =>
    rw [narrow]
    split
    · rename_i he
      rw [Entities.matching_and_of_isEmpty he]
      rfl
    · rw [Task.on_bind (reading_evaluate keyspace p) fun next =>
        reading_narrow keyspace _ rest, h.on_evaluate hk p]
      simp only [Except.bind, Entities.inter_matching]
      rw [h.on_narrow hk rest]
      simp only [allHold, Bool.and_assoc]

theorem on_widen (h : Consistent c d) (hk : IsName keyspace) (ps : List Predicate)
    (f : String → Bool) : (widen keyspace (d.matching keyspace f) ps).on c =
      .ok (d.matching keyspace fun id => f id || anyHolds (c.leaves keyspace id) ps) := by
  match ps with
  | [] =>
    simp only [anyHolds, Bool.or_false]
    rfl
  | p :: rest =>
    rw [widen, Task.on_bind (reading_evaluate keyspace p) fun next =>
      reading_widen keyspace _ rest, h.on_evaluate hk p]
    simp only [Except.bind, Entities.union_matching]
    rw [h.on_widen hk rest]
    simp only [anyHolds, Bool.or_assoc]

end

end Consistent

end IndexedStore
