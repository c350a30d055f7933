import IndexedStore.Proofs.Collection.Dict
import IndexedStore.Proofs.Key.Slot
import IndexedStore.Query.Plan

/-! # Names in a schema

A model is found under its own name, and no name holds a separator, so that every name can
stand in front of a key.
-/
namespace IndexedStore

open Key (IsName)

section Checks

universe u v

variable {ε : Type u} {α : Type v} {f : α → Except ε Unit} {l : List α}

theorem forM_cons_error {a : α} {x : ε} (h : f a = .error x) : (a :: l).forM f = .error x := by
  show (f a >>= fun _ => l.forM f) = _
  rw [h]
  rfl

theorem forM_cons_ok {a : α} (h : f a = .ok ()) : (a :: l).forM f = l.forM f := by
  show (f a >>= fun _ => l.forM f) = _
  rw [h]
  rfl

theorem forM_singleton (a : α) : [a].forM f = f a := by
  cases h : f a with
  | error x => exact forM_cons_error h
  | ok u => exact forM_cons_ok h

theorem forM_eq_ok_iff : l.forM f = .ok () ↔ ∀ a ∈ l, f a = .ok () := by
  induction l with
  | nil => exact ⟨fun _ _ ha => absurd ha List.not_mem_nil, fun _ => rfl⟩
  | cons a l ih =>
    rw [List.forall_mem_cons]
    cases ha : f a with
    | error x => simp [forM_cons_error ha]
    | ok u => rw [forM_cons_ok ha, ih, and_iff_right rfl]

theorem forM_eq_ok (h : l.forM f = .ok ()) : ∀ a ∈ l, f a = .ok () := forM_eq_ok_iff.mp h

theorem forM_eq_error_iff {x : ε} : l.forM f = .error x ↔
    ∃ before a after, l = before ++ a :: after ∧ (∀ b ∈ before, f b = .ok ()) ∧
      f a = .error x := by
  constructor
  · intro h
    induction l with
    | nil => cases h
    | cons a l ih =>
      cases ha : f a with
      | error y =>
        rw [forM_cons_error ha] at h
        cases h
        exact ⟨[], a, l, rfl, fun b hb => absurd hb List.not_mem_nil, ha⟩
      | ok u =>
        rw [forM_cons_ok ha] at h
        obtain ⟨before, a', after, rfl, hbefore, hx⟩ := ih h
        exact ⟨a :: before, a', after, rfl, List.forall_mem_cons.mpr ⟨ha, hbefore⟩, hx⟩
  · rintro ⟨before, a, after, rfl, hbefore, hx⟩
    induction before with
    | nil => exact forM_cons_error hx
    | cons b before ih =>
      obtain ⟨hb, hbefore⟩ := List.forall_mem_cons.mp hbefore
      rw [List.cons_append, forM_cons_ok hb]
      exact ih hbefore

end Checks

theorem Path.isValidSegment_iff {name : String} :
    Path.isValidSegment name = true ↔ name ≠ "" ∧ ':' ∉ name.toList := by
  simp [isValidSegment]

namespace KeyspaceModel

variable {m : KeyspaceModel} {declared : String → Bool}

theorem checkReference_eq_ok_iff {r : ReferenceModel} :
    m.checkReference declared r = .ok () ↔
      Path.isValidSegment r.field = true ∧ declared r.target = true := by
  unfold checkReference
  cases Path.isValidSegment r.field <;> cases declared r.target <;> simp

theorem check_eq_ok_iff : m.check declared = .ok () ↔
    Path.isValidSegment m.name = true ∧ (m.indexes ++ m.geoIndexes).forM m.checkPath = .ok () ∧
      m.indexes.find? m.isGeoIndexed = none ∧
      m.references.forM (m.checkReference declared) = .ok () := by
  unfold check
  cases Path.isValidSegment m.name with
  | false => exact iff_of_false (fun h => by cases h) fun h => by cases h.1
  | true =>
    cases (m.indexes ++ m.geoIndexes).forM m.checkPath with
    | error x => exact iff_of_false (fun h => by cases h) fun h => by cases h.2.1
    | ok u =>
      cases m.indexes.find? m.isGeoIndexed with
      | some path => exact iff_of_false (fun h => by cases h) fun h => by cases h.2.2.1
      | none => exact ⟨fun h => ⟨rfl, rfl, rfl, h⟩, fun h => h.2.2.2⟩

theorem isName_of_check (h : m.check declared = .ok ()) : IsName m.name :=
  (Path.isValidSegment_iff.mp (check_eq_ok_iff.mp h).1).2

theorem not_geoIndexed_of_check (h : m.check declared = .ok ()) {path : String}
    (hp : path ∈ m.indexes) : path ∉ m.geoIndexes := by
  have hf := List.find?_eq_none.mp (check_eq_ok_iff.mp h).2.2.1 path hp
  simpa [isGeoIndexed] using hf

theorem declared_of_check (h : m.check declared = .ok ()) {r : ReferenceModel}
    (hr : r ∈ m.references) : declared r.target = true :=
  (checkReference_eq_ok_iff.mp (forM_eq_ok (check_eq_ok_iff.mp h).2.2.2 r hr)).2

end KeyspaceModel

namespace Schema

theorem model_eq_ok {s : Schema} {keyspace : String} {m : KeyspaceModel}
    (h : s.model keyspace = .ok m) : s.keyspaces.get? keyspace = some m := by
  unfold model keyspace? at h
  split at h
  · rename_i hm
    cases h
    exact hm
  · cases h

theorem name_of_model {s : Schema} {keyspace : String} {m : KeyspaceModel}
    (h : s.model keyspace = .ok m) : m.name = keyspace :=
  s.named keyspace m (model_eq_ok h)

theorem mem_of_model {s : Schema} {keyspace : String} {m : KeyspaceModel}
    (h : s.model keyspace = .ok m) : m ∈ s.models :=
  List.mem_map.mpr ⟨(keyspace, m), Dict.mem_entries.mpr (model_eq_ok h), rfl⟩

theorem model_of_mem {s : Schema} {m : KeyspaceModel} (h : m ∈ s.models) :
    s.model m.name = .ok m := by
  obtain ⟨⟨name, m'⟩, hmem, rfl⟩ := List.mem_map.mp h
  have hget := Dict.mem_entries.mp hmem
  rw [s.named name m' hget, model, keyspace?, hget]

theorem isName_of_model {s : Schema} {keyspace : String} {m : KeyspaceModel}
    (h : s.model keyspace = .ok m) : IsName m.name :=
  KeyspaceModel.isName_of_check (forM_eq_ok s.sound m (mem_of_model h))

theorem not_geoIndexed_of_model {s : Schema} {keyspace : String} {m : KeyspaceModel}
    (h : s.model keyspace = .ok m) {path : String} (hp : path ∈ m.indexes) :
    path ∉ m.geoIndexes :=
  KeyspaceModel.not_geoIndexed_of_check (forM_eq_ok s.sound m (mem_of_model h)) hp

theorem isName_target {s : Schema} {keyspace : String} {m : KeyspaceModel}
    (h : s.model keyspace = .ok m) {r : ReferenceModel} (hr : r ∈ m.references) :
    IsName r.target := by
  have hd := KeyspaceModel.declared_of_check (forM_eq_ok s.sound m (mem_of_model h)) hr
  obtain ⟨m', hm'⟩ := Dict.contains_eq_true.mp hd
  have hmodel : s.model r.target = .ok m' := by rw [model, keyspace?, hm']
  rw [← name_of_model hmodel]
  exact isName_of_model hmodel

/-- The schema of one keyspace. -/
def single (m : KeyspaceModel)
    (h : KeyspaceModel.checkAll (Dict.empty.insert m.name m) = .ok ()) : Schema where
  keyspaces := Dict.empty.insert m.name m
  named name k hk := by
    rw [Dict.get?_insert] at hk
    split at hk
    · rename_i hname
      rwa [← Option.some.inj hk]
    · cases hk
  sound := h

end Schema

end IndexedStore
