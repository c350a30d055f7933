import IndexedStore.Proofs.Query.Fetched

/-! # Queries over values that can be read

A query fails on a healthy backing store only where it meets bytes that stand for nothing. So it
is answered wherever the records can be read and the points as well, whatever else is stored.
-/
namespace IndexedStore

open IndexedStore.Task (Reading)
open Key (IsName)

namespace Task

variable {α β : Type} {c : Content}

/-- The task has a result over a healthy backing store that holds `c`. -/
def Succeeds (t : Task α) (c : Content) : Prop := ∃ a, t.on c = .ok a

namespace Succeeds

theorem pure (a : α) : Succeeds (Pure.pure a : Task α) c := ⟨a, rfl⟩

theorem bind {t : Task α} {f : α → Task β} (ht : Reading t) (hf : ∀ a, Reading (f a))
    (h : t.Succeeds c) (hnext : ∀ a, t.on c = .ok a → (f a).Succeeds c) :
    (t >>= f).Succeeds c := by
  obtain ⟨a, ha⟩ := h
  obtain ⟨b, hb⟩ := hnext a ha
  exact ⟨b, (on_bind_eq_ok ht hf).mpr ⟨a, ha, hb⟩⟩

theorem mapM {f : α → Task β} (hf : ∀ a, Reading (f a)) (h : ∀ a, (f a).Succeeds c)
    (l : List α) : (l.mapM f).Succeeds c := by
  induction l with
  | nil => exact ⟨[], by rw [List.mapM_nil]; rfl⟩
  | cons a l ih =>
    rw [List.mapM_cons]
    exact bind (hf a) (fun _ => (reading_mapM hf l).bind fun _ => Reading.pure _) (h a) fun _ _ =>
      bind (reading_mapM hf l) (fun _ => Reading.pure _) ih fun _ _ => pure _

end Succeeds

end Task

/-- What stands under the key of a record is a record, and what stands where a radius lookup
looks is a point. -/
structure Content.Decodable (c : Content) : Prop where
  record : ∀ {keyspace id : String} {b : Bytes}, IsName keyspace →
    c.get? (Key.record keyspace id) = some b → ∃ r : StoredRecord, decode b = .ok r
  point : ∀ {keyspace path key id : String} {b : Bytes}, IsName keyspace → c.get? key = some b →
    Key.trailingId? (Key.geoPrefix keyspace path) key = some id → ∃ p : GeoPoint, decode b = .ok p

namespace Content.Decodable

open Predicate

variable {c : Content} {keyspace : String}

theorem lookupEq (keyspace path : String) (value : Value) :
    (Task.lookupEq keyspace path value).Succeeds c := ⟨_, Task.on_lookupEq keyspace path value c⟩

theorem lookupNear (h : c.Decodable) (hk : IsName keyspace) (path : String) (center : GeoPoint)
    (distance : Distance) : (Task.lookupNear keyspace path center distance).Succeeds c := by
  have hread : ∀ e ∈ c.scan (Key.geoPrefix keyspace path), ∀ id,
      Key.trailingId? (Key.geoPrefix keyspace path) e.1 = some id →
      ∃ p : GeoPoint, decode e.2 = .ok p :=
    fun e he _ ht => h.point hk (Content.mem_scan.mp he).1 ht
  refine .bind (Reading.scan _) (fun _ => (Task.reading_within _ _ _ _).bind fun _ =>
    Task.reading_reportLookup _ _ _) ⟨_, rfl⟩ fun found hfound => ?_
  obtain rfl := Except.ok.inj hfound
  exact .bind (Task.reading_within _ _ _ _) (fun _ => Task.reading_reportLookup _ _ _)
    ⟨_, Task.on_within hread c⟩ fun _ _ => ⟨_, rfl⟩

mutual

theorem evaluate (h : c.Decodable) (hk : IsName keyspace) (p : Predicate) :
    (p.evaluate keyspace).Succeeds c := by
  match p with
  | .eq path value => exact lookupEq keyspace path value
  | .near path center distance => exact h.lookupNear hk path center distance
  | .all [] => exact ⟨_, rfl⟩
  | .all (p :: rest) =>
    exact .bind (reading_evaluate keyspace p) (fun ids => reading_narrow keyspace ids rest)
      (h.evaluate hk p) fun ids _ => h.narrow hk ids rest
  | .any children => exact h.widen hk _ children

theorem narrow (h : c.Decodable) (hk : IsName keyspace) (ids : TextSet) (ps : List Predicate) :
    (Predicate.narrow keyspace ids ps).Succeeds c := by
  match ps with
  | [] => exact .pure ids
  | p :: rest =>
    rw [Predicate.narrow]
    split
    · exact .pure ids
    · exact .bind (reading_evaluate keyspace p) (fun next => reading_narrow keyspace _ rest)
        (h.evaluate hk p) fun next _ => h.narrow hk _ rest

theorem widen (h : c.Decodable) (hk : IsName keyspace) (ids : TextSet) (ps : List Predicate) :
    (Predicate.widen keyspace ids ps).Succeeds c := by
  match ps with
  | [] => exact .pure ids
  | p :: rest =>
    rw [Predicate.widen]
    exact .bind (reading_evaluate keyspace p) (fun next => reading_widen keyspace _ rest)
      (h.evaluate hk p) fun next _ => h.widen hk _ rest

end

theorem load (h : c.Decodable) (hk : IsName keyspace) (id : String) :
    (Task.load keyspace id).Succeeds c := by
  unfold Task.Succeeds
  rw [Task.on_load, Task.readAt]
  cases hb : c.get? (Key.record keyspace id) with
  | none => exact ⟨_, rfl⟩
  | some b =>
    obtain ⟨r, hr⟩ := h.record hk hb
    exact ⟨_, by simp only [hr]; rfl⟩

theorem loadMany (h : c.Decodable) (hk : IsName keyspace) (ids : List String) :
    (Task.loadMany keyspace ids).Succeeds c := by
  induction ids with
  | nil => exact .pure _
  | cons id ids ih =>
    have hrest := Task.reading_loadMany keyspace ids
    refine .bind (Task.reading_load keyspace id) (Task.reading_loadMany_of keyspace id hrest)
      (h.load hk id) fun o _ => ?_
    cases o with
    | some e => exact .bind hrest (fun _ => Reading.pure _) ih fun _ _ => .pure _
    | none => exact .bind (Reading.note _ _) (fun _ => hrest) ⟨(), rfl⟩ fun _ _ => ih

theorem resolve (h : c.Decodable) {m : KeyspaceModel} {references : List ReferenceModel}
    (hr : ∀ r ∈ references, IsName r.target) (e : Entity) :
    (references.foldlM (Task.resolveField m) e).Succeeds c := by
  induction references generalizing e with
  | nil => exact .pure e
  | cons r references ih =>
    obtain ⟨hr, hrest⟩ := List.forall_mem_cons.mp hr
    refine .bind (Task.reading_resolveField m e r) (Task.reading_resolve m references) ?_
      fun e _ => ih hrest e
    by_cases hv : ∃ id, Assoc.lookup r.field e.fields = some (.ref id)
    · obtain ⟨id, hv⟩ := hv
      obtain ⟨o, ho⟩ := h.load hr id
      exact ⟨_, by rw [Task.on_resolveField m c hv, ho]; rfl⟩
    · unfold Task.resolveField Entity.get?
      split
      · rename_i id hl
        exact absurd ⟨id, hl⟩ hv
      · exact .pure e

variable {db : Database} {q : Query} {p : Plan}

theorem executeIds (h : c.Decodable) (hp : db.schema.plan q = .ok p) :
    (db.executeIds q).Succeeds c := by
  have hk := Schema.isName_of_model (Schema.plan_eq_ok hp).1
  have hmatched : (Database.matched p).Succeeds c := by
    unfold Database.matched
    split
    · exact h.evaluate hk _
    · exact ⟨_, rfl⟩
  obtain ⟨found, hfound⟩ := hmatched
  exact ⟨_, by rw [db.on_executeIds hp, hfound]; rfl⟩

theorem execute (h : c.Decodable) (hp : db.schema.plan q = .ok p) : (db.execute q).Succeeds c := by
  obtain ⟨hm, -, -, -⟩ := Schema.plan_eq_ok hp
  have hk := Schema.isName_of_model hm
  obtain ⟨ids, hids⟩ := h.executeIds hp
  obtain ⟨found, hfound⟩ := h.loadMany hk ids.ids
  obtain ⟨items, hitems⟩ := Task.Succeeds.mapM
    (fun e => Task.reading_resolve p.model p.model.references e)
    (fun e => h.resolve (m := p.model) (fun r hr => Schema.isName_target hm hr) e) found
  refine ⟨⟨items, p.page, ids.total⟩, ?_⟩
  rw [Database.on_execute hp, Database.on_fetchPage_iff]
  exact ⟨ids, found, items, (Database.on_pageIds hp c).trans hids, hfound,
    Database.on_resolveAll_eq_ok.mp hitems, rfl⟩

end Content.Decodable

theorem Consistent.decodable {c : Content} {d : Entities} (h : Consistent c d)
    (hr : ∀ {keyspace id : String} {b : Bytes}, IsName keyspace →
      c.get? (Key.record keyspace id) = some b → ∃ r : StoredRecord, decode b = .ok r) :
    c.Decodable where
  record := hr
  point := fun {keyspace path key id b} hk hb ht => by
    have hscan : (key, b) ∈ c.scan (Key.geoPrefix keyspace path) :=
      Content.mem_scan.mpr ⟨hb, Key.hasPrefix_of_trailingId? ht⟩
    obtain ⟨hid, b', hget, rfl⟩ :=
      (h.exists_scan (Key.finds_geo hk path) hk (P := (· = b))).mp ⟨(key, b), hscan, ht, rfl⟩
    exact h.decode_geo hk hid hget

end IndexedStore
