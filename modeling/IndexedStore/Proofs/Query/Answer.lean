import IndexedStore.Proofs.Query.Evaluate
import IndexedStore.Proofs.Query.Page
import IndexedStore.Proofs.Store.Image
import IndexedStore.Proofs.Text.Order

/-! # What a query answers

The answer of an accepted query is the page of the live ids that satisfy it, in order of the
ids, with the number of all of them. Main statement: under one schema the index entries
decide what the records say.
-/
namespace IndexedStore

open Key (Slot IsName)

/-- Without a predicate a query means everything. -/
def Query.holds (q : Query) (l : Leaves) : Bool := q.predicate.all fun p => p.holds l

/-- The ids of the live entities whose fields satisfy the query. -/
def Entities.select (d : Entities) (q : Query) : List String :=
  ((d q.keyspace).entries.filter fun e => q.holds e.2.leaves).map Prod.fst

/-- The page of a list of matching ids: as many as it has room for, behind those that the pages
before it have room for. Without a request it has all of them. -/
def Query.cut (q : Query) (ids : List String) : IdPage :=
  ⟨match q.page with
    | some r => (ids.drop (r.page.toNat * r.size.toNat)).take r.size.toNat
    | none => ids, UInt64.ofNat ids.length⟩

/-- The page with its position counted in a word. -/
def Query.sliced (q : Query) (ids : List String) : IdPage :=
  ⟨match q.page with
    | some r => r.slice ids
    | none => ids, UInt64.ofNat ids.length⟩

theorem Query.sliced_eq_cut {ids : List String} (h : ids.length < 2 ^ 64) (q : Query) :
    q.sliced ids = q.cut ids := by
  unfold sliced cut
  cases q.page with
  | none => rfl
  | some r => simp only [r.slice_eq h]

theorem Query.mem_sliced {q : Query} {ids : List String} {id : String}
    (h : id ∈ (q.sliced ids).ids) : id ∈ ids := by
  unfold sliced at h
  split at h
  · exact List.mem_of_mem_drop (List.mem_of_mem_take h)
  · exact h

theorem Schema.plan_eq_ok {s : Schema} {q : Query} {p : Plan} (h : s.plan q = .ok p) :
    s.model q.keyspace = .ok p.model ∧ p.predicate = q.predicate ∧ p.page = q.page ∧
      ∀ f ∈ q.predicate, f.Indexed p.model := by
  unfold plan at h
  obtain ⟨m, hm, h⟩ := Task.except_bind_eq_ok h
  split at h
  · cases h
  · obtain ⟨u, hcheck, h⟩ := Task.except_bind_eq_ok h
    cases h
    refine ⟨hm, rfl, rfl, fun f hf => Predicate.indexed_of_check f ?_⟩
    rw [hf] at hcheck
    exact hcheck

namespace Database

def matched (p : Plan) : Task TextSet :=
  match p.predicate with
  | some f => f.evaluate p.model.name
  | none => Task.lookupMembers p.model.name

theorem reading_matched (p : Plan) : Task.Reading (matched p) := by
  unfold matched
  split
  · exact Predicate.reading_evaluate _ _
  · exact Task.reading_lookupMembers _

theorem pageIds_eq (db : Database) (p : Plan) :
    db.pageIds p = matched p >>= fun found => do
      let ids := match p.page with
        | some r => r.slice found.keys
        | none => found.keys
      db.note (.queried p.model.name p.summary found.size ids.length)
      return ⟨ids, UInt64.ofNat found.size⟩ := by
  unfold pageIds matched
  cases p.predicate <;> rfl

theorem reading_pageIds (db : Database) (p : Plan) : Task.Reading (db.pageIds p) := by
  rw [pageIds_eq]
  exact (reading_matched p).bind fun _ => (Task.Reading.note _ _).bind fun _ =>
    Task.Reading.pure _

theorem reading_executeIds (db : Database) (q : Query) : Task.Reading (db.executeIds q) :=
  (Task.Reading.ofExcept _).bind fun p => db.reading_pageIds p

theorem on_executeIds (db : Database) {q : Query} {p : Plan} (hp : db.schema.plan q = .ok p)
    (c : Content) : (db.executeIds q).on c =
      ((matched p).on c).bind fun found => .ok (q.sliced found.keys) := by
  unfold executeIds
  rw [Task.on_bind (Task.Reading.ofExcept _) fun p => db.reading_pageIds p, Task.on_ofExcept, hp]
  show (db.pageIds p).on c = _
  rw [pageIds_eq]
  refine (Task.on_bind (reading_matched p) (fun _ => (Task.Reading.note _ _).bind fun _ =>
    Task.Reading.pure _) c).trans ?_
  apply congrArg ((matched p).on c).bind
  funext found
  rw [Query.sliced, Dict.length_keys, ← (Schema.plan_eq_ok hp).2.2.1]
  rfl

end Database

theorem Consistent.on_executeIds {c : Content} {d : Entities} (h : Consistent c d)
    {db : Database} {q : Query} {p : Plan} (hp : db.schema.plan q = .ok p) :
    (db.executeIds q).on c = .ok (q.sliced ((d q.keyspace).keys.filter fun id =>
      q.holds (c.leaves q.keyspace id))) := by
  obtain ⟨hm, hf, -, -⟩ := Schema.plan_eq_ok hp
  have hk := Schema.isName_of_model hm
  have hmatched : (Database.matched p).on c =
      .ok (d.matching q.keyspace fun id => q.holds (c.leaves q.keyspace id)) := by
    unfold Database.matched Query.holds
    rw [← hf, ← Schema.name_of_model hm]
    cases p.predicate with
    | none => exact congrArg Except.ok (h.ids_members hk)
    | some f => exact h.on_evaluate hk f
  rw [db.on_executeIds hp, hmatched]
  exact congrArg (Except.ok ∘ q.sliced) Entities.keys_matching

theorem GeoPoint.reaches_payload (center p : GeoPoint) (radius : Float) :
    center.reaches radius (payload p) = decide (center.distanceTo p ≤ radius) := by
  have hp : (decode (payload p) : Except CodecError GeoPoint) = .ok p :=
    GeoPoint.decode_payload.mpr rfl
  rw [reaches, hp]

namespace Complete

variable {s : Schema} {c : Content} {d : Entities} {m : KeyspaceModel} {id : String}
  {fields : Fields}

theorem leaves_eq (h : Complete s c d) (hm : s.model m.name = .ok m)
    (hd : d.get? m.name id = some fields) {path : String} (hp : path ∈ m.indexes)
    (value : Value) : (c.leaves m.name id).eq path value = fields.leaves.eq path value := by
  have hget (token : String) : c.get? (Key.equality m.name path token id) =
      if fields.tokenAt path = some token then some [] else none := by
    refine (h.filled m id fields hm hd (.equality path token)).trans ?_
    exact if_pos (c := m.Declares (.equality path token)) hp
  rw [Content.leaves_eq, Fields.leaves_eq]
  cases value.token? with
  | none => cases fields.tokenAt path <;> rfl
  | some token =>
    rw [Option.any_some, hget]
    cases fields.tokenAt path with
    | none => rfl
    | some token' =>
      rw [Option.any_some, Bool.eq_iff_iff, Option.isSome_iff_exists]
      by_cases heq : token' = token
      · simp [heq]
      · simp [heq, Ne.symm heq]

theorem leaves_near (h : Complete s c d) (hm : s.model m.name = .ok m)
    (hd : d.get? m.name id = some fields) {path : String} (hp : path ∈ m.geoIndexes)
    (center : GeoPoint) (distance : Distance) : (c.leaves m.name id).near path center distance =
      fields.leaves.near path center distance := by
  have hget : c.get? (Key.geo m.name path id) = (fields.pointAt path).map payload := by
    refine (h.filled m id fields hm hd (.geo path)).trans ?_
    exact if_pos (c := m.Declares (.geo path)) hp
  rw [Content.leaves_near, Fields.leaves_near, hget]
  cases fields.pointAt path with
  | none => rfl
  | some p => exact GeoPoint.reaches_payload center p distance.toMeters

/-- A planned query means the same of the entries of an entity and of its fields. -/
theorem holds_eq (h : Complete s c d) {q : Query} {p : Plan} (hp : s.plan q = .ok p)
    (hd : d.get? q.keyspace id = some fields) :
    q.holds (c.leaves q.keyspace id) = q.holds fields.leaves := by
  obtain ⟨hm, -, -, hindexed⟩ := Schema.plan_eq_ok hp
  have hname : p.model.name = q.keyspace := Schema.name_of_model hm
  rw [← hname] at hm hd ⊢
  unfold Query.holds
  cases hf : q.predicate with
  | none => rfl
  | some f =>
    exact Predicate.holds_congr (fun path v hi => h.leaves_eq hm hd hi v)
      (fun path center dist hi => h.leaves_near hm hd hi center dist) (hindexed f hf)

end Complete

theorem Entities.pairwise_select (d : Entities) (q : Query) :
    (d.select q).Pairwise fun a b => Cbor.utf8 a < Cbor.utf8 b := by
  have h := ((d q.keyspace).sorted.filter fun e => q.holds e.2.leaves)
  exact List.pairwise_map.mpr (h.imp Cbor.utf8_lt)

/-- Choosing among the keys by what stands under them is choosing among the entries. -/
theorem Exact.filter_keys_eq {s : Schema} {c : Content} {d : Entities} (h : Exact s c d)
    {q : Query} {p : Plan} (hp : s.plan q = .ok p) :
    ((d q.keyspace).keys.filter fun id => q.holds (c.leaves q.keyspace id)) = d.select q := by
  rw [Dict.keys, List.filter_map, Entities.select]
  apply congrArg (List.map Prod.fst)
  apply List.filter_congr
  intro e he
  exact h.2.holds_eq hp (Dict.mem_entries.mp he)

/-- After every history under one schema a query that is accepted answers over a healthy
backing store with the page of the live ids whose stored records satisfy it, in the order of
their bytes, and with the number of all of them, as long as a word counts them. -/
theorem executeIds_eq_select (db : Database) (faults : Faults) (supply : IdSupply)
    (journal : Journal) (ops : List Op) (q : Query) (p : Plan)
    (hp : db.schema.plan q = .ok p) :
    let t := Tracked.under db faults supply journal ops
    ((t.entities.select q).length < 2 ^ 64 → ∀ s : Engine, s.content = t.engine.content →
      s.faults = Faults.none → (db.executeIds q s).1 = .ok (q.cut (t.entities.select q))) ∧
      (t.entities.select q).Pairwise (fun a b => Cbor.utf8 a < Cbor.utf8 b) ∧
      ∀ id, t.engine.content.get? (Key.record q.keyspace id) =
        (t.entities.get? q.keyspace id).map fun fields => payload (StoredRecord.mk fields) := by
  intro t
  have h : Exact db.schema t.engine.content t.entities :=
    Tracked.exact_under db faults supply journal ops
  refine ⟨?_, t.entities.pairwise_select q, ?_⟩
  · intro hlength s hs hhealthy
    rw [(db.reading_executeIds q).healthy s hhealthy, hs, h.1.on_executeIds hp,
      h.filter_keys_eq hp, Query.sliced_eq_cut hlength]
  · have hm := (Schema.plan_eq_ok hp).1
    have hk := Schema.isName_of_model hm
    rw [Schema.name_of_model hm] at hk
    exact h.1.get?_record hk

/-- The second page of two has the last of three ids, in the order of the ids and not in that of
the saves. -/
theorem second_page_of_matches :
    let db : Database := .indexing ["f"] rfl
    let e (id x : String) : OrderedEntity :=
      ⟨⟨"k", some id, [("f", .text x)]⟩, List.pairwise_singleton _ _, trivial, trivial⟩
    let t := Tracked.under db Faults.none .none []
      [.saveMany [e "c" "x", e "b" "x", e "d" "y", e "a" "x"]]
    let q := (Query.filtered "k" (.eq "f" (.text "x"))).withPage ⟨1, 2⟩
    t.entities.select q = ["a", "b", "c"] ∧
      (db.executeIds q (.holding t.engine.content)).1 = .ok ⟨["c"], 3⟩ := by
  intro db e t q
  have hselect : t.entities.select q = ["a", "b", "c"] := by decide +kernel
  obtain ⟨ops, ht⟩ : ∃ ops, t = Tracked.under db Faults.none .none [] ops := ⟨_, rfl⟩
  clear_value t
  subst ht
  have hpage := (executeIds_eq_select db Faults.none .none [] ops q
    ⟨⟨"k", ["f"], [], []⟩, some (.eq "f" (.text "x")), some ⟨1, 2⟩⟩ rfl).1
  rw [hselect] at hpage
  exact ⟨hselect, hpage (by decide) _ rfl rfl⟩

end IndexedStore
