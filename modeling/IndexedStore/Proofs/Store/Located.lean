import IndexedStore.Proofs.Entity.Points
import IndexedStore.Proofs.Operation.Healthy
import IndexedStore.Proofs.Store.History

/-! # Only valid points are stored

A save checks every point of the record that it is about to write, whether indexed or not. So
the live entities hold valid points only after every history, and with them the records and
the geo entries of the content.
-/
namespace IndexedStore

open Key (IsName)

def Entities.InRange (d : Entities) : Prop :=
  ∀ keyspace id fields, d.get? keyspace id = some fields → fields.InRange

theorem kept_inRange (s : Schema) : Kept s fun _ d => d.InRange :=
  kept_each fun _ hf hs => (Entity.invalidPoint?_eq_none_iff hf).mp hs.valid

theorem Tracked.inRange_replay (faults : Faults) (supply : IdSupply) (journal : Journal)
    (history : List (Database × Op)) :
    ((fresh faults supply journal).replay history).entities.InRange := by
  have h : (fresh faults supply journal).Sat fun _ d => d.InRange := fun _ _ _ hget =>
    nomatch hget
  exact h.replay fun p _ => kept_inRange p.1.schema

namespace Consistent

variable {c : Content} {d : Entities} {keyspace id : String} {b : Bytes}

theorem record_inRange (h : Consistent c d) (hd : d.InRange) (hk : IsName keyspace)
    (hb : c.get? (Key.record keyspace id) = some b) :
    ∃ fields : Fields, fields.Ordered ∧ b = payload (StoredRecord.mk fields) ∧
      fields.InRange := by
  rw [h.get?_record hk] at hb
  obtain ⟨fields, hget, rfl⟩ := Option.map_eq_some_iff.mp hb
  obtain ⟨refs, hlive⟩ := h.live keyspace id fields hget
  exact ⟨fields, hlive.ordered, rfl, hd keyspace id fields hget⟩

theorem geo_inRange (h : Consistent c d) (hd : d.InRange) (hk : IsName keyspace) {path : String}
    (hb : c.get? (Key.geo keyspace path id) = some b) :
    ∃ p : GeoPoint, b = payload p ∧ p.InRange := by
  by_cases hid : id = ""
  · subst hid
    cases (h.absent_of_empty_id hk (s := .geo path) nofun).symm.trans hb
  · cases hget : d.get? keyspace id with
    | none => cases (h.absent keyspace id hk hid hget (.geo path)).symm.trans hb
    | some fields =>
      obtain ⟨refs, hlive⟩ := h.live keyspace id fields hget
      obtain ⟨-, hwanted⟩ := hlive.listed (.geo path) _ b rfl hb
      obtain ⟨p, hp, rfl⟩ := Key.Slot.wanted?_geo.mp hwanted
      obtain ⟨names, hleads⟩ := Fields.descend_of_pointAt hp
      exact ⟨p, rfl, hd keyspace id fields hget names p hleads⟩

end Consistent

theorem Database.save_of_invalidPoint {db : Database} {e n : Entity} {p : GeoPoint}
    (hn : db.schema.normalized e = .ok n) (hp : n.invalidPoint? = some p) (s : Engine) :
    (db.save e s).1 = .error (.invalidCoordinate p) := by
  obtain ⟨m, hm, hn⟩ := Task.except_bind_eq_ok hn
  have hrun : ∀ s, db.saveUnder m e s = (.error (.invalidCoordinate p), s) := by
    intro s
    have hnorm : Task.ofExcept (m.normalize e) s = (.ok n, s) := by rw [hn]; rfl
    unfold saveUnder
    rw [Task.bind_run_ok hnorm, hp]
    rfl
  rw [Database.save_fst hm, hrun]

/-- After every history, whatever schemas it goes through and whichever calls fail in it, the
bytes of a record are those of fields whose points are all in range, at any depth, and those of
a geo entry are those of a point in range. A save whose normalized fields hold an invalid point
fails with the one that comes first by its names, and changes nothing. -/
theorem only_valid_points_stored (faults : Faults) (supply : IdSupply) (journal : Journal)
    (history : List (Database × Op)) :
    let c := ((Tracked.fresh faults supply journal).replay history).engine.content
    (∀ keyspace id b, IsName keyspace → c.get? (Key.record keyspace id) = some b →
      ∃ fields : Fields, fields.Ordered ∧ b = payload (StoredRecord.mk fields) ∧
        fields.InRange) ∧
    (∀ keyspace path id b, IsName keyspace → c.get? (Key.geo keyspace path id) = some b →
      ∃ p : GeoPoint, b = payload p ∧ p.InRange) ∧
    ∀ (db : Database) (e : OrderedEntity) (n : Entity), db.schema.normalized e.val = .ok n →
      (¬n.fields.InRange → ∃ names p, n.fields.FirstInvalid names p) ∧
      ∀ names p, n.fields.FirstInvalid names p → ∀ s : Engine,
        (db.save e.val s).1 = .error (.invalidCoordinate p) ∧
          (db.save e.val s).2.content = s.content := by
  intro c
  have hc : Consistent c _ := Tracked.consistent_replay faults supply journal history
  have hd := Tracked.inRange_replay faults supply journal history
  refine ⟨fun keyspace id b hk => hc.record_inRange hd hk,
    fun keyspace path id b hk => hc.geo_inRange hd hk, ?_⟩
  intro db e n hn
  have hf : n.fields.Ordered := by
    obtain ⟨m, -, hnorm⟩ := Task.except_bind_eq_ok hn
    exact (KeyspaceModel.normalize_eq_ok hnorm).2.2 e.property
  constructor
  · intro hinvalid
    cases hp : n.invalidPoint? with
    | none => exact absurd ((Entity.invalidPoint?_eq_none_iff hf).mp hp) hinvalid
    | some p =>
      obtain ⟨names, hfirst⟩ := (Entity.invalidPoint?_eq_some_iff hf).mp hp
      exact ⟨names, p, hfirst⟩
  · intro names p hfirst s
    have hp := (Entity.invalidPoint?_eq_some_iff hf).mpr ⟨names, hfirst⟩
    have hfail := Database.save_of_invalidPoint hn hp s
    exact ⟨hfail, db.failSafe_save e.val s _ _ (Prod.ext hfail rfl)⟩

/-- A point in range is stored with its entry, one beyond the pole is refused inside a record. -/
theorem point_beyond_pole_refused :
    let db : Database := .quiet (.single ⟨"k", [], ["at"], []⟩ rfl)
    let e (id : String) (fields : Fields) (h : fields.Ordered) : OrderedEntity :=
      ⟨⟨"k", some id, fields⟩, h⟩
    let near : OrderedEntity := e "1" [("at", .point ⟨13.5, 38⟩)]
      ⟨List.pairwise_singleton _ _, trivial, trivial⟩
    let far : OrderedEntity := e "2" [("home", .embedded [("at", .point ⟨13.5, 91⟩)])]
      ⟨List.pairwise_singleton _ _, ⟨List.pairwise_singleton _ _, trivial, trivial⟩, trivial⟩
    let t := (Tracked.fresh Faults.none .none []).replay [(db, .save near)]
    (∃ p : GeoPoint, t.engine.content.get? (Key.geo "k" "at" "1") = some (payload p) ∧ p.InRange) ∧
      (∃ fields : Fields, t.engine.content.get? (Key.record "k" "1") =
        some (payload (StoredRecord.mk fields)) ∧ fields.InRange) ∧
      ∀ s : Engine, (db.save far.val s).1 = .error (.invalidCoordinate ⟨13.5, 91⟩) ∧
        (db.save far.val s).2.content = s.content := by
  intro db e near far t
  obtain ⟨history, ht⟩ : ∃ history, t = (Tracked.fresh Faults.none .none []).replay history :=
    ⟨_, rfl⟩
  obtain ⟨b, hgeo⟩ : ∃ b, t.engine.content.get? (Key.geo "k" "at" "1") = some b :=
    Option.isSome_iff_exists.mp (by decide +kernel)
  obtain ⟨b', hrecord⟩ : ∃ b, t.engine.content.get? (Key.record "k" "1") = some b :=
    Option.isSome_iff_exists.mp (by decide +kernel)
  clear_value t
  subst ht
  obtain ⟨hrecords, hpoints, hrefused⟩ := only_valid_points_stored Faults.none .none [] history
  obtain ⟨p, rfl, hp⟩ := hpoints "k" "at" "1" b (by decide) hgeo
  obtain ⟨fields, -, rfl, hfields⟩ := hrecords "k" "1" b' (by decide) hrecord
  refine ⟨⟨p, hgeo, hp⟩, ⟨fields, hrecord, hfields⟩, ?_⟩
  have hinvalid : far.val.invalidPoint? = some ⟨13.5, 91⟩ := by decide +kernel
  obtain ⟨names, hfirst⟩ := (Entity.invalidPoint?_eq_some_iff far.property).mp hinvalid
  exact (hrefused db far far.val rfl).2 names ⟨13.5, 91⟩ hfirst

end IndexedStore
