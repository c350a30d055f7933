import IndexedStore.Proofs.Query.Answer

/-! # What holds whatever the schemas were

A schema may be exchanged for another between two operations, so that the entries of an
entity were written under models that no longer stand. Main statement: no entry is orphaned,
no answer is stale and no delete leaves a key behind.
-/
namespace IndexedStore

open Key (Slot IsName)

/-- The entity of an index entry is live, its stored list has the entry, and the entry agrees
with its stored record. -/
structure Backed (c : Content) (keyspace id : String) (slot : Slot) (r : IndexRef) (b : Bytes) :
    Prop where
  listed : ∃ refs : BackRefs, c.get? (Key.backRefs keyspace id) = some (payload refs) ∧
    refs.contains r = true
  member : c.get? (Key.member keyspace id) = some []
  agrees : ∃ fields, c.get? (Key.record keyspace id) = some (payload (StoredRecord.mk fields)) ∧
    slot.wanted? fields = some b

theorem Live.stored_of_contains {c : Content} {keyspace id : String} {fields : Fields}
    {refs : BackRefs} (h : Live c keyspace id fields refs) {r : IndexRef}
    (hr : refs.contains r = true) :
    c.get? (Key.backRefs keyspace id) = some (payload refs) := by
  have hne : refs.isEmpty = false := by
    rw [Bool.eq_false_iff]
    intro he
    rw [BackRefs.isEmpty_iff.mp he r] at hr
    cases hr
  rw [h.stored, BackRefs.stored_eq_some]
  exact ⟨hne, rfl⟩

theorem Live.holds {c : Content} {keyspace id : String} {fields : Fields} {refs : BackRefs}
    (h : Live c keyspace id fields refs) {m : KeyspaceModel} {f : Predicate}
    (hf : f.Indexed m) (hholds : f.holds (c.leaves keyspace id) = true) :
    f.holds fields.leaves = true := by
  refine Predicate.holds_mono ?_ ?_ f hf hholds
  · intro path value _ hl
    rw [Content.leaves_eq, Option.any_eq_true] at hl
    obtain ⟨token, ht, hb⟩ := hl
    obtain ⟨b, hb⟩ := Option.isSome_iff_exists.mp hb
    have hentry := (h.listed (.equality path token) _ b rfl hb).2
    rw [Fields.leaves_eq, (Slot.wanted?_equality.mp hentry).2, Option.any_some, ht]
    exact beq_self_eq_true _
  · intro path center distance _ hl
    rw [Content.leaves_near, Option.any_eq_true] at hl
    obtain ⟨b, hb, hreaches⟩ := hl
    have hentry := (h.listed (.geo path) _ b rfl hb).2
    obtain ⟨p, hp, rfl⟩ := Slot.wanted?_geo.mp hentry
    rw [GeoPoint.reaches_payload] at hreaches
    rw [Fields.leaves_near, hp, Option.any_some, hreaches]

namespace Consistent

variable {c : Content} {d : Entities}

/-- No index entry is orphaned. -/
theorem owned_entry (h : Consistent c d) {keyspace id : String} (hk : IsName keyspace)
    {slot : Slot} {r : IndexRef} {b : Bytes} (hr : slot.ref? keyspace id = some r)
    (hb : c.get? r.key = some b) : Backed c keyspace id slot r b := by
  have hget := hb
  rw [← Slot.key_of_ref? hr] at hget
  have hid : id ≠ "" := by
    rintro rfl
    rw [h.absent_of_empty_id hk fun he => by rw [he] at hr; cases hr] at hget
    cases hget
  obtain ⟨fields, hf⟩ := Dict.contains_eq_true.mp (h.contains_of_get? hk hid hget)
  obtain ⟨refs, hl⟩ := h.live keyspace id fields hf
  obtain ⟨hlisted, hentry⟩ := hl.listed slot r b hr hb
  exact ⟨⟨refs, hl.stored_of_contains hlisted, hlisted⟩, hl.member, fields, hl.record, hentry⟩

theorem holds_of_executeIds (h : Consistent c d) {db : Database} {q : Query} {s s' : Engine}
    {page : IdPage} (hs : s.content = c) (hrun : db.executeIds q s = (.ok page, s'))
    {id : String} (hid : id ∈ page.ids) :
    ∃ fields, c.get? (Key.record q.keyspace id) = some (payload (StoredRecord.mk fields)) ∧
      c.get? (Key.member q.keyspace id) = some [] ∧ q.holds fields.leaves = true := by
  cases hp : db.schema.plan q with
  | error x =>
    rw [Database.executeIds, Task.bind_run_error (by rw [hp]; rfl)] at hrun
    cases hrun
  | ok p =>
    obtain ⟨-, hon⟩ := (db.reading_executeIds q).run_ok hrun
    rw [hs, h.on_executeIds hp] at hon
    obtain rfl := Except.ok.inj hon
    obtain ⟨hkey, hholds⟩ := List.mem_filter.mp (Query.mem_sliced hid)
    obtain ⟨fields, hd⟩ := Dict.contains_eq_true.mp (Dict.mem_keys.mp hkey)
    obtain ⟨refs, hl⟩ := h.live q.keyspace id fields hd
    refine ⟨fields, hl.record, hl.member, ?_⟩
    unfold Query.holds at hholds ⊢
    cases hf : q.predicate with
    | none => rfl
    | some f =>
      rw [hf] at hholds
      exact hl.holds ((Schema.plan_eq_ok hp).2.2.2 f hf) hholds

theorem absent_of_deleteById (h : Consistent c d) {db : Database} {keyspace id : String}
    {removed : Bool} {s s' : Engine} (hs : s.content = c)
    (hrun : db.deleteById keyspace id s = (.ok removed, s')) : Absent s'.content keyspace id := by
  obtain ⟨m, old, owned, hm, -, hdeleted⟩ := Database.deleteById_eq_ok hrun
  obtain rfl := Schema.name_of_model hm
  rw [hs] at hdeleted
  exact hdeleted.absent h (Schema.isName_of_model hm)

end Consistent

/-- After every history, whatever schemas it goes through and whatever calls fail: every key
belongs to an entity, every index entry is listed by its entity, which is live, and agrees with
its record; every id that a query gives is live and its record satisfies the query; and a
delete that succeeds leaves no key of its entity, also where no path of the schema leads. -/
theorem sound_replay (faults : Faults) (supply : IdSupply) (journal : Journal)
    (history : List (Database × Op)) :
    let c := ((Tracked.fresh faults supply journal).replay history).engine.content
    (∀ k b, c.get? k = some b →
      ∃ keyspace id, ∃ slot : Slot, IsName keyspace ∧ id ≠ "" ∧ k = slot.key keyspace id) ∧
    (∀ (keyspace id : String) (slot : Slot) (r : IndexRef) (b : Bytes), IsName keyspace →
      slot.ref? keyspace id = some r → c.get? r.key = some b → Backed c keyspace id slot r b) ∧
    (∀ (db : Database) (q : Query) (s s' : Engine) (page : IdPage), s.content = c →
      db.executeIds q s = (.ok page, s') → ∀ id ∈ page.ids,
        ∃ fields, c.get? (Key.record q.keyspace id) = some (payload (StoredRecord.mk fields)) ∧
          c.get? (Key.member q.keyspace id) = some [] ∧ q.holds fields.leaves = true) ∧
    ∀ (db : Database) (keyspace id : String) (s s' : Engine) (removed : Bool), s.content = c →
      db.deleteById keyspace id s = (.ok removed, s') →
        ∀ slot : Slot, s'.content.get? (slot.key keyspace id) = none := by
  intro c
  have h : Consistent c ((Tracked.fresh faults supply journal).replay history).entities :=
    Tracked.consistent_replay faults supply journal history
  refine ⟨h.keyed, ?_, ?_, ?_⟩
  · intro keyspace id slot r b hk hr hb
    exact h.owned_entry hk hr hb
  · intro db q s s' page hs hrun id hid
    exact h.holds_of_executeIds hs hrun hid
  · intro db keyspace id s s' removed hs hrun
    exact h.absent_of_deleteById hs hrun

/-- The entry of a saved entity is backed, a query finds the entity by it, and a delete takes it
away. -/
theorem entry_backed_until_deleted :
    let db : Database := .indexing ["f"] rfl
    let t := (Tracked.fresh Faults.none .none []).replay [(db, .save OrderedEntity.sample)]
    let s : Engine := .holding t.engine.content
    Backed t.engine.content "k" "1" (.equality "f" "x") (.equality (Key.equality "k" "f" "x" "1"))
        [] ∧
      (∃ fields, t.engine.content.get? (Key.record "k" "1") =
          some (payload (StoredRecord.mk fields)) ∧
        (Query.filtered "k" (.eq "f" (.text "x"))).holds fields.leaves = true) ∧
      ∃ s', db.deleteById "k" "1" s = (.ok true, s') ∧
        s'.content.get? (Key.equality "k" "f" "x" "1") = none := by
  intro db t s
  obtain ⟨history, ht⟩ : ∃ history, t = (Tracked.fresh Faults.none .none []).replay history :=
    ⟨_, rfl⟩
  have hentry : t.engine.content.get? (Key.equality "k" "f" "x" "1") = some [] := by
    decide +kernel
  have hfound : (db.executeIds (.filtered "k" (.eq "f" (.text "x"))) s).1.toOption =
      some ⟨["1"], 1⟩ := by decide +kernel
  have hdeleted : (db.deleteById "k" "1" s).1.toOption = some true := by decide +kernel
  clear_value t
  subst ht
  obtain ⟨-, hbacked, hhits, hdelete⟩ := sound_replay Faults.none .none [] history
  obtain ⟨fields, hrecord, -, hholds⟩ :=
    hhits db _ s _ _ rfl (Task.run_of_toOption hfound) "1" (List.mem_singleton_self _)
  exact ⟨hbacked "k" "1" (.equality "f" "x") _ [] (by decide) rfl hentry, ⟨fields, hrecord, hholds⟩,
    _, Task.run_of_toOption hdeleted,
    hdelete db "k" "1" s _ true rfl (Task.run_of_toOption hdeleted) (.equality "f" "x")⟩

end IndexedStore
