import IndexedStore.Proofs.Store.History

/-! # The image of the entities

Under one schema the content is determined by the entities: the rows of each of them and no
further key. Main statement: after every history under one schema the content is the image of
the entities that the history should leave.
-/
namespace IndexedStore

open Key (Slot IsName)

namespace KeyspaceModel

def rows (m : KeyspaceModel) (id : String) (fields : Fields) : List (String × Bytes) :=
  [(Key.record m.name id, payload (StoredRecord.mk fields)), (Key.member m.name id, [])] ++
    (m.indexes.filterMap fun path =>
      (fields.tokenAt path).map fun token => (Key.equality m.name path token id, [])) ++
    (m.geoIndexes.filterMap fun path =>
      (fields.pointAt path).map fun p => (Key.geo m.name path id, payload p)) ++
    if (m.refs fields id).isEmpty then []
    else [(Key.backRefs m.name id, payload (m.refs fields id))]

theorem mem_rows {m : KeyspaceModel} {id : String} {fields : Fields} {k : String} {b : Bytes} :
    (k, b) ∈ m.rows id fields ↔
      ∃ slot : Slot, k = slot.key m.name id ∧ m.image? id fields slot = some b := by
  unfold rows
  simp only [List.mem_append, List.mem_cons, List.not_mem_nil, or_false, List.mem_filterMap,
    Option.map_eq_some_iff, Prod.mk.injEq]
  constructor
  · rintro ((((⟨rfl, rfl⟩ | ⟨rfl, rfl⟩) | ⟨path, hp, token, ht, rfl, rfl⟩) |
      ⟨path, hp, p, hat, rfl, rfl⟩) | hrefs)
    · exact ⟨.record, rfl, rfl⟩
    · exact ⟨.member, rfl, rfl⟩
    · exact ⟨.equality path token, rfl,
        wanted?_eq_some.mpr ⟨hp, Slot.wanted?_equality.mpr ⟨rfl, ht⟩⟩⟩
    · exact ⟨.geo path, rfl, wanted?_eq_some.mpr ⟨hp, Slot.wanted?_geo.mpr ⟨p, hat, rfl⟩⟩⟩
    · split at hrefs
      · cases hrefs
      · rename_i he
        cases List.mem_singleton.mp hrefs
        exact ⟨.backRefs, rfl, BackRefs.stored_eq_some.mpr ⟨Bool.eq_false_iff.mpr he, rfl⟩⟩
  · rintro ⟨slot, rfl, hi⟩
    cases slot with
    | record => exact Or.inl (Or.inl (Or.inl (Or.inl ⟨rfl, (Option.some.inj hi).symm⟩)))
    | member => exact Or.inl (Or.inl (Or.inl (Or.inr ⟨rfl, (Option.some.inj hi).symm⟩)))
    | backRefs =>
      obtain ⟨he, rfl⟩ := BackRefs.stored_eq_some.mp hi
      refine Or.inr ?_
      rw [he]
      exact List.mem_singleton.mpr rfl
    | equality path token =>
      obtain ⟨hp, he⟩ := wanted?_eq_some.mp hi
      obtain ⟨rfl, ht⟩ := Slot.wanted?_equality.mp he
      exact Or.inl (Or.inl (Or.inr ⟨path, hp, token, ht, rfl, rfl⟩))
    | geo path =>
      obtain ⟨hp, he⟩ := wanted?_eq_some.mp hi
      obtain ⟨p, hat, rfl⟩ := Slot.wanted?_geo.mp he
      exact Or.inl (Or.inr ⟨path, hp, p, hat, rfl, rfl⟩)

end KeyspaceModel

/-- The content that stands for the entities. -/
def Schema.image (s : Schema) (d : Entities) : Content :=
  Dict.ofList (s.models.flatMap fun m => (d m.name).entries.flatMap fun e => m.rows e.1 e.2)

/-- Every slot of every live entity is filled as its model under the schema asks for. -/
structure Complete (s : Schema) (c : Content) (d : Entities) : Prop where
  declared : ∀ keyspace id fields, d.get? keyspace id = some fields →
    ∃ m, s.model keyspace = .ok m
  filled : ∀ m id fields, s.model m.name = .ok m → d.get? m.name id = some fields →
    ∀ slot : Slot, c.get? (slot.key m.name id) = m.image? id fields slot

namespace Complete

variable {s : Schema} {c c' : Content} {d d' : Entities} {m : KeyspaceModel} {id : String}

theorem content_eq (h : Complete s c d) (hc : Consistent c d) : c = s.image d := by
  have hmem : ∀ k b, (k, b) ∈ s.models.flatMap (fun m => (d m.name).entries.flatMap fun e =>
      m.rows e.1 e.2) ↔ c.get? k = some b := by
    intro k b
    simp only [List.mem_flatMap]
    constructor
    · rintro ⟨m, hm, ⟨id, fields⟩, he, hr⟩
      obtain ⟨slot, rfl, hi⟩ := KeyspaceModel.mem_rows.mp hr
      rw [h.filled m id fields (Schema.model_of_mem hm) (Dict.mem_entries.mp he) slot, hi]
    · intro hk
      obtain ⟨keyspace, id, slot, hkn, hid, rfl⟩ := hc.keyed k b hk
      cases hd : d.get? keyspace id with
      | none => cases (hc.absent keyspace id hkn hid hd slot).symm.trans hk
      | some fields =>
        obtain ⟨m, hm⟩ := h.declared keyspace id fields hd
        obtain rfl := Schema.name_of_model hm
        refine ⟨m, Schema.mem_of_model hm, (id, fields), Dict.mem_entries.mpr hd,
          KeyspaceModel.mem_rows.mpr ⟨slot, rfl, ?_⟩⟩
        rw [← h.filled m id fields hm hd slot, hk]
  apply Dict.ext_get?
  intro k
  ext b
  rw [Schema.image, Dict.get?_ofList, hmem]
  intro k b b' hb hb'
  rw [hmem] at hb hb'
  exact Option.some.inj (hb.symm.trans hb')

/-- What is taken as owned is what the model asks for. -/
theorem owned_eq (h : Complete s c d) (hc : Consistent c d) (hm : s.model m.name = .ok m)
    {old : Option Entity} {owned : BackRefs} {fields : Fields}
    (hd : d.get? m.name id = some fields) (hl : (Task.load m.name id).on c = .ok old)
    (ho : (BackRefs.owned Batch.empty m id old).on c = .ok owned) :
    owned = m.refs fields id := by
  have hstored := h.filled m id fields hm hd .backRefs
  rcases BackRefs.on_owned_eq_ok ho with ⟨b, hb, hdec⟩ | ⟨-, rfl⟩
  · obtain ⟨-, rfl⟩ := BackRefs.stored_eq_some.mp (hstored.symm.trans hb)
    exact (BackRefs.decode_payload.mp hdec).1
  · rw [hc.load_eq (Schema.isName_of_model hm) hl, hd]
    rfl

theorem update (h : Complete s c d) (hc : Consistent c d) (hm : s.model m.name = .ok m)
    (hid : id ≠ "")
    (hother : ∀ k, (∀ slot : Slot, k ≠ slot.key m.name id) → c'.get? k = c.get? k)
    (hd : ∀ k i, ¬(k = m.name ∧ i = id) → d'.get? k i = d.get? k i)
    (hfilled : ∀ fields, d'.get? m.name id = some fields →
      ∀ slot : Slot, c'.get? (slot.key m.name id) = m.image? id fields slot) :
    Complete s c' d' := by
  refine ⟨?_, ?_⟩
  · intro k i fields hf
    by_cases hne : k = m.name ∧ i = id
    · exact ⟨m, by rw [hne.1, hm]⟩
    · rw [hd k i hne] at hf
      exact h.declared k i fields hf
  · intro m' i fields hm' hf slot
    by_cases hne : m'.name = m.name ∧ i = id
    · obtain ⟨hname, rfl⟩ := hne
      rw [hname] at hm'
      obtain rfl := Except.ok.inj (hm.symm.trans hm')
      exact hfilled fields hf slot
    · rw [hd m'.name i hne] at hf
      obtain ⟨hkn, hi⟩ := hc.named _ i fields hf
      rw [← h.filled m' i fields hm' hf slot]
      refine hother _ fun slot' he => hne ?_
      obtain ⟨hk, hii, -⟩ := Slot.key_inj hkn (Schema.isName_of_model hm) hi hid he
      exact ⟨hk, hii⟩

theorem save (h : Complete s c d) (hc : Consistent c d) (hm : s.model m.name = .ok m)
    {e n : Entity} {owned : BackRefs} (hs : Saved m e id c c' n owned) :
    Complete s c' (d.put m.name id n.fields) := by
  obtain ⟨old, hl, ho⟩ := hs.owns
  have hk := Schema.isName_of_model hm
  have howns := hc.owns hk hs.id_ne hl ho
  refine h.update hc hm hs.id_ne ?_ ?_ ?_
  · intro k hne
    exact hs.get?_other howns.own hne
  · intro k i hne
    rw [Entities.get?_put, if_neg hne]
  · intro fields hf
    rw [Entities.get?_put, if_pos ⟨rfl, rfl⟩] at hf
    cases hf
    apply hs.filled howns
    intro path token he hc'
    cases hd : d.get? m.name id with
    | none =>
      rw [hc.owned_of_none hk hs.id_ne hd hl ho] at hc'
      simp at hc'
    | some fields =>
      rw [h.owned_eq hc hm hd hl ho,
        KeyspaceModel.contains_refs_of_ref? (s := .equality path token) fields rfl] at hc'
      obtain ⟨b, hb⟩ := Option.isSome_iff_exists.mp hc'
      have hget : c.get? (Key.equality m.name path token id) =
        m.wanted? fields (.equality path token) := h.filled m id fields hm hd (.equality path token)
      rw [hget, hb]
      nofun

theorem delete (h : Complete s c d) (hc : Consistent c d) (hm : s.model m.name = .ok m)
    {old : Option Entity} {owned : BackRefs} (hdel : Deleted m id c c' old owned) :
    Complete s c' (d.erase m.name id) := by
  have hk := Schema.isName_of_model hm
  by_cases hid : id = ""
  · subst hid
    have hget := Entities.get?_erase_of_none (hc.get?_empty_id m.name)
    rw [hdel.content_eq_of_empty_id hc hk]
    exact ⟨fun k i fields hf => h.declared k i fields (by rwa [hget] at hf),
      fun m' i fields hm' hf => h.filled m' i fields hm' (by rwa [hget] at hf)⟩
  · have howns := hc.owns hk hid hdel.loads hdel.owns
    refine h.update hc hm hid ?_ ?_ ?_
    · intro k hne
      exact hdel.get?_other howns.own hne
    · intro k i hne
      rw [Entities.get?_erase, if_neg hne]
    · intro fields hf
      rw [Entities.get?_erase, if_pos ⟨rfl, rfl⟩] at hf
      cases hf

theorem clear (h : Complete s c d) (hc : Consistent c d) {keyspace : String}
    (hk : IsName keyspace) (hclear : ∀ k, c'.get? k =
      if Key.hasPrefix (Key.keyspacePrefix keyspace) k then none else c.get? k) :
    Complete s c' (d.clear keyspace) := by
  refine ⟨?_, ?_⟩
  · intro k i fields hf
    rw [Entities.get?_clear] at hf
    split at hf
    · cases hf
    · exact h.declared k i fields hf
  · intro m' i fields hm' hf slot
    rw [Entities.get?_clear] at hf
    split at hf
    · cases hf
    · rename_i hne
      have hkn := (hc.named _ i fields hf).1
      rw [hclear, if_neg fun hp => hne ((Key.hasPrefix_keyspacePrefix hk hkn i slot).mp hp)]
      exact h.filled m' i fields hm' hf slot

end Complete

/-- Consistent with the entities and complete under the schema. -/
def Exact (s : Schema) (c : Content) (d : Entities) : Prop := Consistent c d ∧ Complete s c d

theorem exact_empty (s : Schema) : Exact s Dict.empty Entities.empty :=
  ⟨consistent_empty, fun _ _ _ h => (nomatch h), fun _ _ _ _ h => (nomatch h)⟩

theorem kept_exact (s : Schema) : Kept s (Exact s) where
  save h hm hf hs := ⟨(kept_consistent s).save h.1 hm hf hs, h.2.save h.1 hm hs⟩
  delete h hm hd := ⟨(kept_consistent s).delete h.1 hm hd, h.2.delete h.1 hm hd⟩
  clear h hm hc :=
    ⟨(kept_consistent s).clear h.1 hm hc, h.2.clear h.1 (Schema.isName_of_model hm) hc⟩

namespace Tracked

/-- The state after a history of operations under one schema. -/
def under (db : Database) (faults : Faults) (supply : IdSupply) (journal : Journal) (ops : List Op) :
    Tracked :=
  (fresh faults supply journal).replay (ops.map fun op => (db, op))

theorem exact_under (db : Database) (faults : Faults) (supply : IdSupply) (journal : Journal)
    (ops : List Op) : (under db faults supply journal ops).Sat (Exact db.schema) := by
  have h : (fresh faults supply journal).Sat (Exact db.schema) := exact_empty db.schema
  apply h.replay
  intro p hp
  obtain ⟨op, -, rfl⟩ := List.mem_map.mp hp
  exact kept_exact db.schema

end Tracked

/-- Under one schema the content is the image of the entities after every history, whatever
calls fail. A further save puts among the entities what the declarations make of its fields; the
answers of deletes are those of the entities, and a row of saves is tracked as it runs. -/
theorem content_eq_image (db : Database) (faults : Faults) (supply : IdSupply) (journal : Journal)
    (ops : List Op) :
    let t := Tracked.under db faults supply journal ops
    t.engine.content = db.schema.image t.entities ∧
      (∀ (e : OrderedEntity) id s, db.save e.val t.engine = (.ok id, s) → ∃ m fields,
        db.schema.model e.val.keyspace = .ok m ∧ Assoc.Sorted fields ∧
        (∀ name, KeyspaceModel.Stores m.references name (Assoc.lookup name e.val.fields)
          (Assoc.lookup name fields)) ∧
        (t.save db e).2 = ⟨s, t.entities.put e.val.keyspace id fields⟩) ∧
      (∀ keyspace id removed s, db.deleteById keyspace id t.engine = (.ok removed, s) →
        removed = (t.entities.get? keyspace id).isSome) ∧
      (∀ keyspace n s, db.deleteAll keyspace t.engine = (.ok n, s) →
        n = (t.entities keyspace).size) ∧
      (∀ e id i s, e.id = some id → db.save e t.engine = (.ok i, s) → i = id) ∧
      ∀ l, db.saveMany (l.map Subtype.val) t.engine =
        ((t.saveMany db l).1, (t.saveMany db l).2.engine) := by
  intro t
  obtain ⟨hc, hcomplete⟩ := Tracked.exact_under db faults supply journal ops
  refine ⟨hcomplete.content_eq hc, fun e id s => Tracked.save_stores, ?_, ?_, ?_,
    t.saveMany_run db⟩
  · intro keyspace id removed s h
    obtain ⟨m, old, owned, hm, rfl, hdeleted⟩ := Database.deleteById_eq_ok h
    obtain rfl := Schema.name_of_model hm
    exact hdeleted.isSome_eq hc (Schema.isName_of_model hm)
  · intro keyspace n s h
    obtain ⟨m, hm, ⟨ids, hids, rfl⟩, -⟩ := Database.deleteAll_eq_ok h
    obtain rfl := Schema.name_of_model hm
    cases hids
    exact hc.size_members (Schema.isName_of_model hm)
  · intro e id i s he h
    obtain ⟨m, n, owned, hm, hsaved⟩ := Database.save_eq_ok h
    exact (hsaved.id_eq id he).symm

/-- A reference that is given as a text is tracked as an id. -/
theorem image_behind_save :
    let db : Database := .quiet (.single ⟨"k", ["f"], [], [⟨"r", "k"⟩]⟩ rfl)
    let e : OrderedEntity := ⟨⟨"k", some "2", [("r", .text "1")]⟩,
      List.pairwise_singleton _ _, trivial, trivial⟩
    let t := Tracked.under db Faults.none .none [] [.save .sample]
    t.engine.content = db.schema.image t.entities ∧
      (∃ fields s, db.save e.val t.engine = (.ok "2", s) ∧
        (t.save db e).2 = ⟨s, t.entities.put "k" "2" fields⟩ ∧
        Assoc.lookup "r" fields = some (.ref "1")) ∧
      ∃ s, db.deleteById "k" "1" t.engine = (.ok (t.entities.get? "k" "1").isSome, s) := by
  intro db e t
  have hsaved : (db.save e.val t.engine).1.toOption = some "2" := by decide +kernel
  have hdeleted : (db.deleteById "k" "1" t.engine).1.toOption = some true := by decide +kernel
  obtain ⟨ops, ht⟩ : ∃ ops, t = Tracked.under db Faults.none .none [] ops := ⟨_, rfl⟩
  clear_value t
  subst ht
  have hsave := Task.run_of_toOption hsaved
  have hdelete := Task.run_of_toOption hdeleted
  obtain ⟨himage, hput, hremoved, -⟩ := content_eq_image db Faults.none .none [] ops
  obtain ⟨m, fields, hm, -, hstores, htracked⟩ := hput e _ _ hsave
  cases hm
  refine ⟨himage, ⟨fields, _, hsave, htracked, ?_⟩, _, hremoved _ _ _ _ hdelete ▸ hdelete⟩
  have hr : Option.Rel (Value.StoredAs "k") (some (.text "1")) (Assoc.lookup "r" fields) :=
    hstores "r"
  generalize Assoc.lookup "r" fields = value at hr
  cases hr with
  | some hr =>
    cases hr
    rfl

end IndexedStore
