import IndexedStore.Proofs.Entity.References
import IndexedStore.Proofs.Operation.Healthy
import IndexedStore.Proofs.Store.History

/-! # The references of stored records

A save stores what normalizing makes of the entity, and fails when normalizing fails. Main
statement: reference fields are stored as null or as ids, and a value that stands for no id of
the right keyspace is refused under the first declaration that it offends. The ids are not empty
unless an empty one was given as an id.
-/
namespace IndexedStore

open KeyspaceModel (Offends Stores referenceId)

theorem Database.save_of_normalize_error {db : Database} {m : KeyspaceModel} {e : Entity}
    {x : Error} (hm : db.schema.model e.keyspace = .ok m) (hx : m.normalize e = .error x)
    (s : Engine) : (db.save e s).1 = .error x := by
  have hrun : ∀ s, db.saveUnder m e s = (.error x, s) := by
    intro s
    have hnorm : Task.ofExcept (m.normalize e) s = (.error x, s) := by rw [hx]; rfl
    unfold saveUnder
    rw [Task.bind_run_error hnorm]
  rw [save_fst hm, hrun]

/-- Take an entity of a declared keyspace. An accepted save leaves a record in which a declared
field that is present holds null or the id that was given for it, be it as an id, as a text or
in an entity of the keyspace that the first declaration names, and every other field holds what
was given. The empty id stands where it was given as an id and nowhere else. When a declared
field holds anything else, every save fails, naming the first declaration whose field does. What
is normalized already is left as it is. -/
theorem save_stores_references (db : Database) (m : KeyspaceModel) (e : OrderedEntity)
    (hm : db.schema.model e.val.keyspace = .ok m) :
    (∀ s id s', db.save e.val s = (.ok id, s') → ∃ fields : Fields, fields.Ordered ∧
      s'.content.get? (Key.record m.name id) = some (payload (StoredRecord.mk fields)) ∧
      ∀ name, Stores m.references name (Assoc.lookup name e.val.fields)
          (Assoc.lookup name fields) ∧
        (Assoc.lookup name fields = some (.ref "") ↔
          Assoc.lookup name e.val.fields = some (.ref ""))) ∧
    ((∃ n, m.normalize e.val = .ok n) ↔ ∀ r, ¬Offends m.references e.val.fields r) ∧
    ((∃ r, Offends m.references e.val.fields r) →
      ∃ before r after v fault, m.references = before ++ r :: after ∧
        (∀ r' ∈ before, ¬Offends m.references e.val.fields r') ∧
        Offends m.references e.val.fields r ∧ Assoc.lookup r.field e.val.fields = some v ∧
        referenceId r v = .error fault ∧
        ∀ s, (db.save e.val s).1 = .error (.invalidReference m.name r.field fault)) ∧
    ∀ e' n, m.normalize e' = .ok n → m.normalize n = .ok n := by
  refine ⟨?_, ⟨?_, ?_⟩, ?_, fun e' n => KeyspaceModel.normalize_normalize⟩
  · intro s id s' hrun
    obtain ⟨m', n, owned, hm', hsaved⟩ := Database.save_eq_ok hrun
    cases hm.symm.trans hm'
    have hordered := (KeyspaceModel.normalize_eq_ok hsaved.normalized).2.2 e.property
    refine ⟨n.fields, hordered, hsaved.get?_record, fun name => ?_⟩
    have hstores := KeyspaceModel.stores_of_normalize hsaved.normalized name
    exact ⟨hstores, hstores.eq_empty_iff⟩
  · rintro ⟨n, hn⟩
    exact KeyspaceModel.not_offends_of_normalize hn
  · intro h
    obtain hn | ⟨_, r, _, _, _, -, -, hoff, -⟩ := m.normalize_or_offence e.val
    · exact hn
    · exact absurd hoff (h r)
  · rintro ⟨r, hoff⟩
    obtain ⟨n, hn⟩ | ⟨before, r, after, v, fault, hsplit, hbefore, hr, hv, hfault, hx⟩ :=
      m.normalize_or_offence e.val
    · exact absurd hoff (KeyspaceModel.not_offends_of_normalize hn r)
    · exact ⟨before, r, after, v, fault, hsplit, hbefore, hr, hv, hfault,
        Database.save_of_normalize_error hm hx⟩

/-- The empty id is refused as a text and stored as an id. -/
theorem empty_id_stored :
    let db : Database := .quiet (.single ⟨"k", [], [], [⟨"r", "k"⟩]⟩ rfl)
    let e (v : Value) (hv : v.Ordered) : OrderedEntity :=
      ⟨⟨"k", some "1", [("r", v)]⟩, List.pairwise_singleton _ _, hv, trivial⟩
    (∀ s, (db.save (e (.text "") trivial).val s).1 =
      .error (.invalidReference "k" "r" .emptyId)) ∧
    ∃ s fields, db.save (e (.ref "") trivial).val Engine.empty = (.ok "1", s) ∧
      s.content.get? (Key.record "k" "1") = some (payload (StoredRecord.mk fields)) ∧
      Assoc.lookup "r" fields = some (.ref "") := by
  intro db e
  have hstored := fun v hv => save_stores_references db ⟨"k", [], [], [⟨"r", "k"⟩]⟩ (e v hv) rfl
  constructor
  · have hoff : Offends [⟨"r", "k"⟩] [("r", .text "")] ⟨"r", "k"⟩ :=
      ⟨rfl, .text "", rfl, fun w hw => by cases hw; contradiction⟩
    obtain ⟨before, r, after, v, fault, hsplit, -, -, hv, hfault, hfail⟩ :=
      (hstored (.text "") trivial).2.2.1 ⟨_, hoff⟩
    have hmem : r ∈ [(⟨"r", "k"⟩ : ReferenceModel)] := by
      rw [show [(⟨"r", "k"⟩ : ReferenceModel)] = before ++ r :: after from hsplit]
      simp
    cases List.mem_singleton.mp hmem
    cases hv
    cases hfault
    exact hfail
  · have hid : (db.save (e (.ref "") trivial).val Engine.empty).1.toOption = some "1" := by
      decide +kernel
    have hrun := Task.run_of_toOption hid
    obtain ⟨fields, -, hget, hfields⟩ := (hstored (.ref "") trivial).1 _ _ _ hrun
    exact ⟨_, fields, hrun, hget, (hfields "r").2.mpr rfl⟩

end IndexedStore
