import IndexedStore.Proofs.Store.Image
import IndexedStore.Proofs.Store.Stuck

/-! # Writing back what was read

An entity is read with its references resolved. Saving it normalizes them again, which gives
the stored fields back as long as every field points at a live entity. Main statement: under
one schema saving an entity as it was read leaves the content as it was.
-/
namespace IndexedStore

theorem Acceptable.settled {m : KeyspaceModel} {e n : Entity} {id : String}
    (h : Acceptable m e id n) :
    Acceptable m ⟨m.name, some id, n.fields⟩ id ⟨m.name, some id, n.fields⟩ where
  normalized := by
    unfold KeyspaceModel.normalize
    rw [KeyspaceModel.foldlM_normalizeField_of_plainAt fun r hr =>
      KeyspaceModel.plainAt_of_normalize h.normalized hr]
    rfl
  valid := h.valid
  id_ne := h.id_ne
  writable := h.writable.congr rfl

/-- Every live entity is accepted as it is stored. -/
def Settled (s : Schema) (d : Entities) : Prop :=
  ∀ m id fields, s.model m.name = .ok m → d.get? m.name id = some fields →
    Acceptable m ⟨m.name, some id, fields⟩ id ⟨m.name, some id, fields⟩

theorem settled_iff {s : Schema} {d : Entities} :
    Settled s d ↔ ∀ k i fields, d.get? k i = some fields → ∀ m, s.model k = .ok m →
      Acceptable m ⟨k, some i, fields⟩ i ⟨k, some i, fields⟩ := by
  constructor
  · intro h k i fields hd m hm
    obtain rfl := Schema.name_of_model hm
    exact h m i fields hm hd
  · exact fun h m id fields hm hd => h m.name id fields hd m hm

theorem kept_settled (s : Schema) : Kept s fun _ d => Settled s d := by
  simp only [settled_iff]
  refine kept_each fun {m e n id c c' owned} hm _ hs m' hm' => ?_
  cases hm.symm.trans hm'
  exact hs.toAcceptable.settled

theorem Tracked.settled_under (db : Database) (faults : Faults) (supply : IdSupply)
    (journal : Journal) (ops : List Op) :
    Settled db.schema (under db faults supply journal ops).entities := by
  have h : (fresh faults supply journal).Sat fun _ d => Settled db.schema d :=
    fun m id fields _ hd => nomatch hd
  refine h.replay fun p hp => ?_
  obtain ⟨op, -, rfl⟩ := List.mem_map.mp hp
  exact kept_settled db.schema

/-- What stands in a field either is the stored value, or is an entity of the keyspace that the
first declaration of the field names, where the stored value is its id. -/
inductive Unresolves (references : List ReferenceModel) (name : String) :
    Option Value → Option Value → Prop where
  | same (o : Option Value) : Unresolves references name o o
  | entity (r : ReferenceModel) (id : String) (fields : Fields)
      (hr : references.find? (fun r => r.field = name) = some r) (hid : id ≠ "") :
      Unresolves references name (some (.entity r.target (some id) fields)) (some (.ref id))

namespace Unresolves

variable {references : List ReferenceModel} {r : ReferenceModel} {name : String}
  {o o' : Option Value}

theorem of_cons (h : Unresolves (r :: references) name o o') (hne : r.field ≠ name) :
    Unresolves references name o o' := by
  cases h with
  | same o => exact same o
  | entity r' id fields hr hid =>
    rw [List.find?_cons_of_neg (by simpa using hne)] at hr
    exact entity r' id fields hr hid

theorem eq_of_nil (h : Unresolves [] name o o') : o = o' := by
  cases h with
  | same o => rfl
  | entity r id fields hr hid => cases hr

end Unresolves

namespace KeyspaceModel

variable {m : KeyspaceModel} {references : List ReferenceModel} {r : ReferenceModel}
  {fields stored : Fields}

theorem normalizeField_unresolves (hf : Assoc.Sorted fields) (hplain : stored.PlainAt r.field)
    (h : ∀ name, Unresolves (r :: references) name (Assoc.lookup name fields)
      (Assoc.lookup name stored)) :
    ∃ fields', m.normalizeField fields r = .ok fields' ∧ Assoc.Sorted fields' ∧
      ∀ name, Unresolves references name (Assoc.lookup name fields')
        (Assoc.lookup name stored) := by
  have hown := h r.field
  generalize hl : Assoc.lookup r.field fields = o at hown
  generalize hl' : Assoc.lookup r.field stored = o' at hown
  cases hown with
  | same o =>
    have hfield : fields.PlainAt r.field := fun v hv => hplain v (hl'.trans (hl.symm.trans hv))
    refine ⟨fields, normalizeField_of_plainAt hfield, hf, fun name => ?_⟩
    by_cases hne : r.field = name
    · rw [← hne, hl, hl']
      exact .same _
    · exact (h name).of_cons hne
  | entity r' id target hr hid =>
    rw [List.find?_cons_of_pos (by simp)] at hr
    cases hr
    have hv : referenceId r (.entity r.target (some id) target) = .ok id := by
      simp [referenceId, hid]
    refine ⟨_, normalizeField_of_referenceId hl hv, hf.insert _ _, fun name => ?_⟩
    rw [Assoc.lookup_insert]
    by_cases hne : r.field = name
    · rw [if_pos hne, ← hne, hl']
      exact .same _
    · rw [if_neg hne]
      exact (h name).of_cons hne

/-- Going through the declarations takes every field back. The induction is on the declarations
that are left: a field that is not taken back yet has its first one among them. -/
theorem foldlM_normalizeField_unresolves (hf : Assoc.Sorted fields)
    (hstored : Assoc.Sorted stored) (hplain : ∀ r ∈ references, stored.PlainAt r.field)
    (h : ∀ name, Unresolves references name (Assoc.lookup name fields)
      (Assoc.lookup name stored)) :
    references.foldlM m.normalizeField fields = .ok stored := by
  induction references generalizing fields with
  | nil =>
    have heq : fields = stored := Assoc.ext_lookup hf hstored fun name => (h name).eq_of_nil
    rw [heq]
    rfl
  | cons r references ih =>
    obtain ⟨hr, hrest⟩ := List.forall_mem_cons.mp hplain
    obtain ⟨fields', hrun, hf', h'⟩ := normalizeField_unresolves (m := m) hf hr h
    rw [List.foldlM_cons, hrun]
    exact ih hf' hrest h'

end KeyspaceModel

namespace Entities

variable {d : Entities} {references : List ReferenceModel}

theorem resolveValue_unresolves {name : String} {v : Value}
    (h : ∀ k i, v.pointsAt? references name = some (k, i) →
      i ≠ "" ∧ (d.get? k i).isSome = true) :
    Unresolves references name (some (d.resolveValue references name v)) (some v) := by
  cases hp : v.pointsAt? references name with
  | none =>
    rw [resolveValue_of_none hp]
    exact .same _
  | some t =>
    obtain ⟨k, i⟩ := t
    obtain ⟨hi, hlive⟩ := h k i hp
    obtain ⟨fields, hd⟩ := Option.isSome_iff_exists.mp hlive
    obtain ⟨rfl, r, hr, rfl⟩ := Value.pointsAt?_eq_some.mp hp
    rw [resolveValue, hp]
    dsimp only
    rw [hd]
    exact .entity r i fields hr hi

theorem normalize_resolved {m : KeyspaceModel} {e : Entity} (he : Assoc.Sorted e.fields)
    (hplain : ∀ r ∈ m.references, e.fields.PlainAt r.field)
    (h : ∀ name v k i, Assoc.lookup name e.fields = some v →
      v.pointsAt? m.references name = some (k, i) → i ≠ "" ∧ (d.get? k i).isSome = true) :
    m.normalize (d.resolved m.references e) = .ok e := by
  have hfold : m.references.foldlM m.normalizeField (d.resolved m.references e).fields =
      .ok e.fields := by
    refine KeyspaceModel.foldlM_normalizeField_unresolves (sorted_map_resolve he) he hplain
      fun name => ?_
    unfold resolved
    rw [lookup_map_resolve]
    cases hl : Assoc.lookup name e.fields with
    | none => exact .same _
    | some v => exact resolveValue_unresolves fun k i hp => h name v k i hl hp
  unfold KeyspaceModel.normalize
  rw [hfold]
  rfl

theorem put_eq_self {keyspace id : String} {fields : Fields}
    (h : d.get? keyspace id = some fields) : d.put keyspace id fields = d := by
  funext k
  apply Dict.ext_get?
  intro i
  show (d.put keyspace id fields).get? k i = d.get? k i
  rw [get?_put]
  split
  · rename_i hsame
    rw [hsame.1, hsame.2, h]
  · rfl

end Entities

namespace Consistent

variable {c : Content} {d : Entities} {s : Schema} {m : KeyspaceModel} {id : String}
  {fields : Fields}

theorem live_of_pointsAt? (h : Consistent c d) (hm : s.model m.name = .ok m) {name k i : String}
    {v : Value} (hp : v.pointsAt? m.references name = some (k, i))
    (hrecord : (c.get? (Key.record k i)).isSome = true) :
    i ≠ "" ∧ (d.get? k i).isSome = true := by
  obtain ⟨-, r, hr, rfl⟩ := Value.pointsAt?_eq_some.mp hp
  have htarget := Schema.isName_target hm (List.mem_of_find?_eq_some hr)
  rw [h.get?_record htarget, Option.isSome_map] at hrecord
  obtain ⟨fields, hd⟩ := Option.isSome_iff_exists.mp hrecord
  exact ⟨(h.named _ i fields hd).2, hrecord⟩

theorem acceptable_resolved (h : Consistent c d) (hsettled : Settled s d)
    (hm : s.model m.name = .ok m) (hd : d.get? m.name id = some fields)
    (hpoints : ∀ name v k i, Assoc.lookup name fields = some v →
      v.pointsAt? m.references name = some (k, i) →
      (c.get? (Key.record k i)).isSome = true) :
    Acceptable m (d.resolved m.references ⟨m.name, some id, fields⟩) id
      ⟨m.name, some id, fields⟩ := by
  have haccept := hsettled m id fields hm hd
  obtain ⟨refs, hlive⟩ := h.live m.name id fields hd
  have hnorm := Entities.normalize_resolved (d := d) (e := ⟨m.name, some id, fields⟩)
    hlive.ordered.1 (fun r hr => KeyspaceModel.plainAt_of_normalize haccept.normalized hr)
    fun name v k i hv hp => h.live_of_pointsAt? hm hp (hpoints name v k i hv hp)
  exact { haccept with normalized := hnorm }

end Consistent

/-- Under one schema a save that stores what is stored already changes nothing. -/
theorem Saved.content_eq {s : Schema} {c c' : Content} {d : Entities} (h : Exact s c d)
    {m : KeyspaceModel} (hm : s.model m.name = .ok m) {e n : Entity} {id : String}
    {owned : BackRefs} (hs : Saved m e id c c' n owned) (hd : d.get? m.name id = some n.fields) :
    c' = c := by
  obtain ⟨refs, hlive⟩ := h.1.live m.name id n.fields hd
  obtain ⟨hc', hcomplete'⟩ := (kept_exact s).save h hm hlive.ordered hs
  rw [Entities.put_eq_self hd] at hc' hcomplete'
  rw [hcomplete'.content_eq hc', h.2.content_eq h.1]

/-- After every history under one schema, take an entity that is found on a healthy backing
store and whose declared fields point at live entities only. Saving it just as it was found,
with its references resolved, succeeds and leaves the content as it was. -/
theorem save_of_findById (db : Database) (faults : Faults) (supply : IdSupply) (journal : Journal)
    (ops : List Op) :
    let t := Tracked.under db faults supply journal ops
    ∀ (m : KeyspaceModel) (id : String) (b : Bytes) (r : StoredRecord) (e : Entity)
      (s s₁ : Engine), s.content = t.engine.content → s.faults = Faults.none →
      db.schema.model m.name = .ok m → s.content.get? (Key.record m.name id) = some b →
      decode b = .ok r →
      (∀ name v k i, Assoc.lookup name r.fields = some v →
        v.pointsAt? m.references name = some (k, i) →
        (s.content.get? (Key.record k i)).isSome = true) →
      db.findById m.name id s = (.ok (some e), s₁) →
      ∃ s₂, db.save e s₁ = (.ok id, s₂) ∧ s₂.content = s.content := by
  intro t m id b r e s s₁ hcontent hhealthy hm hget hdec hpoints hfind
  obtain ⟨hc, hb⟩ := Tracked.stands_replay faults supply journal _ hcontent
  have hexact : Exact db.schema s.content t.entities := by
    rw [hcontent]
    exact Tracked.exact_under db faults supply journal ops
  have hsettled := Tracked.settled_under db faults supply journal ops
  obtain ⟨hd, -⟩ := hc.live_of_record (Schema.isName_of_model hm) hget hdec
  obtain ⟨he, hread, -⟩ := (hc.findById_eq_ok hb hhealthy hm hd).mp (congrArg Prod.fst hfind)
  obtain rfl := Option.some.inj he
  have haccept := hc.acceptable_resolved hsettled hm hd hpoints
  obtain ⟨hsame, -⟩ := (db.reading_findById m.name id).run_ok hfind
  have hstuck : ¬Stuck s₁.content m id r.fields :=
    not_stuck_iff.mpr fun _ => (hsettled m id r.fields hm hd).writable.derives
  rw [← hsame.content] at hc hb
  have hsave := (hc.save_eq_ok hb (hsame.faults.trans hhealthy) hm rfl hd).mpr
    ⟨⟨_, haccept⟩, hread, hstuck⟩
  refine ⟨_, Prod.ext hsave rfl, ?_⟩
  obtain ⟨m', n, owned, hm', hsaved⟩ := Database.save_eq_ok (Prod.ext hsave rfl)
  cases hm.symm.trans hm'
  cases haccept.normalized.symm.trans hsaved.normalized
  rw [hsame.content] at hsaved
  exact hsaved.content_eq hexact hm hd

/-- An entity that refers to another one of its keyspace is written back as it was read. -/
theorem save_of_found_reference :
    let db : Database := .quiet (.single ⟨"k", ["f"], [], [⟨"r", "k"⟩]⟩ rfl)
    let e : OrderedEntity :=
      ⟨⟨"k", some "2", [("f", .text "x"), ("r", .text "1")]⟩, by decide, trivial, trivial, trivial⟩
    let t := Tracked.under db Faults.none .none [] [.saveMany [.sample, e]]
    ∃ found s₁ s₂, db.findById "k" "2" (.holding t.engine.content) = (.ok (some found), s₁) ∧
      (found.entity? "r").bind Entity.id = some "1" ∧ db.save found s₁ = (.ok "2", s₂) ∧
      s₂.content = t.engine.content := by
  intro db e t
  have hget : t.engine.content.get? (Key.record "k" "2") =
      some (payload (StoredRecord.mk [("f", .text "x"), ("r", .ref "1")])) := by decide +kernel
  have htarget : (t.engine.content.get? (Key.record "k" "1")).isSome = true := by decide +kernel
  have hfound : (db.findById "k" "2" (.holding t.engine.content)).1.toOption.map
      (fun o => o.bind fun e => (e.entity? "r").bind Entity.id) = some (some "1") := by
    decide +kernel
  have hordered : Fields.Ordered [("f", .text "x"), ("r", .ref "1")] :=
    ⟨by decide, trivial, trivial, trivial⟩
  have hdec : decode (payload (StoredRecord.mk [("f", .text "x"), ("r", .ref "1")])) =
      .ok (StoredRecord.mk [("f", .text "x"), ("r", .ref "1")]) := by
    rw [StoredRecord.decode_payload hordered (by decide +kernel), if_pos (by decide)]
  obtain ⟨ops, ht⟩ : ∃ ops, t = Tracked.under db Faults.none .none [] ops := ⟨_, rfl⟩
  clear_value t
  have hpoints : ∀ name v k i,
      Assoc.lookup name [("f", Value.text "x"), ("r", .ref "1")] = some v →
      v.pointsAt? [⟨"r", "k"⟩] name = some (k, i) →
      (t.engine.content.get? (Key.record k i)).isSome = true := by
    intro name v k i hv hp
    obtain ⟨rfl, r, hr, rfl⟩ := Value.pointsAt?_eq_some.mp hp
    cases List.mem_singleton.mp (List.mem_of_find?_eq_some hr)
    obtain rfl : "r" = name := by simpa using List.find?_some hr
    cases hv
    exact htarget
  rcases hrun : db.findById "k" "2" (.holding t.engine.content) with ⟨x | o, s₁⟩ <;>
    rw [hrun] at hfound
  · cases hfound
  · cases o with
    | none => cases hfound
    | some found =>
      obtain ⟨s₂, hsave, hsame⟩ := save_of_findById db Faults.none .none [] ops
        ⟨"k", ["f"], [], [⟨"r", "k"⟩]⟩ "2" _ _ found (.holding t.engine.content) s₁
        (by rw [ht]; rfl) rfl rfl hget hdec hpoints hrun
      exact ⟨found, s₁, s₂, rfl, Option.some.inj hfound, hsave, hsame⟩

end IndexedStore
