import IndexedStore.Proofs.Store.Removed
import IndexedStore.Proofs.Store.Served

/-! # References are resolved one level deep

A read gives the stored record in which the references are replaced by stored entities, whose
own references stay ids, so that entities which refer to each other or to themselves are read
like all others. Main statement: this is what every read of a live entity gives, and deleting
another entity sets the fields that point at it to null and leaves the other ones.
-/
namespace IndexedStore

/-- What a read gives for the stored value of a field. -/
inductive Value.ReadsAs (d : Entities) (m : KeyspaceModel) (name : String) : Value → Value → Prop
  | undeclared (v : Value) (hr : m.referenceFor? name = none) : ReadsAs d m name v v
  | plain (v : Value) (hv : ∀ id, v ≠ .ref id) : ReadsAs d m name v v
  | found (r : ReferenceModel) (id : String) (fields : Fields) (hr : m.referenceFor? name = some r)
      (hd : d.get? r.target id = some fields) :
      ReadsAs d m name (.ref id) (.entity r.target (some id) fields)
  | missing (r : ReferenceModel) (id : String) (hr : m.referenceFor? name = some r)
      (hd : d.get? r.target id = none) : ReadsAs d m name (.ref id) .null

/-- The entity `e` is what is stored under `id`, with its references resolved. -/
structure Entity.OneLevel (e : Entity) (d : Entities) (m : KeyspaceModel) (id : String)
    (fields : Fields) : Prop where
  keyspace : e.keyspace = m.name
  id : e.id = some id
  sorted : Assoc.Sorted e.fields
  fields : ∀ name, Option.Rel (Value.ReadsAs d m name) (Assoc.lookup name fields)
    (Assoc.lookup name e.fields)

namespace Entities

variable {d : Entities} {m : KeyspaceModel} {references : List ReferenceModel}

theorem readsAs_resolveValue (d : Entities) (m : KeyspaceModel) (name : String) (v : Value) :
    v.ReadsAs d m name (d.resolveValue m.references name v) := by
  cases hp : v.pointsAt? m.references name with
  | some t =>
    obtain ⟨k, i⟩ := t
    rw [resolveValue, hp]
    obtain ⟨rfl, r, hr, rfl⟩ := Value.pointsAt?_eq_some.mp hp
    dsimp only
    cases hd : d.get? r.target i with
    | some fields => exact .found r i fields hr hd
    | none => exact .missing r i hr hd
  | none =>
    rw [resolveValue_of_none hp]
    cases hr : m.referenceFor? name with
    | none => exact .undeclared v hr
    | some r =>
      refine .plain v fun id hv => ?_
      cases (Value.pointsAt?_eq_some.mpr ⟨hv, r, hr, rfl⟩).symm.trans hp

theorem oneLevel_resolved (d : Entities) (m : KeyspaceModel) (id : String) {fields : Fields}
    (hf : Assoc.Sorted fields) :
    (d.resolved m.references ⟨m.name, some id, fields⟩).OneLevel d m id fields where
  keyspace := rfl
  id := rfl
  sorted := sorted_map_resolve hf
  fields name := by
    rw [resolved, lookup_map_resolve]
    cases Assoc.lookup name fields with
    | none => exact .none
    | some v => exact .some (readsAs_resolveValue d m name v)

/-- Without an entity a reference to it leads to null, and the others lead where they did. -/
theorem resolveValue_erase (d : Entities) (k i name : String) (v : Value) :
    (d.erase k i).resolveValue references name v =
      if v.pointsAt? references name = some (k, i) then .null
      else d.resolveValue references name v := by
  cases hp : v.pointsAt? references name with
  | none => simp [resolveValue_of_none hp]
  | some t =>
    obtain ⟨k', i'⟩ := t
    rw [resolveValue, resolveValue, hp]
    dsimp only
    rw [get?_erase]
    by_cases ht : k' = k ∧ i' = i
    · rw [if_pos ht, if_pos (by rw [ht.1, ht.2])]
      rfl
    · rw [if_neg ht, if_neg (by simpa using ht)]

theorem lookup_resolved_erase (d : Entities) (m : KeyspaceModel) (e : Entity) (k i name : String) :
    Assoc.lookup name ((d.erase k i).resolved m.references e).fields =
      if (Assoc.lookup name e.fields).bind (fun v => v.pointsAt? m.references name) = some (k, i)
      then some .null else Assoc.lookup name (d.resolved m.references e).fields := by
  rw [resolved, resolved, lookup_map_resolve,
    lookup_map_resolve]
  cases Assoc.lookup name e.fields with
  | none => rfl
  | some v =>
    rw [Option.map_some, Option.map_some, Option.bind_some, resolveValue_erase]
    split <;> rfl

theorem Resolvable.erase {fields : Fields} (h : d.Resolvable references fields) (k i : String) :
    (d.erase k i).Resolvable references fields := by
  intro name v k' i' hv hp target ht
  rw [get?_erase] at ht
  split at ht
  · cases ht
  · exact h name v k' i' hv hp target ht

end Entities

namespace Consistent

variable {d : Entities} {db : Database} {m : KeyspaceModel} {id : String} {s : Engine}
  {fields : Fields}

/-- A read that succeeds gives the resolved entity, whichever calls could have failed. -/
theorem findById_of_ok (h : Consistent s.content d) (hb : s.content.Bounded)
    (hm : db.schema.model m.name = .ok m) (hd : d.get? m.name id = some fields)
    {o : Option Entity} (ho : (db.findById m.name id s).1 = .ok o) :
    o = some (d.resolved m.references ⟨m.name, some id, fields⟩) ∧ fields.Readable ∧
      d.Resolvable m.references fields := by
  obtain ⟨-, hon⟩ := (db.reading_findById m.name id).run_ok (Prod.ext ho rfl)
  exact (Consistent.findById_eq_ok (s := .holding s.content) h hb rfl hm hd).mp hon

end Consistent

/-- After every history, whatever schemas it went through and whichever calls failed in it, the
records are those of the live entities. When a read of a live entity succeeds, it gives the
stored fields with the references resolved one level deep. After another entity was deleted it
can be read again if it could be read before, and apart from nulls in the fields that pointed at
the deleted entity it is read as before. -/
theorem findById_oneLevel (faults : Faults) (supply : IdSupply) (journal : Journal)
    (history : List (Database × Op)) :
    let t := (Tracked.fresh faults supply journal).replay history
    (∀ k i, Key.IsName k → t.engine.content.get? (Key.record k i) =
      (t.entities.get? k i).map fun fields => payload (StoredRecord.mk fields)) ∧
    ∀ (db : Database) (m : KeyspaceModel) (id : String) (fields : Fields),
      db.schema.model m.name = .ok m → t.entities.get? m.name id = some fields →
      (∀ s : Engine, s.content = t.engine.content → ∀ o, (db.findById m.name id s).1 = .ok o →
        ∃ e, o = some e ∧ e.OneLevel t.entities m id fields) ∧
      ∀ (k i : String) (removed : Bool) (s s₁ : Engine), (k, i) ≠ (m.name, id) →
        s.content = t.engine.content → db.deleteById k i s = (.ok removed, s₁) →
        ∀ (e : Entity) (s₀ s₂ : Engine), s₀.content = t.engine.content →
          (db.findById m.name id s₀).1 = .ok (some e) → s₂.content = s₁.content →
          (s₂.faults = Faults.none → ∃ o, (db.findById m.name id s₂).1 = .ok o) ∧
          ∀ o, (db.findById m.name id s₂).1 = .ok o →
            ∃ e', o = some e' ∧ e'.keyspace = e.keyspace ∧ e'.id = e.id ∧
              Assoc.Sorted e'.fields ∧ ∀ name, Assoc.lookup name e'.fields =
                if (Assoc.lookup name fields).bind (fun v => v.pointsAt? m.references name) =
                    some (k, i) then some .null
                else Assoc.lookup name e.fields := by
  intro t
  refine ⟨fun k i hk => (Tracked.consistent_replay faults supply journal history).get?_record hk i,
    ?_⟩
  intro db m id fields hm hd
  have hstands := fun c hc => Tracked.stands_replay faults supply journal history (c := c) hc
  have hsorted : Assoc.Sorted fields := by
    obtain ⟨refs, hlive⟩ := (hstands _ rfl).1.live m.name id fields hd
    exact hlive.ordered.1
  constructor
  · intro s hs o ho
    obtain ⟨hc, hb⟩ := hstands _ hs
    exact ⟨_, (hc.findById_of_ok hb hm hd ho).1, Entities.oneLevel_resolved _ m id hsorted⟩
  · intro k i removed s s₁ hne hs hdelete e s₀ s₂ hs₀ he hs₂
    obtain ⟨hc₀, hb₀⟩ := hstands _ hs₀
    obtain ⟨he, hread, hres⟩ := hc₀.findById_of_ok hb₀ hm hd he
    obtain rfl := Option.some.inj he
    obtain ⟨hc, hb⟩ := hstands _ hs
    obtain ⟨m', old, owned, hm', -, hdeleted⟩ := Database.deleteById_eq_ok hdelete
    obtain rfl := Schema.name_of_model hm'
    have hc₂ := hdeleted.consistent hc (Schema.isName_of_model hm')
    have hb₂ := hdeleted.bounded hb
    rw [← hs₂] at hc₂ hb₂
    have hd₂ : (t.entities.erase m'.name i).get? m.name id = some fields := by
      rw [Entities.get?_erase, if_neg fun h => hne (by rw [h.1, h.2])]
      exact hd
    constructor
    · intro hfaults
      exact ⟨_, (hc₂.findById_eq_ok hb₂ hfaults hm hd₂).mpr ⟨rfl, hread, hres.erase _ _⟩⟩
    · intro o ho
      refine ⟨_, (hc₂.findById_of_ok hb₂ hm hd₂ ho).1, rfl, rfl,
        Entities.sorted_map_resolve hsorted, fun name => ?_⟩
      exact Entities.lookup_resolved_erase _ m _ _ _ name

/-- A reference is read as the entity that it leads to, and as null once that is deleted. -/
theorem deleted_referent_read_as_null :
    let db : Database := .quiet (.single ⟨"k", [], [], [⟨"r", "k"⟩]⟩ rfl)
    let e (id : String) (fields : Fields) (h : fields.Ordered) : OrderedEntity :=
      ⟨⟨"k", some id, fields⟩, h⟩
    let t := (Tracked.fresh Faults.none .none []).replay [(db, .saveMany
      [e "2" [] ⟨.nil, trivial⟩,
        e "1" [("r", .ref "2")] ⟨List.pairwise_singleton _ _, trivial, trivial⟩])]
    let s : Engine := .holding t.engine.content
    ∃ found found' s₁, (db.findById "k" "1" s).1 = .ok (some found) ∧
      Assoc.lookup "r" found.fields = some (.entity "k" (some "2") []) ∧
      db.deleteById "k" "2" s = (.ok true, s₁) ∧
      (db.findById "k" "1" (.holding s₁.content)).1 = .ok (some found') ∧
      Assoc.lookup "r" found'.fields = some .null := by
  intro db e t s
  obtain ⟨fields, hone, hpoints⟩ : ∃ fields, t.entities.get? "k" "1" = some fields ∧
      (Assoc.lookup "r" fields).bind (·.pointsAt? [⟨"r", "k"⟩] "r") = some ("k", "2") :=
    Option.bind_eq_some_iff.mp (by decide +kernel)
  obtain ⟨target, htwo, hempty⟩ : ∃ target, t.entities.get? "k" "2" = some target ∧
      target.isEmpty = true := Option.map_eq_some_iff.mp (by decide +kernel)
  obtain rfl := List.isEmpty_iff.mp hempty
  have hfound : (db.findById "k" "1" s).1.toOption.isSome = true := by decide +kernel
  have hdeleted : (db.deleteById "k" "2" s).1.toOption = some true := by decide +kernel
  obtain ⟨history, ht⟩ : ∃ history, t = (Tracked.fresh Faults.none .none []).replay history :=
    ⟨_, rfl⟩
  clear_value t
  subst ht
  obtain ⟨o, ho⟩ := Option.isSome_iff_exists.mp hfound
  have hrun := congrArg Prod.fst (Task.run_of_toOption ho)
  obtain ⟨hlevel, hafter⟩ := (findById_oneLevel Faults.none .none [] history).2 db
    ⟨"k", [], [], [⟨"r", "k"⟩]⟩ "1" _ rfl hone
  obtain ⟨found, rfl, hread⟩ := hlevel s rfl o hrun
  obtain ⟨hreadable, hnull⟩ := hafter "k" "2" true s _ (by simp) rfl
    (Task.run_of_toOption hdeleted) found s (.holding (db.deleteById "k" "2" s).2.content) rfl hrun
    rfl
  obtain ⟨o', ho'⟩ := hreadable rfl
  obtain ⟨found', rfl, -, -, -, hfields⟩ := hnull o' ho'
  refine ⟨found, found', _, hrun, ?_, Task.run_of_toOption hdeleted, ho',
    (hfields "r").trans (if_pos hpoints)⟩
  obtain ⟨v, hv, hpoints⟩ := Option.bind_eq_some_iff.mp hpoints
  obtain ⟨rfl, -⟩ := Value.pointsAt?_eq_some.mp hpoints
  have hr := hread.fields "r"
  rw [hv] at hr
  generalize Assoc.lookup "r" found.fields = value at hr
  cases hr with
  | some hr =>
    cases hr with
    | undeclared _ hr => cases hr
    | plain _ hv => exact absurd rfl (hv "2")
    | found r id fields hr hd =>
      cases hr
      cases htwo.symm.trans hd
      rfl
    | missing r id hr hd =>
      cases hr
      cases htwo.symm.trans hd

example :
    let db : Database := .quiet (.single ⟨"k", [], [], [⟨"r", "k"⟩]⟩ rfl)
    let e : OrderedEntity :=
      ⟨⟨"k", some "1", [("r", .ref "1")]⟩, List.pairwise_singleton _ _, trivial, trivial⟩
    let t := (Tracked.fresh Faults.none .none []).replay [(db, .save e)]
    ((db.findById "k" "1" t.engine).1.toOption.bind id).map
      (Entity.same ⟨"k", some "1", [("r", .entity "k" (some "1") [("r", .ref "1")])]⟩) =
        some true := by decide +kernel

end IndexedStore
