import IndexedStore.Proofs.Entity.Normalize
import IndexedStore.Proofs.Schema.Names
import IndexedStore.Proofs.Store.Resolved
import IndexedStore.Typed.Directory

/-! # Cities and people as entities

A city is stored as it is. Of a person everything is stored as it is but the city, of which the
id is kept. Reading the stored fields back gives the value, once the city is resolved.
-/
namespace IndexedStore

theorem Value.fieldsDepth_insert (name : String) (v : Value) (fields : Fields) :
    fieldsDepth (Assoc.insert name v fields) ≤ max v.depth (fieldsDepth fields) := by
  induction fields with
  | nil => exact Nat.le_refl _
  | cons f fields ih =>
    obtain ⟨j, w⟩ := f
    unfold Assoc.insert
    split
    · exact Nat.le_refl _
    · split <;> simp only [fieldsDepth] <;> omega

namespace Entity

theorem Ordered.set {e : Entity} (h : e.Ordered) {v : Value} (hv : v.Ordered) (name : String) :
    (e.set name v).Ordered :=
  ⟨h.1.insert _ _, Value.allOrdered_insert _ hv h.2⟩

theorem ordered_empty (keyspace : String) : (empty keyspace).Ordered := ⟨List.Pairwise.nil, trivial⟩

end Entity

namespace City

theorem ordered_toEntity (c : City) : c.toEntity.Ordered :=
  ((Entity.ordered_empty "cities").set (v := .text c.name) trivial "name").set
    (v := .point c.location) trivial "location"

theorem get?_name (c : City) : c.toEntity.get? "name" = some (.text c.name) := by
  show (Entity.set _ "location" _).get? "name" = _
  rw [Entity.get?_set, if_neg (by decide), Entity.get?_set, if_pos rfl]

theorem get?_location (c : City) : c.toEntity.get? "location" = some (.point c.location) := by
  show (Entity.set _ "location" _).get? "location" = _
  rw [Entity.get?_set, if_pos rfl]

theorem ofEntity_fields (c : City) (keyspace : String) (id : Option String) :
    ofEntity ⟨keyspace, id, c.toEntity.fields⟩ = .ok { c with id := id } := by
  have hname : (Entity.mk keyspace id c.toEntity.fields).text? "name" = some c.name := by
    show (c.toEntity.get? "name").bind Value.asText? = _
    rw [get?_name]
    rfl
  have hlocation : (Entity.mk keyspace id c.toEntity.fields).point? "location" =
      some c.location := by
    show (c.toEntity.get? "location").bind Value.asPoint? = _
    rw [get?_location]
    rfl
  unfold ofEntity
  rw [hlocation, hname]
  rfl

theorem fieldsDepth_toEntity (c : City) : Value.fieldsDepth c.toEntity.fields ≤ 2 := by
  have hname := Value.fieldsDepth_insert "name" (.text c.name) []
  have hlocation := Value.fieldsDepth_insert "location" (.point c.location)
    (Assoc.insert "name" (.text c.name) [])
  simp only [Value.depth, Value.fieldsDepth] at hname hlocation
  show Value.fieldsDepth (Assoc.insert "location" _ (Assoc.insert "name" _ [])) ≤ 2
  omega

theorem readable_toEntity (c : City) : c.toEntity.fields.Readable := by
  have hdepth := c.fieldsDepth_toEntity
  unfold Fields.Readable Value.depth Cbor.maxNesting
  omega

end City

namespace Directory

def persons : KeyspaceModel :=
  ⟨"persons", ["firstname", "lastname"], ["hometown.location"], [⟨"city", "cities"⟩]⟩

def cities : KeyspaceModel := ⟨"cities", ["name"], ["location"], []⟩

def schema : Schema where
  keyspaces := (Dict.empty.insert "persons" persons).insert "cities" cities
  named := Schema.collect_named (d := Dict.empty) (fun _ _ h => by cases h)
    (show Schema.collect models Dict.empty = _ from rfl)
  sound := by decide +kernel

theorem ofModels_models : Schema.ofModels models = .ok schema := by rfl

theorem models_found {s : Schema} (h : Schema.ofModels models = .ok s) :
    s.model "persons" = .ok persons ∧ s.model "cities" = .ok cities := by
  obtain rfl : schema = s := Except.ok.inj (ofModels_models.symm.trans h)
  exact ⟨rfl, rfl⟩

theorem resolvable_persons {d : Entities} {cities : String → Option City}
    (hd : ∀ i, d.get? "cities" i = (cities i).map fun c => c.toEntity.fields) (fields : Fields) :
    d.Resolvable persons.references fields := by
  intro name v k i hv hp target ht
  obtain ⟨rfl, r, hr, rfl⟩ := Value.pointsAt?_eq_some.mp hp
  obtain rfl : r = ⟨"city", "cities"⟩ := List.mem_singleton.mp (List.mem_of_find?_eq_some hr)
  rw [hd] at ht
  obtain ⟨c, -, rfl⟩ := Option.map_eq_some_iff.mp ht
  exact c.readable_toEntity

end Directory

namespace Person

theorem get?_setCity (e : Entity) (field : String) (o : Option City) (name : String) :
    (setCity e field o).get? name =
      if field = name then (o.map fun c => Value.ofEntity c.toEntity).or (e.get? name)
      else e.get? name := by
  cases o with
  | none => exact (ite_self _).symm
  | some c => exact Entity.get?_set e field _ name

theorem ordered_setCity {e : Entity} (h : e.Ordered) (field : String) (o : Option City) :
    (setCity e field o).Ordered := by
  cases o with
  | none => exact h
  | some c => exact h.set (v := Value.ofEntity c.toEntity) c.ordered_toEntity field

theorem keyspace_setCity (e : Entity) (field : String) (o : Option City) :
    (setCity e field o).keyspace = e.keyspace := by
  cases o <;> rfl

/-- The names of a person, before the cities are set. -/
def names (p : Person) : Entity :=
  ((Entity.empty "persons").set "firstname" (.text p.firstname)).set "lastname" (.text p.lastname)

theorem get?_names (p : Person) (name : String) : p.names.get? name =
    if "lastname" = name then some (.text p.lastname)
    else if "firstname" = name then some (.text p.firstname) else none := by
  rw [names, Entity.get?_set, Entity.get?_set]
  rfl

theorem get?_toEntity (p : Person) (name : String) : p.toEntity.get? name =
    if "city" = name then p.city.map fun c => Value.ofEntity c.toEntity
    else if "hometown" = name then p.hometown.map fun c => Value.ofEntity c.toEntity
    else p.names.get? name := by
  show (setCity (setCity p.names "hometown" p.hometown) "city" p.city).get? name = _
  rw [get?_setCity, get?_setCity]
  split
  · rename_i hname
    subst hname
    rw [if_neg (by decide), get?_names, if_neg (by decide), if_neg (by decide), Option.or_none]
  · split
    · rename_i hname
      subst hname
      rw [get?_names, if_neg (by decide), if_neg (by decide), Option.or_none]
    · rfl

theorem keyspace_toEntity (p : Person) : p.toEntity.keyspace = "persons" :=
  (keyspace_setCity _ _ _).trans (keyspace_setCity _ _ _)

theorem ordered_toEntity (p : Person) : p.toEntity.Ordered :=
  ordered_setCity (ordered_setCity (((Entity.ordered_empty "persons").set
    (v := .text p.firstname) trivial "firstname").set (v := .text p.lastname) trivial "lastname")
      _ _) _ _

theorem depth_city (c : City) : (Value.ofEntity c.toEntity).depth ≤ 5 := by
  have hdepth := c.fieldsDepth_toEntity
  show Value.fieldsDepth c.toEntity.fields + 3 ≤ 5
  omega

theorem fieldsDepth_setCity (e : Entity) (field : String) (o : Option City) :
    Value.fieldsDepth (setCity e field o).fields ≤ max 5 (Value.fieldsDepth e.fields) := by
  cases o with
  | none => exact Nat.le_max_right _ _
  | some c =>
    have hinsert := Value.fieldsDepth_insert field (Value.ofEntity c.toEntity) e.fields
    have hcity := depth_city c
    show Value.fieldsDepth (Assoc.insert field _ e.fields) ≤ _
    omega

theorem fieldsDepth_toEntity (p : Person) : Value.fieldsDepth p.toEntity.fields ≤ 5 := by
  have hfirst := Value.fieldsDepth_insert "firstname" (.text p.firstname) []
  have hlast := Value.fieldsDepth_insert "lastname" (.text p.lastname)
    (Assoc.insert "firstname" (.text p.firstname) [])
  have hhometown := fieldsDepth_setCity p.names "hometown" p.hometown
  have hcity := fieldsDepth_setCity (setCity p.names "hometown" p.hometown) "city" p.city
  simp only [Value.depth, Value.fieldsDepth] at hfirst hlast
  have hnames : Value.fieldsDepth p.names.fields ≤ 1 := hlast.trans (by omega)
  exact hcity.trans (by omega)

/-- The fields stand for the person: the city is given by its id, all else as it is. -/
structure StoredAs (p : Person) (fields : Fields) : Prop where
  firstname : Assoc.lookup "firstname" fields = some (.text p.firstname)
  lastname : Assoc.lookup "lastname" fields = some (.text p.lastname)
  hometown : Assoc.lookup "hometown" fields = p.hometown.map fun c => Value.ofEntity c.toEntity
  city : Assoc.lookup "city" fields = p.city.bind fun c => c.id.map Value.ref
  readable : fields.Readable

theorem id_of_referenceId {c : City} {r : ReferenceModel} {id : String}
    (h : KeyspaceModel.referenceId r (Value.ofEntity c.toEntity) = .ok id) : c.id = some id := by
  have hid : c.toEntity.id = c.id := rfl
  unfold KeyspaceModel.referenceId Value.ofEntity at h
  rw [hid] at h
  dsimp only at h
  split at h
  · cases h
  · split at h
    · cases h
    · rename_i i hi
      split at h
      · cases h
      · rw [hi, Except.ok.inj h]

theorem storedAs_of_normalize {p : Person} {n : Entity}
    (h : Directory.persons.normalize p.toEntity = .ok n) : p.StoredAs n.fields := by
  have hfield : Directory.persons.normalizeField p.toEntity.fields ⟨"city", "cities"⟩ =
      .ok n.fields := by
    have hfold := (KeyspaceModel.foldlM_of_normalize h).2.2
    rw [show Directory.persons.references = [⟨"city", "cities"⟩] from rfl,
      List.foldlM_cons] at hfold
    simpa only [List.foldlM_nil, bind_pure] using hfold
  have hlookup : ∀ name, Assoc.lookup name p.toEntity.fields = p.toEntity.get? name := fun _ => rfl
  have hset := p.fieldsDepth_toEntity
  obtain ⟨hkept, hcity, hdepth⟩ : (∀ name, "city" ≠ name →
        Assoc.lookup name n.fields = p.toEntity.get? name) ∧
      (Assoc.lookup "city" n.fields = p.city.bind fun c => c.id.map Value.ref) ∧
      Value.fieldsDepth n.fields ≤ 5 := by
    obtain ⟨hplain, hn⟩ | ⟨v, id, hv, hid, hn⟩ := KeyspaceModel.normalizeField_eq_ok hfield <;>
      rw [hn]
    · refine ⟨fun _ _ => rfl, ?_, hset⟩
      have hv := hplain
      unfold Fields.PlainAt at hv
      rw [hlookup, get?_toEntity, if_pos rfl] at hv ⊢
      cases hc : p.city with
      | none => rfl
      | some c =>
        rw [hc] at hv
        obtain hnull | ⟨i, hi⟩ := hv _ rfl
        · cases hnull
        · cases hi
    · rw [hlookup, get?_toEntity, if_pos rfl] at hv
      obtain ⟨c, hc, rfl⟩ := Option.map_eq_some_iff.mp hv
      refine ⟨fun name hname => ?_, ?_, ?_⟩
      · rw [Assoc.lookup_insert, if_neg hname]
        rfl
      · rw [Assoc.lookup_insert, if_pos rfl, hc, Option.bind_some, id_of_referenceId hid]
        rfl
      · have hinsert := Value.fieldsDepth_insert "city" (.ref id) p.toEntity.fields
        simp only [Value.depth] at hinsert
        show Value.fieldsDepth (Assoc.insert "city" _ _) ≤ 5
        omega
  refine ⟨?_, ?_, ?_, hcity, ?_⟩
  · rw [hkept _ (by decide), get?_toEntity, if_neg (by decide), if_neg (by decide), get?_names,
      if_neg (by decide), if_pos rfl]
  · rw [hkept _ (by decide), get?_toEntity, if_neg (by decide), if_neg (by decide), get?_names,
      if_pos rfl]
  · rw [hkept _ (by decide), get?_toEntity, if_neg (by decide), if_pos rfl]
  · unfold Fields.Readable Value.depth Cbor.maxNesting
    omega

/-- The person that is read has the city that is live under the id now. -/
theorem StoredAs.ofEntity_resolved {p : Person} {fields : Fields} (h : p.StoredAs fields)
    {d : Entities} {cities : String → Option City}
    (hd : ∀ i, d.get? "cities" i = (cities i).map fun c => c.toEntity.fields)
    (hid : ∀ i c, cities i = some c → c.id = some i) (id : String) :
    ofEntity (d.resolved Directory.persons.references ⟨"persons", some id, fields⟩) =
      .ok { p with id := some id, city := p.city.bind fun c => c.id.bind cities } := by
  let e := d.resolved Directory.persons.references ⟨"persons", some id, fields⟩
  have hget : ∀ name, e.get? name =
      (Assoc.lookup name fields).map (d.resolveValue Directory.persons.references name) :=
    fun name => Entities.lookup_map_resolve d _ fields name
  have hfirst : e.text? "firstname" = some p.firstname := by
    rw [Entity.text?, hget, h.firstname]
    rfl
  have hlast : e.text? "lastname" = some p.lastname := by
    rw [Entity.text?, hget, h.lastname]
    rfl
  have hhometown : cityAt e "hometown" = .ok p.hometown := by
    rw [cityAt, Entity.entity?, hget, h.hometown]
    cases p.hometown with
    | none => rfl
    | some c =>
      show (City.ofEntity ⟨"cities", c.id, c.toEntity.fields⟩).map some = _
      rw [c.ofEntity_fields]
      rfl
  have hcity : cityAt e "city" = .ok (p.city.bind fun c => c.id.bind cities) := by
    rw [cityAt, Entity.entity?, hget, h.city]
    cases p.city with
    | none => rfl
    | some c =>
      rw [Option.bind_some, Option.bind_some]
      cases c.id with
      | none => rfl
      | some i =>
        have hvalue : d.resolveValue Directory.persons.references "city" (.ref i) =
            ((d.get? "cities" i).map fun fields => .entity "cities" (some i) fields).getD .null :=
          rfl
        rw [Option.map_some, Option.map_some, hvalue, hd, Option.bind_some]
        show _ = Except.ok (cities i)
        cases hi : cities i with
        | none => rfl
        | some c' =>
          show (City.ofEntity ⟨"cities", some i, c'.toEntity.fields⟩).map some = _
          rw [c'.ofEntity_fields, ← hid i c' hi]
          rfl
  show ofEntity e = _
  unfold ofEntity
  rw [hhometown, hcity, hfirst, hlast]
  rfl

end Person

end IndexedStore
