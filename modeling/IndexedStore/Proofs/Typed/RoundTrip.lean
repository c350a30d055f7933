import IndexedStore.Proofs.Operation.Atomic
import IndexedStore.Proofs.Typed.Directory
import IndexedStore.Proofs.Typed.Repository

/-! # People and cities are read as they were saved

A registry tracks the people and the cities that were saved through their repositories. Main
statement: whatever happened before, a saved value is read as it was saved, but that a person is
read with the city that is live under the id now.
-/
namespace IndexedStore

open Repository (Edit)

instance : LawfulEntityType City := ⟨fun _ => rfl, fun _ _ => rfl, City.ordered_toEntity⟩

instance : LawfulEntityType Person :=
  ⟨Person.keyspace_toEntity, fun _ _ => rfl, Person.ordered_toEntity⟩

theorem Consistent.findById_of_not_live {s : Engine} {d : Entities} (h : Consistent s.content d)
    (hb : s.content.Bounded) (hs : s.faults = Faults.none) {db : Database} {m : KeyspaceModel}
    {id : String} (hm : db.schema.model m.name = .ok m) (hd : d.get? m.name id = none) :
    (db.findById m.name id s).1 = .ok none := by
  rw [Database.findById_fst hs hm, h.on_load hb (Schema.isName_of_model hm), Entities.load, hd]
  rfl

/-- The person with the city that is live now. -/
def Person.current (cities : Dict City) (p : Person) : Person :=
  { p with city := p.city.bind fun c => c.id.bind cities.get? }

theorem Schema.Stores.city {s : Schema} {id : String} {fields : Fields} {c : City}
    (h : s.Stores id fields c) (hm : s.model "cities" = .ok Directory.cities) :
    c.id = some id ∧ c.toEntity.fields = fields := by
  obtain ⟨hid, n, hn, rfl⟩ := h
  have hn : s.normalized c.toEntity = .ok n := hn
  rw [Schema.normalized_of_model hm] at hn
  rw [← Except.ok.inj hn]
  exact ⟨hid, rfl⟩

theorem Schema.Stores.person {s : Schema} {id : String} {fields : Fields} {p : Person}
    (h : s.Stores id fields p) (hm : s.model "persons" = .ok Directory.persons) :
    p.id = some id ∧ p.StoredAs fields := by
  obtain ⟨hid, n, hn, rfl⟩ := h
  have hn : s.normalized p.toEntity = .ok n := hn
  have hmodel : s.model p.toEntity.keyspace = .ok Directory.persons := by
    rw [p.keyspace_toEntity, hm]
  rw [Schema.normalized_of_model hmodel] at hn
  exact ⟨hid, Person.storedAs_of_normalize hn⟩

theorem Entities.Holds.get?_cities {d : Entities} {s : Schema} {cities : Dict City}
    (h : d.Holds s cities) (hm : s.model "cities" = .ok Directory.cities) (id : String) :
    d.get? "cities" id = (cities.get? id).map (fun c => c.toEntity.fields) ∧
      ∀ c, cities.get? id = some c → c.id = some id := by
  have hrel : Option.Rel (s.Stores id) (d.get? "cities" id) (cities.get? id) := h id
  generalize d.get? "cities" id = stored at hrel ⊢
  generalize cities.get? id = held at hrel ⊢
  cases hrel with
  | none => exact ⟨rfl, fun c hc => by cases hc⟩
  | some hstores =>
    obtain ⟨hid, rfl⟩ := hstores.city hm
    refine ⟨rfl, fun c hc => ?_⟩
    rw [← Option.some.inj hc]
    exact hid

namespace Shelf.Stands

variable {s : Engine} {d : Entities} {db : Database}

theorem findById_city {cities : Dict City} (h : (Shelf.mk s cities).Stands db.schema d)
    (hs : s.faults = Faults.none) (hm : db.schema.model "cities" = .ok Directory.cities)
    (id : String) : (Repository.findById City db id s).1 = .ok (cities.get? id) := by
  obtain ⟨hget, hid⟩ := h.values.get?_cities hm id
  rw [Repository.findById_fst]
  cases hc : cities.get? id with
  | none =>
    rw [hc] at hget
    have hfind : (db.findById "cities" id s).1 = .ok none :=
      h.consistent.findById_of_not_live h.bounded hs (m := Directory.cities) hm hget
    show (db.findById "cities" id s).1.bind _ = _
    rw [hfind]
    rfl
  | some c =>
    rw [hc] at hget
    have hfind : (db.findById "cities" id s).1 = _ :=
      (h.consistent.findById_eq_ok h.bounded hs (m := Directory.cities) hm hget).mpr
        ⟨rfl, c.readable_toEntity, fun name v k i _ hp => by cases v <;> cases hp⟩
    show (db.findById "cities" id s).1.bind _ = _
    rw [hfind, show Directory.cities.references = [] from rfl, Entities.resolved_nil]
    show some <$> City.ofEntity ⟨"cities", some id, c.toEntity.fields⟩ = _
    rw [c.ofEntity_fields, ← hid c hc]
    rfl

/-- A person is read as it is held, with the city that is live now. -/
theorem findById_person {persons : Dict Person} {cities : Dict City}
    (h : (Shelf.mk s persons).Stands db.schema d) (hd : d.Holds db.schema cities)
    (hs : s.faults = Faults.none) (hp : db.schema.model "persons" = .ok Directory.persons)
    (hm : db.schema.model "cities" = .ok Directory.cities) (id : String) :
    (Repository.findById Person db id s).1 =
      .ok ((persons.get? id).map (Person.current cities)) := by
  have hrel : Option.Rel (db.schema.Stores id) (d.get? "persons" id) (persons.get? id) :=
    h.values id
  rw [Repository.findById_fst]
  show (db.findById "persons" id s).1.bind _ = _
  cases hget : d.get? "persons" id with
  | none =>
    have hfind : (db.findById "persons" id s).1 = .ok none :=
      h.consistent.findById_of_not_live h.bounded hs (m := Directory.persons) hp hget
    rw [hget] at hrel
    generalize persons.get? id = held at hrel ⊢
    cases hrel
    rw [hfind]
    rfl
  | some fields =>
    rw [hget] at hrel
    generalize persons.get? id = held at hrel ⊢
    cases hrel with
    | @some _ p hstores =>
      obtain ⟨hid, hstored⟩ := hstores.person hp
      have hcities := fun i => hd.get?_cities hm i
      have hfind : (db.findById "persons" id s).1 = _ :=
        (h.consistent.findById_eq_ok h.bounded hs (m := Directory.persons) hp hget).mpr
          ⟨rfl, hstored.readable, Directory.resolvable_persons (fun i => (hcities i).1) _⟩
      have hvalue := hstored.ofEntity_resolved (fun i => (hcities i).1)
        (fun i c hc => (hcities i).2 c hc) id
      rw [hfind]
      show some <$> Person.ofEntity (d.resolved Directory.persons.references
        ⟨"persons", some id, fields⟩) = _
      rw [hvalue, ← hid]
      rfl

end Shelf.Stands

/-- An engine with the people and the cities that it should hold. -/
structure Registry where
  engine : Engine
  persons : Dict Person
  cities : Dict City

namespace Registry

def fresh (faults : Faults) (supply : IdSupply) (journal : Journal) : Registry :=
  ⟨⟨Dict.empty, faults, supply, journal⟩, Dict.empty, Dict.empty⟩

/-- An edit through the repository of the people or through that of the cities. -/
def apply (db : Database) (r : Registry) : Edit Person ⊕ Edit City → Registry
  | .inl edit =>
    let x := Shelf.apply db ⟨r.engine, r.persons⟩ edit
    ⟨x.engine, x.values, r.cities⟩
  | .inr edit =>
    let x := Shelf.apply db ⟨r.engine, r.cities⟩ edit
    ⟨x.engine, r.persons, x.values⟩

def replay (db : Database) (r : Registry) (history : List (Edit Person ⊕ Edit City)) :
    Registry :=
  history.foldl (apply db) r

/-- The content stands for entities that are the people and the cities. -/
structure Stands (r : Registry) (s : Schema) (d : Entities) : Prop where
  persons : (Shelf.mk r.engine r.persons).Stands s d
  cities : d.Holds s r.cities

variable {db : Database} {r : Registry} {d : Entities}

theorem engine_replay (db : Database) (r : Registry)
    (history : List (Edit Person ⊕ Edit City)) : (r.replay db history).engine =
      history.foldl (fun s => Sum.elim (Edit.run db s) (Edit.run db s)) r.engine := by
  induction history generalizing r with
  | nil => rfl
  | cons edit history ih =>
    refine (ih (r.apply db edit)).trans ?_
    cases edit with
    | inl edit => exact congrArg (history.foldl _) (Shelf.engine_apply db _ edit)
    | inr edit => exact congrArg (history.foldl _) (Shelf.engine_apply db _ edit)

theorem stands_fresh (s : Schema) (faults : Faults) (supply : IdSupply) (journal : Journal) :
    (fresh faults supply journal).Stands s Entities.empty where
  persons := ⟨consistent_empty, fun k b hb => (by cases hb), fun _ => .none⟩
  cities _ := .none

theorem Stands.apply (h : r.Stands db.schema d) (edit : Edit Person ⊕ Edit City) :
    ∃ d', (r.apply db edit).Stands db.schema d' := by
  obtain ⟨hpersons, hcities⟩ := h
  cases edit with
  | inl edit =>
    obtain ⟨d', h', hsame⟩ := hpersons.apply edit
    exact ⟨d', h', hsame.holds hcities (by decide)⟩
  | inr edit =>
    have hcities : (Shelf.mk r.engine r.cities).Stands db.schema d :=
      ⟨hpersons.consistent, hpersons.bounded, hcities⟩
    obtain ⟨d', h', hsame⟩ := hcities.apply edit
    exact ⟨d', ⟨h'.consistent, h'.bounded, hsame.holds hpersons.values (by decide)⟩, h'.values⟩

/-- Whichever calls failed in a history, what it leaves stands for the values. -/
theorem Stands.replay (h : r.Stands db.schema d) (history : List (Edit Person ⊕ Edit City)) :
    ∃ d', (r.replay db history).Stands db.schema d' := by
  induction history generalizing r d with
  | nil => exact ⟨d, h⟩
  | cons edit history ih =>
    obtain ⟨d₁, h₁⟩ := h.apply edit
    exact ih h₁

end Registry

theorem Repository.save_withId {α : Type} [EntityType α] {db : Database} {a a' : α}
    {s s' : Engine} (hs : s.faults = Faults.none) (h : Repository.save db a s = (.ok a', s')) :
    s'.faults = Faults.none ∧ ∃ id, a' = EntityType.withId a id ∧
      ∀ i, (EntityType.toEntity a).id = some i → i = id := by
  obtain ⟨id, hrun, rfl⟩ := Repository.save_eq_ok h
  obtain ⟨m, n, owned, -, hsaved⟩ := Database.save_eq_ok hrun
  have hfaults := (db.allOrNothing_save (EntityType.toEntity a)).calls.faults s
  rw [hrun] at hfaults
  exact ⟨hfaults.trans hs, id, rfl, hsaved.id_eq⟩

/-- After every history of edits through the two repositories of the directory, whichever calls
failed in it, a healthy backing store gives a saved value back. A person that is saved gets its
id filled in, and is then found under the id as it was saved but for the city, which is the one
that is live under the id of the given city, or none when there is no such id or no city is live
under it. A city that is saved gets its id filled in and is then found as it was saved. The
cities that are live are the ones that are found. -/
theorem repository_roundTrips (db : Database)
    (hdb : Schema.ofModels Directory.models = .ok db.schema) (faults : Faults) (supply : IdSupply)
    (journal : Journal) (history : List (Edit Person ⊕ Edit City)) (s : Engine) :
    let r := (Registry.fresh faults supply journal).replay db history
    s.content = r.engine.content → s.faults = Faults.none →
    (∀ (p q : Person) (s' : Engine), Repository.save db p s = (.ok q, s') →
      ∃ id, q = { p with id := some id } ∧ (∀ i, p.id = some i → i = id) ∧
        (Repository.findById Person db id s').1 =
          .ok (some { q with city := p.city.bind fun c => c.id.bind r.cities.get? })) ∧
    (∀ (c q : City) (s' : Engine), Repository.save db c s = (.ok q, s') →
      ∃ id, q = { c with id := some id } ∧ (∀ i, c.id = some i → i = id) ∧
        (Repository.findById City db id s').1 = .ok (some q)) ∧
    ∀ id, (Repository.findById City db id s).1 = .ok (r.cities.get? id) := by
  intro r hcontent hs
  obtain ⟨hp, hm⟩ := Directory.models_found hdb
  obtain ⟨d, hpersons, hcities⟩ :=
    (Registry.stands_fresh db.schema faults supply journal).replay history
  have hpersons : (Shelf.mk s r.persons).Stands db.schema d := hpersons.moved hcontent
  have hcities' : (Shelf.mk s r.cities).Stands db.schema d :=
    ⟨hpersons.consistent, hpersons.bounded, hcities⟩
  refine ⟨fun p q s' hrun => ?_, fun c q s' hrun => ?_, fun id => hcities'.findById_city hs hm id⟩
  · obtain ⟨hs', id, rfl, hid⟩ := Repository.save_withId hs hrun
    obtain ⟨d', h', hsame⟩ := hpersons.save p
    unfold Shelf.save Shelf.run at h'
    rw [hrun] at h'
    refine ⟨id, rfl, hid, ?_⟩
    rw [h'.findById_person (hsame.holds hcities (by decide)) hs' hp hm, Dict.get?_insert,
      if_pos (by rfl)]
    rfl
  · obtain ⟨hs', id, rfl, hid⟩ := Repository.save_withId hs hrun
    obtain ⟨d', h', -⟩ := hcities'.save c
    unfold Shelf.save Shelf.run at h'
    rw [hrun] at h'
    refine ⟨id, rfl, hid, ?_⟩
    rw [h'.findById_city hs' hm, Dict.get?_insert, if_pos (by rfl)]

/-- A person that was saved with an old value of a city is found with the new one. -/
theorem stale_city_replaced :
    let db : Database := .quiet Directory.schema
    let palermo : City := ⟨some "p", "palermo", ⟨13.361389, 38.115556⟩⟩
    let arya : Person := ⟨some "1", "arya", "stark", some ⟨none, "catania", ⟨15.087269, 37.502669⟩⟩,
      some ⟨some "p", "elsewhere", ⟨0, 0⟩⟩⟩
    let r := (Registry.fresh Faults.none .none []).replay db [.inr (.save palermo)]
    ∃ s', Repository.save db arya (.holding r.engine.content) = (.ok arya, s') ∧
      (Repository.findById Person db "1" s').1 = .ok (some { arya with city := some palermo }) := by
  intro db palermo arya r
  obtain ⟨hperson, -, -⟩ := repository_roundTrips db Directory.ofModels_models
    Faults.none .none [] [.inr (.save palermo)] (.holding r.engine.content) rfl rfl
  have hsaved : (Repository.save db arya (.holding r.engine.content)).1.toOption.isSome = true := by
    decide +kernel
  have hcity : (r.cities.get? "p").map (fun c => (c.id, c.name, c.location)) =
      some (palermo.id, palermo.name, palermo.location) := by decide +kernel
  have hlive : r.cities.get? "p" = some palermo := by
    obtain ⟨⟨id, name, location⟩, hget, hc⟩ := Option.map_eq_some_iff.mp hcity
    obtain ⟨rfl, rfl, rfl⟩ :
        id = palermo.id ∧ name = palermo.name ∧ location = palermo.location := by simpa using hc
    exact hget
  rcases hrun : Repository.save db arya (.holding r.engine.content) with ⟨x | q, s'⟩ <;>
    rw [hrun] at hsaved
  · cases hsaved
  · obtain ⟨id, rfl, hid, hfind⟩ := hperson arya q s' hrun
    obtain rfl := hid "1" rfl
    refine ⟨s', rfl, hfind.trans ?_⟩
    show Except.ok (some { arya with city := r.cities.get? "p" }) = _
    rw [hlive]

end IndexedStore
