import IndexedStore.Typed.Repository

/-! # A directory of people and cities

Cities are indexed by name and by position. People are indexed by their names and by
the position of their home town, which is kept inline; the city they live in is a
reference.
-/

namespace IndexedStore

namespace Directory

def models : List KeyspaceModel := [
  ⟨"persons", ["firstname", "lastname"], ["hometown.location"], [⟨"city", "cities"⟩]⟩,
  ⟨"cities", ["name"], ["location"], []⟩]

end Directory

structure City where
  id : Option String
  name : String
  location : GeoPoint

namespace City

def toEntity (c : City) : Entity :=
  let e := ((Entity.empty "cities").set "name" (.text c.name)).set "location" (.point c.location)
  { e with id := c.id }

/-- A city without a name has the empty one, but its location must be there. -/
def ofEntity (e : Entity) : Except Error City :=
  match e.point? "location" with
  | some p => .ok ⟨e.id, (e.text? "name").getD "", p⟩
  | none => .error (.conversion "cities" (.missing "location"))

instance : EntityType City := ⟨"cities", fun c id => { c with id := some id }, toEntity, ofEntity⟩

end City

structure Person where
  id : Option String
  firstname : String
  lastname : String
  hometown : Option City
  city : Option City

namespace Person

def setCity (e : Entity) (field : String) : Option City → Entity
  | some c => e.set field (Value.ofEntity c.toEntity)
  | none => e

def toEntity (p : Person) : Entity :=
  let e := Entity.empty "persons"
  let e := (e.set "firstname" (.text p.firstname)).set "lastname" (.text p.lastname)
  let e := setCity (setCity e "hometown" p.hometown) "city" p.city
  { e with id := p.id }

def cityAt (e : Entity) (field : String) : Except Error (Option City) :=
  match e.entity? field with
  | some c => (City.ofEntity c).map some
  | none => .ok none

def ofEntity (e : Entity) : Except Error Person := do
  let hometown ← cityAt e "hometown"
  let city ← cityAt e "city"
  return ⟨e.id, (e.text? "firstname").getD "", (e.text? "lastname").getD "", hometown, city⟩

instance : EntityType Person :=
  ⟨"persons", fun p id => { p with id := some id }, toEntity, ofEntity⟩

end Person

end IndexedStore
