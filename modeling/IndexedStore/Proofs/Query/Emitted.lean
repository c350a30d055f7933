import IndexedStore.Proofs.Operation.Progress
import IndexedStore.Proofs.Query.Traced

/-! # The events of a read

A read looks ids up, loads records and resolves their references. Lookups have events of their
own, loading has none, and resolving an entity has one for each field that is stored as a
reference and comes back as null.
-/
namespace IndexedStore

open IndexedStore.Task (Reading Does Logs)

namespace Event

def isBound : Event → Bool
  | started _ _ | finished _ _ _ => true
  | _ => false

def isMiss : Event → Bool
  | missed _ _ => true
  | _ => false

end Event

def Activity.misses (acts : List Activity) : List Event :=
  (acts.filterMap Activity.event?).filter Event.isMiss

namespace Activity

theorem misses_append (acts acts' : List Activity) :
    misses (acts ++ acts') = misses acts ++ misses acts' := by
  rw [misses, List.filterMap_append, List.filter_append, misses, misses]

theorem misses_flatten (parts : List (List Activity)) :
    misses parts.flatten = (parts.map misses).flatten := by
  induction parts with
  | nil => rfl
  | cons acts parts ih =>
    rw [List.flatten_cons, misses_append, ih, List.map_cons, List.flatten_cons]

theorem misses_eq_nil {acts : List Activity}
    (h : ∀ a ∈ acts, a.Tells fun e => e.isMiss = false) : misses acts = [] := by
  refine List.filter_eq_nil_iff.mpr fun e he => ?_
  obtain ⟨a, ha, hae⟩ := List.mem_filterMap.mp he
  have htells := h a ha
  cases a <;> cases hae
  exact ne_true_of_eq_false htells

end Activity

/-- Neither a start or finish nor a miss. -/
def Event.Plain (e : Event) : Prop := e.isBound = false ∧ e.isMiss = false

/-! ## Lookups -/

namespace Task

theorem logs_reportLookup (kind : LookupKind) (keyspace : String) (ids : TextSet) :
    Logs (Activity.Tells Event.Plain) (reportLookup kind keyspace ids) :=
  (Logs.emit (p := Activity.Tells Event.Plain) ⟨rfl, rfl⟩).bind fun _ => Logs.pure _

theorem logs_lookupEq (keyspace path : String) (value : Value) :
    Logs (Activity.Tells Event.Plain) (lookupEq keyspace path value) := by
  unfold lookupEq
  cases value.token? with
  | some token =>
    exact ((logs_scanIds _).mono fun _ => Activity.Reads.tells).bind fun _ =>
      logs_reportLookup _ _ _
  | none => exact logs_reportLookup _ _ _

theorem logs_lookupMembers (keyspace : String) :
    Logs (Activity.Tells Event.Plain) (lookupMembers keyspace) :=
  ((logs_scanIds _).mono fun _ => Activity.Reads.tells).bind fun _ => logs_reportLookup _ _ _

theorem logs_within {p : Activity → Prop} (start : String) (center : GeoPoint) (radius : Float)
    (found : List (String × Bytes)) : Logs p (within start center radius found) := by
  induction found with
  | nil => exact Logs.pure _
  | cons entry found ih =>
    obtain ⟨key, b⟩ := entry
    rw [within]
    cases Key.trailingId? start key with
    | none => exact ih
    | some id => exact (logs_decodeAt key b).bind fun _ => ih.bind fun _ => Logs.pure _

theorem logs_lookupNear (keyspace path : String) (center : GeoPoint) (distance : Distance) :
    Logs (Activity.Tells Event.Plain) (lookupNear keyspace path center distance) :=
  (Logs.perform trivial).bind fun _ => (logs_within _ _ _ _).bind fun _ => logs_reportLookup _ _ _

end Task

namespace Predicate

mutual

theorem logs_evaluate (keyspace : String) :
    (f : Predicate) → Logs (Activity.Tells Event.Plain) (f.evaluate keyspace)
  | eq field value => Task.logs_lookupEq keyspace field value
  | near field center distance => Task.logs_lookupNear keyspace field center distance
  | all [] => Task.logs_lookupMembers keyspace
  | all (f :: rest) => by
    rw [evaluate]
    exact (logs_evaluate keyspace f).bind fun ids => logs_narrow keyspace ids rest
  | any children => by
    rw [evaluate]
    exact logs_widen keyspace Dict.empty children

theorem logs_narrow (keyspace : String) (ids : TextSet) :
    (children : List Predicate) →
      Logs (Activity.Tells Event.Plain) (narrow keyspace ids children)
  | [] => Logs.pure ids
  | f :: rest => by
    rw [narrow]
    split
    · exact Logs.pure ids
    · exact (logs_evaluate keyspace f).bind fun next => logs_narrow keyspace (ids.inter next) rest

theorem logs_widen (keyspace : String) (ids : TextSet) :
    (children : List Predicate) →
      Logs (Activity.Tells Event.Plain) (widen keyspace ids children)
  | [] => Logs.pure ids
  | f :: rest => by
    rw [widen]
    exact (logs_evaluate keyspace f).bind fun next => logs_widen keyspace (ids.union next) rest

end

end Predicate

theorem Database.logs_pageIds (db : Database) (p : Plan) :
    Logs (Activity.Tells Event.Plain) (db.pageIds p) := by
  have hmatched : Logs (Activity.Tells Event.Plain) (Database.matched p) := by
    unfold Database.matched
    cases p.predicate with
    | some f => exact f.logs_evaluate p.model.name
    | none => exact Task.logs_lookupMembers p.model.name
  rw [Database.pageIds_eq]
  exact hmatched.bind fun _ => (Logs.note trivial).bind fun _ => Logs.pure _

/-! ## Misses -/

namespace Entity

/-- The event for a field that is stored as a reference and returned as null. -/
def miss? (keyspace : String) (stored returned : Entity) (name : String) : Option Event :=
  match stored.get? name, returned.get? name with
  | some (.ref _), some .null => some (.missed keyspace name)
  | _, _ => none

/-- The misses of the declared fields, one for each field. -/
def misses (keyspace : String) (references : List ReferenceModel) (stored returned : Entity) :
    List Event :=
  (references.map ReferenceModel.field).eraseDups.filterMap (stored.miss? keyspace returned)

variable {keyspace : String} {stored step returned : Entity} {r : ReferenceModel}
  {references : List ReferenceModel} {name : String}

theorem miss?_of_ne (h : ∀ id, stored.get? name ≠ some (.ref id)) :
    stored.miss? keyspace returned name = none := by
  rw [miss?]
  split
  · rename_i id hid _
    exact absurd hid (h id)
  · rfl

/-- A field comes back as the step that followed it left it, and no later one changes it. -/
theorem misses_cons (hsame : ∀ name, name ≠ r.field → step.get? name = stored.get? name)
    (hdone : ∀ id, step.get? r.field ≠ some (.ref id))
    (hkept : returned.get? r.field = step.get? r.field) :
    stored.misses keyspace (r :: references) returned =
      (stored.miss? keyspace step r.field).toList ++ step.misses keyspace references returned := by
  let others (name : String) : Bool := !name == r.field
  -- a field that is declared again is no reference any more
  have hown : ∀ name, others name = false → step.miss? keyspace returned name = none := by
    intro name hname
    obtain rfl : name = r.field := by simpa [others] using hname
    exact miss?_of_ne hdone
  have hrest : ((references.map ReferenceModel.field).filter others).eraseDups.filterMap
      (stored.miss? keyspace returned) = step.misses keyspace references returned := by
    rw [misses, ← filterMap_eraseDups_filter _ hown]
    refine List.filterMap_congr fun name hname => ?_
    have hne : name ≠ r.field := by
      simpa [others] using (List.mem_filter.mp (List.mem_eraseDups.mp hname)).2
    rw [miss?, miss?, hsame name hne]
  have hfirst : stored.miss? keyspace returned r.field = stored.miss? keyspace step r.field := by
    rw [miss?, miss?, hkept]
  rw [misses, List.map_cons, List.eraseDups_cons, List.filterMap_cons, hrest, hfirst]
  cases stored.miss? keyspace step r.field <;> rfl

end Entity

namespace Task

variable {c : Content}

/-- What resolving the declared fields of `e` gives: the same record, in which only references
have changed, and the misses that were told. -/
structure Resolves (keyspace : String) (references : List ReferenceModel) (e e' : Entity)
    (acts : List Activity) : Prop where
  keyspace_eq : e'.keyspace = e.keyspace
  id_eq : e'.id = e.id
  kept : ∀ name, (∀ id, e.get? name ≠ some (.ref id)) → e'.get? name = e.get? name
  misses : Activity.misses acts = e.misses keyspace references e'

/-- What resolving one declaration does to its field, with the misses told. -/
structure ResolvesField (keyspace : String) (r : ReferenceModel) (e e' : Entity)
    (acts : List Activity) : Prop where
  keyspace_eq : e'.keyspace = e.keyspace
  id_eq : e'.id = e.id
  others : ∀ name, name ≠ r.field → e'.get? name = e.get? name
  done : ∀ id, e'.get? r.field ≠ some (.ref id)
  idle : (∀ id, e.get? r.field ≠ some (.ref id)) → e' = e
  misses : Activity.misses acts = (e.miss? keyspace e' r.field).toList

theorem resolvesField_set {m : KeyspaceModel} {e : Entity} {r : ReferenceModel} {v : Value}
    {acts : List Activity} {id : String} (hid : e.get? r.field = some (.ref id))
    (hv : ∀ id, v ≠ .ref id)
    (hmiss : Activity.misses acts = (e.miss? m.name (e.set r.field v) r.field).toList) :
    ResolvesField m.name r e (e.set r.field v) acts where
  keyspace_eq := rfl
  id_eq := rfl
  others name hname := by rw [Entity.get?_set, if_neg (Ne.symm hname)]
  done id := by
    rw [Entity.get?_set, if_pos rfl]
    exact fun h => hv id (Option.some.inj h)
  idle h := absurd hid (h id)
  misses := hmiss

theorem does_resolveField (m : KeyspaceModel) (e : Entity) (r : ReferenceModel) (c : Content) :
    Does (resolveField m e r) c fun res c' acts =>
      c' = c ∧ (∀ a ∈ acts, a.Tells fun x => x.isBound = false) ∧
        ∀ e', res = .ok e' → ResolvesField m.name r e e' acts := by
  unfold resolveField
  split
  · rename_i id hid
    have hget : ∀ v, (e.set r.field v).get? r.field = some v := fun v => by
      rw [Entity.get?_set, if_pos rfl]
    refine ((logs_load r.target id c).on (reading_load _ _)).bind
      (fun x _ _ h => ⟨h.1, fun a ha => (h.2.1 a ha).tells, fun e' he => by cases he⟩)
      fun o c₁ acts h => ?_
    obtain ⟨rfl, hreads, -⟩ := h
    have htells : ∀ a ∈ acts, a.Tells fun x => x.isBound = false := fun a ha => (hreads a ha).tells
    have hnone : Activity.misses acts = [] :=
      Activity.misses_eq_nil fun a ha => (hreads a ha).tells
    cases o with
    | some target =>
      refine Does.pure ⟨rfl, by rwa [List.append_nil], fun e' he => ?_⟩
      obtain rfl := Except.ok.inj he
      refine resolvesField_set hid (fun _ h => by cases h) ?_
      rw [List.append_nil, hnone, Entity.miss?, hid, hget]
      rfl
    | none =>
      refine (Does.emit (Q := fun res c' acts => res = .ok () ∧ c' = c₁ ∧
        acts = [.event (.missed m.name r.field)]) ⟨rfl, rfl, rfl⟩).bind
        (fun x _ _ h => by cases h.1) fun _ _ _ h => Does.pure ?_
      · obtain ⟨-, rfl, rfl⟩ := h
        refine ⟨rfl, ?_, fun e' he => ?_⟩
        · rw [List.append_nil]
          exact List.forall_mem_append.mpr ⟨htells, List.forall_mem_singleton.mpr rfl⟩
        · obtain rfl := Except.ok.inj he
          refine resolvesField_set hid (fun _ h => by cases h) ?_
          rw [List.append_nil, Activity.misses_append, hnone, Entity.miss?, hid, hget]
          rfl
  · rename_i hno
    refine Does.pure ⟨rfl, List.forall_mem_nil _, fun e' he => ?_⟩
    obtain rfl := Except.ok.inj he
    refine ⟨rfl, rfl, fun _ _ => rfl, hno, fun _ => rfl, ?_⟩
    rw [Entity.miss?_of_ne hno]
    rfl

theorem does_resolve (m : KeyspaceModel) (references : List ReferenceModel) (e : Entity)
    (c : Content) : Does (references.foldlM (resolveField m) e) c fun res c' acts =>
      c' = c ∧ (∀ a ∈ acts, a.Tells fun x => x.isBound = false) ∧ ∀ e', res = .ok e' →
        Resolves m.name references e e' acts := by
  induction references generalizing e c with
  | nil =>
    refine Does.pure ⟨rfl, List.forall_mem_nil _, fun e' he => ?_⟩
    obtain rfl := Except.ok.inj he
    exact ⟨rfl, rfl, fun _ _ => rfl, rfl⟩
  | cons r references ih =>
    rw [List.foldlM_cons]
    refine (does_resolveField m e r c).bind (fun x _ _ h => ⟨h.1, h.2.1, fun e' he => ?_⟩)
      fun e₁ c₁ acts h => ?_
    · cases he
    · obtain ⟨rfl, htells, hstep⟩ := h
      have hstep := hstep e₁ rfl
      refine (ih e₁ c₁).mono fun res c' acts' h => ?_
      obtain ⟨rfl, htells', hrest⟩ := h
      refine ⟨rfl, List.forall_mem_append.mpr ⟨htells, htells'⟩, fun e' he => ?_⟩
      obtain ⟨hk', hid', hkept, hmisses⟩ := hrest e' he
      refine ⟨hk'.trans hstep.keyspace_eq, hid'.trans hstep.id_eq, fun name hname => ?_, ?_⟩
      · by_cases hr : name = r.field
        · subst hr
          rw [hkept _ hstep.done, hstep.idle hname]
        · rw [hkept name (by rwa [hstep.others name hr]), hstep.others name hr]
      · rw [Activity.misses_append, hstep.misses, hmisses,
          Entity.misses_cons hstep.others hstep.done (hkept r.field hstep.done)]

end Task

/-- The entity has the keyspace and the id of a stored one. -/
structure Content.Holds (c : Content) (keyspace : String) (e : Entity) : Prop where
  keyspace_eq : e.keyspace = keyspace
  stored : ∃ id, e.id = some id ∧ c.stored? keyspace id = some e

theorem Content.holds_of_stored {c : Content} {keyspace id : String} {e : Entity}
    (h : c.stored? keyspace id = some e) : c.Holds keyspace e := by
  have hparts : e.keyspace = keyspace ∧ e.id = some id := by
    unfold Content.stored? at h
    split at h
    · cases h
    · obtain ⟨r, -, rfl⟩ := Option.map_eq_some_iff.mp h
      exact ⟨rfl, rfl⟩
  exact ⟨hparts.1, id, hparts.2, h⟩

/-- The events for a returned entity: one for each declared field that is stored as a reference
and returned as null. -/
def Database.Missed (db : Database) (c : Content) (e : Entity) (events : List Event) : Prop :=
  ∃ m id stored, db.schema.model e.keyspace = .ok m ∧ e.id = some id ∧
    c.stored? e.keyspace id = some stored ∧ events = stored.misses m.name m.references e

namespace Task

variable {α β : Type} {c : Content}

theorem stored_of_on_load {keyspace id : String} {o : Option Entity}
    (h : (load keyspace id).on c = .ok o) : o = c.stored? keyspace id := by
  obtain ⟨-, calls, -, ho, -⟩ :=
    Yields.load (c := c) keyspace id (Engine.holding c) o _ rfl (Prod.ext h rfl)
  exact ho

theorem stored_of_on_loadMany {keyspace : String} {ids : List String} {found : List Entity}
    (h : (loadMany keyspace ids).on c = .ok found) :
    found = ids.filterMap (c.stored? keyspace) := by
  obtain ⟨-, calls, -, ho, -⟩ :=
    Yields.loadMany (c := c) keyspace ids (Engine.holding c) found _ rfl (Prod.ext h rfl)
  exact ho

theorem logs_loadMany (keyspace : String) (ids : List String) :
    Logs Activity.Reads (loadMany keyspace ids) := by
  induction ids with
  | nil => exact Logs.pure _
  | cons id ids ih =>
    refine (logs_load keyspace id).bind fun o => ?_
    cases o with
    | some e => exact ih.bind fun _ => Logs.pure _
    | none => exact (Logs.note trivial).bind fun _ => ih

end Task

namespace Database

/-- What a read tells of the entities `l` that it returns: no start or finish, and the misses of
each of them in turn. -/
def Returns (db : Database) (c : Content) (l : List Entity) (acts : List Activity) : Prop :=
  ∃ missed, List.Forall₂ (db.Missed c) l missed ∧ Activity.misses acts = missed.flatten

variable {db : Database} {m : KeyspaceModel} {c : Content}

theorem missed_of_resolves {e e' : Entity} {acts : List Activity}
    (hm : db.schema.model m.name = .ok m) (he : c.Holds m.name e)
    (h : Task.Resolves m.name m.references e e' acts) :
    db.Missed c e' (Activity.misses acts) := by
  obtain ⟨hk, id, hid, hstored⟩ := he
  have hk' : e'.keyspace = m.name := h.keyspace_eq.trans hk
  refine ⟨m, id, e, ?_, h.id_eq.trans hid, ?_, h.misses⟩
  · rw [hk', hm]
  · rw [hk', hstored]

/-- What stands between the start and the finish of an operation: neither of both, and after a
success the misses of the returned entities. -/
structure Inner {α : Type} (db : Database) (entities : α → List Entity) (c : Content)
    (r : Except Error α) (acts : List Activity) : Prop where
  unbounded : ∀ a ∈ acts, a.Tells fun e => e.isBound = false
  returns : ∀ a, r = .ok a → db.Returns c (entities a) acts

namespace Inner

variable {α β : Type} {entities : α → List Entity} {r : Except Error α} {acts acts' : List Activity}

theorem of_plain (h : ∀ a ∈ acts, a.Tells Event.Plain)
    (hr : ∀ a, r = .ok a → entities a = []) : db.Inner entities c r acts where
  unbounded a ha := by
    have hplain := h a ha
    cases a with
    | event e => exact hplain.1
    | _ => trivial
  returns a ha := by
    refine ⟨[], by rw [hr a ha]; exact .nil, Activity.misses_eq_nil fun x hx => ?_⟩
    have hplain := h x hx
    cases x with
    | event e => exact hplain.2
    | _ => trivial

theorem prepend (h : db.Inner entities c r acts') (hacts : ∀ a ∈ acts, a.Tells Event.Plain) :
    db.Inner entities c r (acts ++ acts') := by
  have hplain : db.Inner (fun _ => []) c r acts := of_plain hacts fun _ _ => rfl
  refine ⟨List.forall_mem_append.mpr ⟨hplain.unbounded, h.unbounded⟩, fun a ha => ?_⟩
  obtain ⟨missed, hmissed, hmisses⟩ := h.returns a ha
  obtain ⟨_, ⟨⟩, hnone⟩ := hplain.returns a ha
  refine ⟨missed, hmissed, ?_⟩
  rw [Activity.misses_append, hnone, hmisses]
  rfl

theorem after_plain {t : Task β} {f : β → Task α}
    {P : Except Error β → Content → List Activity → Prop} (ht : Does t c P)
    (hplain : ∀ r c' acts, P r c' acts → c' = c ∧ ∀ a ∈ acts, a.Tells Event.Plain)
    (hf : ∀ b acts, P (.ok b) c acts → Does (f b) c fun r _ acts => db.Inner entities c r acts) :
    Does (t >>= f) c fun r _ acts => db.Inner entities c r acts := by
  refine ht.bind (fun x c' acts h => of_plain (hplain _ _ _ h).2 fun a ha => by cases ha)
    fun b c' acts h => ?_
  obtain ⟨rfl, hacts⟩ := hplain _ _ _ h
  exact (hf b acts h).mono fun _ _ _ hi => hi.prepend hacts

theorem map {t : Task β} {g : β → α} {inner : β → List Entity}
    (ht : Does t c fun r _ acts => db.Inner inner c r acts)
    (hg : ∀ b, entities (g b) = inner b) :
    Does (t >>= fun b => pure (g b)) c fun r _ acts => db.Inner entities c r acts := by
  refine ht.bind (fun x _ _ h => ⟨h.unbounded, fun a ha => by cases ha⟩) fun b _ acts h =>
    Does.pure ⟨by rw [List.append_nil]; exact h.unbounded, fun a ha => ?_⟩
  obtain rfl := Except.ok.inj ha
  rw [List.append_nil, hg]
  exact h.returns b rfl

end Inner

theorem does_resolve (hm : db.schema.model m.name = .ok m) {e : Entity} (he : c.Holds m.name e) :
    Does (Task.resolve m e) c fun r _ acts => db.Inner (fun e => [e]) c r acts :=
  (Task.does_resolve m m.references e c).mono fun _ _ acts h => ⟨h.2.1, fun e' he' =>
    ⟨[Activity.misses acts], .cons (missed_of_resolves hm he (h.2.2 e' he')) .nil, by simp⟩⟩

theorem does_resolveAll (hm : db.schema.model m.name = .ok m) {l : List Entity}
    (hl : ∀ e ∈ l, c.Holds m.name e) :
    Does (l.mapM (Task.resolve m)) c fun r _ acts => db.Inner id c r acts := by
  have heach : ∀ e ∈ l, Does (Task.resolve m e) c fun r c' acts =>
      c' = c ∧ (∀ a ∈ acts, a.Tells fun x => x.isBound = false) ∧
        ∀ e', r = .ok e' → db.Missed c e' (Activity.misses acts) := fun e he =>
    (Task.does_resolve m m.references e c).mono fun _ _ _ h =>
      ⟨h.1, h.2.1, fun e' he' => missed_of_resolves hm (hl e he) (h.2.2 e' he')⟩
  refine (Does.mapM l heach).mono fun r c' acts h => ⟨h.2.1, fun items hitems => ?_⟩
  obtain ⟨parts, hparts, rfl, rfl⟩ := h.2.2 items hitems
  refine ⟨parts.map fun q => Activity.misses q.2, ?_, ?_⟩
  · rw [id, List.forall₂_map_left_iff, List.forall₂_map_right_iff, List.forall₂_same]
    exact hparts
  · rw [Activity.misses_flatten, List.map_map]
    rfl

theorem does_findUnder (hm : db.schema.model m.name = .ok m) (id : String) (c : Content) :
    Does (do
      match ← Task.load m.name id with
      | some e => some <$> Task.resolve m e
      | none => return none) c fun r _ acts => db.Inner Option.toList c r acts := by
  refine Inner.after_plain ((Task.logs_load m.name id c).on (Task.reading_load _ _))
    (fun _ _ _ h => ⟨h.1, fun a ha => (h.2.1 a ha).tells⟩) fun o _ h => ?_
  have ho := Task.stored_of_on_load (h.2.2 o rfl)
  cases o with
  | none => exact Does.pure (.of_plain (List.forall_mem_nil _) fun o ho => by
      rw [← Except.ok.inj ho]; rfl)
  | some e => exact Inner.map (does_resolve hm (Content.holds_of_stored ho.symm)) fun _ => rfl

theorem does_findMany (hm : db.schema.model m.name = .ok m) (ids : List String) (c : Content) :
    Does (do
      let found ← ids.mapM (Task.load m.name)
      (found.filterMap id).mapM (Task.resolve m)) c fun r _ acts => db.Inner id c r acts := by
  have hloads : ∀ id ∈ ids, Does (Task.load m.name id) c fun r c' acts =>
      c' = c ∧ (∀ a ∈ acts, a.Tells Event.Plain) ∧
        ∀ o, r = .ok o → ∀ e, o = some e → c.Holds m.name e := fun id _ =>
    ((Task.logs_load m.name id c).on (Task.reading_load _ _)).mono fun r _ _ h =>
      ⟨h.1, fun a ha => (h.2.1 a ha).tells, fun o ho e he => Content.holds_of_stored
        ((Task.stored_of_on_load (h.2.2 o ho)).symm.trans he)⟩
  refine Inner.after_plain (Does.mapM (R := fun o _ => ∀ e, o = some e → c.Holds m.name e) ids
    hloads) (fun _ _ _ h => ⟨h.1, h.2.1⟩) fun os _ h => ?_
  obtain ⟨parts, hparts, rfl, -⟩ := h.2.2 os rfl
  refine does_resolveAll hm fun e he => ?_
  obtain ⟨o, ho, hoe⟩ := List.mem_filterMap.mp he
  obtain ⟨q, hq, rfl⟩ := List.mem_map.mp ho
  exact hparts q hq e hoe

theorem does_fetchPage {p : Plan} (hm : db.schema.model p.model.name = .ok p.model) (c : Content) :
    Does (db.fetchPage p) c fun r _ acts => db.Inner Page.items c r acts := by
  refine Inner.after_plain ((db.logs_pageIds p c).on (db.reading_pageIds p))
    (fun _ _ _ h => ⟨h.1, h.2.1⟩) fun ids _ _ => ?_
  refine Inner.after_plain ((Task.logs_loadMany p.model.name ids.ids c).on
    (Task.reading_loadMany _ _)) (fun _ _ _ h => ⟨h.1, fun a ha => (h.2.1 a ha).tells⟩)
    fun found _ h => ?_
  obtain rfl := Task.stored_of_on_loadMany (h.2.2 found rfl)
  refine Inner.map (does_resolveAll hm fun e he => ?_) fun _ => rfl
  obtain ⟨id, -, hid⟩ := List.mem_filterMap.mp he
  exact Content.holds_of_stored hid

end Database

end IndexedStore
