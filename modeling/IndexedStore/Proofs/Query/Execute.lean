import IndexedStore.Proofs.Query.Answer
import IndexedStore.Proofs.Store.Served

/-! # What a query fetches

The entities of a page are loaded and then resolved one after another. Over a content that
stands for some entities every matching id is live, so that a page which can be fetched holds
one entity for each of its ids.
-/
namespace IndexedStore

open IndexedStore.Task (Reading)

section Steps

universe u v w

variable {α : Type u} {β : Type v} {γ : Type w}

theorem forall₂_steps {P : α → β → Prop} {Q : β → γ → Prop} {as : List α} {cs : List γ} :
    List.Forall₂ (fun a c => ∃ b, P a b ∧ Q b c) as cs ↔
      ∃ bs, List.Forall₂ P as bs ∧ List.Forall₂ Q bs cs := by
  constructor
  · intro h
    induction h with
    | nil => exact ⟨[], .nil, .nil⟩
    | cons h _ ih =>
      obtain ⟨b, hP, hQ⟩ := h
      obtain ⟨bs, hPs, hQs⟩ := ih
      exact ⟨b :: bs, .cons hP hPs, .cons hQ hQs⟩
  · rintro ⟨bs, hP, hQ⟩
    induction hP generalizing cs with
    | nil =>
      cases hQ
      exact .nil
    | cons h _ ih =>
      cases hQ with
      | cons h' hQ => exact .cons ⟨_, h, h'⟩ (ih hQ)

end Steps

namespace Task

variable {α β : Type}

theorem reading_mapM {f : α → Task β} (hf : ∀ a, Reading (f a)) (l : List α) :
    Reading (l.mapM f) := by
  induction l with
  | nil =>
    rw [List.mapM_nil]
    exact Reading.pure _
  | cons a l ih =>
    rw [List.mapM_cons]
    exact (hf a).bind fun b => ih.bind fun bs => Reading.pure _

theorem on_mapM_eq_ok {f : α → Task β} (hf : ∀ a, Reading (f a)) {c : Content} {l : List α}
    {bs : List β} : (l.mapM f).on c = .ok bs ↔
      List.Forall₂ (fun a b => (f a).on c = .ok b) l bs := by
  induction l generalizing bs with
  | nil => simp [List.mapM_nil, eq_comm]
  | cons a l ih =>
    rw [List.mapM_cons, on_bind_eq_ok (hf a) fun b => (reading_mapM hf l).bind fun _ =>
      Reading.pure _, List.forall₂_cons_left_iff]
    refine exists_congr fun b => ?_
    rw [on_bind_eq_ok (reading_mapM hf l) fun _ => Reading.pure _]
    simp [ih, eq_comm]

theorem reading_loadMany_of (keyspace id : String) {rest : Task (List Entity)}
    (hr : Reading rest) (o : Option Entity) :
    Reading (match o with
      | some e => do return e :: (← rest)
      | none => do
        note false (.dangling keyspace id)
        rest) := by
  cases o with
  | some e => exact hr.bind fun _ => Reading.pure _
  | none => exact (Reading.note _ _).bind fun _ => hr

theorem reading_loadMany (keyspace : String) (ids : List String) :
    Reading (loadMany keyspace ids) := by
  induction ids with
  | nil => exact Reading.pure _
  | cons id ids ih => exact (reading_load keyspace id).bind (reading_loadMany_of keyspace id ih)

theorem on_loadMany_iff {keyspace : String} {c : Content} {ids : List String}
    {l : List Entity} : (loadMany keyspace ids).on c = .ok l ↔
      ∃ os, List.Forall₂ (fun id o => (load keyspace id).on c = .ok o) ids os ∧
        l = os.filterMap id := by
  induction ids generalizing l with
  | nil => simp [loadMany, eq_comm]
  | cons i ids ih =>
    have hrest := reading_loadMany keyspace ids
    refine (on_bind_eq_ok (reading_load keyspace i)
      (reading_loadMany_of keyspace i hrest)).trans ?_
    simp only [List.forall₂_cons_left_iff]
    constructor
    · rintro ⟨_ | e, ho, hl⟩
      · obtain ⟨-, -, hl⟩ := (on_bind_eq_ok (Reading.note _ _) fun _ => hrest).mp hl
        obtain ⟨os, hos, rfl⟩ := ih.mp hl
        exact ⟨none :: os, ⟨none, os, ho, hos, rfl⟩, rfl⟩
      · obtain ⟨l', hl', ⟨⟩⟩ := (on_bind_eq_ok hrest fun _ => Reading.pure _).mp hl
        obtain ⟨os, hos, rfl⟩ := ih.mp hl'
        exact ⟨some e :: os, ⟨some e, os, ho, hos, rfl⟩, rfl⟩
    · rintro ⟨_, ⟨o, os, ho, hos, rfl⟩, rfl⟩
      have hl := ih.mpr ⟨os, hos, rfl⟩
      refine ⟨o, ho, ?_⟩
      cases o with
      | none => exact (on_bind_eq_ok (Reading.note _ _) fun _ => hrest).mpr ⟨(), rfl, hl⟩
      | some e => exact (on_bind_eq_ok hrest fun _ => Reading.pure _).mpr ⟨_, hl, rfl⟩

theorem on_loadMany_eq_ok {keyspace : String} {c : Content} {ids : List String}
    (h : ∀ id ∈ ids, (load keyspace id).on c ≠ .ok none) {l : List Entity} :
    (loadMany keyspace ids).on c = .ok l ↔
      List.Forall₂ (fun id e => (load keyspace id).on c = .ok (some e)) ids l := by
  rw [on_loadMany_iff]
  constructor
  · rintro ⟨os, hos, rfl⟩
    induction hos with
    | nil => exact .nil
    | @cons i o _ _ ho _ ih =>
      obtain ⟨hi, hids⟩ := List.forall_mem_cons.mp h
      cases o with
      | none => exact absurd ho hi
      | some e => exact .cons ho (ih hids)
  · intro hl
    exact ⟨l.map some, List.forall₂_map_right_iff.mpr hl, by simp⟩

end Task

/-- What is fetched for an id: its stored entity, resolved. -/
def Fetches (c : Content) (m : KeyspaceModel) (id : String) (e : Entity) : Prop :=
  ∃ stored, (Task.load m.name id).on c = .ok (some stored) ∧
    (Task.resolve m stored).on c = .ok e

theorem forall₂_fetches {c : Content} {m : KeyspaceModel} {ids : List String}
    {items : List Entity} :
    List.Forall₂ (Fetches c m) ids items ↔
      ∃ found, List.Forall₂ (fun id e => (Task.load m.name id).on c = .ok (some e)) ids found ∧
        List.Forall₂ (fun e e' => (Task.resolve m e).on c = .ok e') found items :=
  forall₂_steps

namespace Database

variable {db : Database} {q : Query} {p : Plan}

theorem reading_resolveAll (m : KeyspaceModel) (l : List Entity) :
    Reading (l.mapM (Task.resolve m)) :=
  Task.reading_mapM (fun e => Task.reading_resolve m m.references e) l

theorem on_resolveAll_eq_ok {m : KeyspaceModel} {c : Content} {l items : List Entity} :
    (l.mapM (Task.resolve m)).on c = .ok items ↔
      List.Forall₂ (fun e e' => (Task.resolve m e).on c = .ok e') l items :=
  Task.on_mapM_eq_ok fun e => Task.reading_resolve m m.references e

theorem reading_fetchPage (db : Database) (p : Plan) : Reading (db.fetchPage p) :=
  (db.reading_pageIds p).bind fun _ => (Task.reading_loadMany _ _).bind fun l =>
    (reading_resolveAll p.model l).bind fun _ => Reading.pure _

theorem reading_execute (db : Database) (q : Query) : Reading (db.execute q) :=
  (Reading.ofExcept _).bind fun p => (db.reading_fetchPage p).spanned

theorem executeIds_of_plan (hp : db.schema.plan q = .ok p) : db.executeIds q = db.pageIds p := by
  unfold executeIds
  rw [hp]
  rfl

theorem execute_of_plan (hp : db.schema.plan q = .ok p) :
    db.execute q = Task.spanned .load p.model.name (fun page => page.items.length)
      (db.fetchPage p) := by
  unfold execute
  rw [hp]
  rfl

theorem on_execute (hp : db.schema.plan q = .ok p) (c : Content) :
    (db.execute q).on c = (db.fetchPage p).on c := by
  rw [execute_of_plan hp]
  exact Task.on_spanned (db.reading_fetchPage p) c

theorem on_pageIds (hp : db.schema.plan q = .ok p) (c : Content) :
    (db.pageIds p).on c = (db.executeIds q).on c := by
  rw [executeIds_of_plan hp]

theorem on_fetchPage_iff {c : Content} {page : Page Entity} :
    (db.fetchPage p).on c = .ok page ↔
      ∃ ids found items, (db.pageIds p).on c = .ok ids ∧
        (Task.loadMany p.model.name ids.ids).on c = .ok found ∧
        List.Forall₂ (fun e e' => (Task.resolve p.model e).on c = .ok e') found items ∧
        page = ⟨items, p.page, ids.total⟩ := by
  have hresolves := fun l => reading_resolveAll p.model l
  have hloads := fun ids => Task.reading_loadMany p.model.name ids
  unfold fetchPage
  rw [Task.on_bind_eq_ok (db.reading_pageIds p) fun ids => (hloads ids.ids).bind
    fun l => (hresolves l).bind fun _ => Reading.pure _]
  refine exists_congr fun ids => ?_
  rw [Task.on_bind_eq_ok (hloads ids.ids) fun l => (hresolves l).bind fun _ => Reading.pure _]
  simp only [Task.on_bind_eq_ok (hresolves _) fun _ => Reading.pure _, Task.on_pure,
    on_resolveAll_eq_ok]
  constructor
  · rintro ⟨hids, found, hfound, items, hitems, ⟨⟩⟩
    exact ⟨found, items, hids, hfound, hitems, rfl⟩
  · rintro ⟨found, items, hids, hfound, hitems, rfl⟩
    exact ⟨hids, found, hfound, items, hitems, rfl⟩

theorem on_fetchPage_eq_ok {c : Content} {ids : IdPage} {page : Page Entity}
    (hids : (db.pageIds p).on c = .ok ids)
    (hlive : ∀ id ∈ ids.ids, (Task.load p.model.name id).on c ≠ .ok none) :
    (db.fetchPage p).on c = .ok page ↔
      page.request = p.page ∧ page.total = ids.total ∧
        List.Forall₂ (Fetches c p.model) ids.ids page.items := by
  rw [on_fetchPage_iff, hids, forall₂_fetches]
  constructor
  · rintro ⟨_, found, items, ⟨⟩, hfound, hitems, rfl⟩
    exact ⟨rfl, rfl, found, (Task.on_loadMany_eq_ok hlive).mp hfound, hitems⟩
  · obtain ⟨items, request, total⟩ := page
    rintro ⟨rfl, rfl, found, hfound, hitems⟩
    exact ⟨ids, found, items, rfl, (Task.on_loadMany_eq_ok hlive).mpr hfound, hitems, rfl⟩

end Database

def Entities.answers (d : Entities) (c : Content) (q : Query) : List String :=
  (d q.keyspace).keys.filter fun id => q.holds (c.leaves q.keyspace id)

/-- Over a content that stands for some entities a query gives the page of the live ids whose
entries satisfy it, fetched one by one, and the number of all of them. -/
theorem Consistent.on_execute_eq_ok {c : Content} {d : Entities} (h : Consistent c d)
    (hb : c.Bounded) {db : Database} {q : Query} {p : Plan} (hp : db.schema.plan q = .ok p)
    {page : Page Entity} : (db.execute q).on c = .ok page ↔
      page.request = q.page ∧ page.total = UInt64.ofNat (d.answers c q).length ∧
        List.Forall₂ (Fetches c p.model) (q.sliced (d.answers c q)).ids page.items := by
  obtain ⟨hm, -, hpage, -⟩ := Schema.plan_eq_ok hp
  have hname := Schema.name_of_model hm
  have hids : (db.pageIds p).on c = .ok (q.sliced (d.answers c q)) := by
    rw [Database.on_pageIds hp, h.on_executeIds hp, Entities.answers]
  have hlive : ∀ id ∈ (q.sliced (d.answers c q)).ids,
      (Task.load p.model.name id).on c ≠ .ok none := by
    intro id hid
    have hkey := (List.mem_filter.mp (Query.mem_sliced hid)).1
    obtain ⟨fields, hd⟩ := Dict.contains_eq_true.mp (Dict.mem_keys.mp hkey)
    rw [h.on_load hb (Schema.isName_of_model hm), hname, Entities.load]
    rw [show d.get? q.keyspace id = some fields from hd]
    dsimp only
    split <;> (intro hnone; cases hnone)
  rw [Database.on_execute hp, Database.on_fetchPage_eq_ok hids hlive, hpage]
  rfl

end IndexedStore
