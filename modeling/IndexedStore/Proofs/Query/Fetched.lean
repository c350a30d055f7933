import IndexedStore.Proofs.Query.Execute

/-! # One fetch and many

Entities are fetched one by one, as a list of ids, and as the page of a query. The lists load
all records before they resolve any reference. Main statement: whatever the backing store
holds, the three ways fail together and otherwise give the same entities.
-/
namespace IndexedStore

open IndexedStore.Task (Reading)

section Misses

universe u v

variable {α : Type u} {β : Type v}

/-- What stands behind the hits is what stands behind each element, misses left out. -/
theorem forall₂_hits {R : α → β → Prop} {os : List (Option α)} {bs : List β} :
    List.Forall₂ R (os.filterMap id) bs ↔
      ∃ rs, List.Forall₂ (Option.Rel R) os rs ∧ bs = rs.filterMap id := by
  induction os generalizing bs with
  | nil => simp
  | cons o os ih =>
    simp only [List.forall₂_cons_left_iff]
    cases o with
    | none =>
      rw [List.filterMap_cons_none (by rfl), ih]
      constructor
      · rintro ⟨rs, h, rfl⟩
        exact ⟨none :: rs, ⟨none, rs, .none, h, rfl⟩, rfl⟩
      · rintro ⟨_, ⟨_, rs, ⟨⟩, h, rfl⟩, rfl⟩
        exact ⟨rs, h, rfl⟩
    | some a =>
      rw [List.filterMap_cons_some (by rfl), List.forall₂_cons_left_iff]
      constructor
      · rintro ⟨b, bs, hb, h, rfl⟩
        obtain ⟨rs, hrs, rfl⟩ := ih.mp h
        exact ⟨some b :: rs, ⟨some b, rs, .some hb, hrs, rfl⟩, rfl⟩
      · rintro ⟨_, ⟨_, rs, hr, h, rfl⟩, rfl⟩
        cases hr with
        | some hb => exact ⟨_, _, hb, ih.mpr ⟨rs, h, rfl⟩, rfl⟩

end Misses

namespace Database

variable {db : Database} {keyspace : String} {m : KeyspaceModel} {c : Content}

theorem on_of_model (hm : db.schema.model keyspace = .ok m) {α : Type}
    {body : KeyspaceModel → Task α} (hb : ∀ m, Reading (body m)) (c : Content) :
    (db.model keyspace >>= body).on c = (body m).on c := by
  refine (Task.on_bind (Reading.ofExcept (db.schema.model keyspace)) hb c).trans ?_
  rw [Task.on_ofExcept, hm]
  rfl

theorem on_findById_eq_ok (hm : db.schema.model keyspace = .ok m) {id : String}
    {r : Option Entity} : (db.findById keyspace id).on c = .ok r ↔
      ∃ o, (Task.load m.name id).on c = .ok o ∧
        Option.Rel (fun e e' => (Task.resolve m e).on c = .ok e') o r := by
  have hfind : (db.findById keyspace id).on c = _ :=
    findById_fst (s := Engine.holding c) rfl hm
  rw [hfind]
  constructor
  · intro h
    obtain ⟨o, ho, hr⟩ := Task.except_bind_eq_ok h
    refine ⟨o, ho, ?_⟩
    cases o with
    | none =>
      cases hr
      exact .none
    | some e =>
      cases he : (Task.resolve m e).on (Engine.holding c).content with
      | error x =>
        simp only [he] at hr
        cases hr
      | ok e' =>
        simp only [he] at hr
        cases hr
        exact .some he
  · rintro ⟨o, ho, hr⟩
    have hload : (Task.load m.name id).on (Engine.holding c).content = .ok o := ho
    rw [hload]
    cases hr with
    | none => rfl
    | some he => exact congrArg (Except.map some) he

theorem reading_findByIds (db : Database) (keyspace : String) (ids : List String) :
    Reading (db.findByIds keyspace ids) :=
  (Reading.ofExcept _).bind fun m =>
    ((Task.reading_mapM (fun id => Task.reading_load m.name id) ids).bind fun _ =>
      reading_resolveAll m _).spanned

theorem on_findByIds_of_loads (hm : db.schema.model keyspace = .ok m) {ids : List String}
    {found : List Entity} : (db.findByIds keyspace ids).on c = .ok found ↔
      ∃ os, List.Forall₂ (fun id o => (Task.load m.name id).on c = .ok o) ids os ∧
        List.Forall₂ (fun e e' => (Task.resolve m e).on c = .ok e') (os.filterMap id) found := by
  have hloads := fun m : KeyspaceModel =>
    Task.reading_mapM (fun id => Task.reading_load m.name id) ids
  have hbody := fun m : KeyspaceModel =>
    (hloads m).bind fun os => reading_resolveAll m (os.filterMap id)
  unfold findByIds
  rw [on_of_model hm fun m => (hbody m).spanned, Task.on_spanned (hbody m),
    Task.on_bind_eq_ok (hloads m) fun _ => reading_resolveAll m _]
  simp only [Task.on_mapM_eq_ok fun id => Task.reading_load m.name id, on_resolveAll_eq_ok]

theorem on_findByIds_eq_ok (hm : db.schema.model keyspace = .ok m) {ids : List String}
    {found : List Entity} : (db.findByIds keyspace ids).on c = .ok found ↔
      ∃ results, List.Forall₂ (fun id r => (db.findById keyspace id).on c = .ok r) ids results ∧
        found = results.filterMap id := by
  rw [on_findByIds_of_loads hm]
  simp only [on_findById_eq_ok hm, forall₂_steps, forall₂_hits]
  constructor
  · rintro ⟨os, hloads, rs, hres, rfl⟩
    exact ⟨rs, ⟨os, hloads, hres⟩, rfl⟩
  · rintro ⟨rs, ⟨os, hloads, hres⟩, rfl⟩
    exact ⟨os, hloads, rs, hres, rfl⟩

theorem on_execute_eq_ok {q : Query} {page : Page Entity} :
    (db.execute q).on c = .ok page ↔
      ∃ p items, (db.executeIds q).on c = .ok p ∧
        (db.findByIds q.keyspace p.ids).on c = .ok items ∧ page = ⟨items, q.page, p.total⟩ := by
  cases hp : db.schema.plan q with
  | error x =>
    have hids : (db.executeIds q).on c = .error x := by
      unfold executeIds
      rw [Task.on_bind (Reading.ofExcept _) fun p => db.reading_pageIds p, Task.on_ofExcept, hp]
      rfl
    have hpage : (db.execute q).on c = .error x := by
      unfold execute
      rw [Task.on_bind (Reading.ofExcept _) fun p => (db.reading_fetchPage p).spanned,
        Task.on_ofExcept, hp]
      rfl
    simp [hids, hpage]
  | ok p =>
    obtain ⟨hm, -, hrequest, -⟩ := Schema.plan_eq_ok hp
    rw [on_execute hp, ← on_pageIds hp, ← hrequest, on_fetchPage_iff]
    simp only [Task.on_loadMany_iff, on_findByIds_of_loads hm]
    constructor
    · rintro ⟨ids, _, items, hids, ⟨os, hloads, rfl⟩, hitems, rfl⟩
      exact ⟨ids, items, hids, ⟨os, hloads, hitems⟩, rfl⟩
    · rintro ⟨ids, items, hids, ⟨os, hloads, hitems⟩, rfl⟩
      exact ⟨ids, _, items, hids, ⟨os, hloads, rfl⟩, hitems, rfl⟩

end Database

/-- Over a healthy backing store with any content whatsoever, a list of ids of a declared
keyspace is fetched exactly when each id is fetched alone, and holds the hits in the listed
order. A query is executed exactly when its ids are found and fetched, and gives these
entities with the number of all matches and the requested page. -/
theorem fetches_agree (db : Database) (c : Content) (supply : IdSupply) (journal : Journal) :
    let s : Engine := ⟨c, Faults.none, supply, journal⟩
    (∀ (keyspace : String) (m : KeyspaceModel), db.schema.model keyspace = .ok m →
      ∀ (ids : List String) (found : List Entity),
        (db.findByIds keyspace ids s).1 = .ok found ↔
          ∃ results, List.Forall₂ (fun id r => (db.findById keyspace id s).1 = .ok r) ids results ∧
            found = results.filterMap id) ∧
    ∀ (q : Query) (page : Page Entity), (db.execute q s).1 = .ok page ↔
      ∃ p items, (db.executeIds q s).1 = .ok p ∧
        (db.findByIds q.keyspace p.ids s).1 = .ok items ∧ page = ⟨items, q.page, p.total⟩ := by
  intro s
  have hmany := fun keyspace ids => (db.reading_findByIds keyspace ids).healthy s rfl
  refine ⟨fun keyspace m hm ids found => ?_, fun q page => ?_⟩
  · simp only [hmany, fun id => (db.reading_findById keyspace id).healthy s rfl]
    exact Database.on_findByIds_eq_ok hm
  · simp only [hmany, (db.reading_execute q).healthy s rfl, (db.reading_executeIds q).healthy s rfl]
    exact Database.on_execute_eq_ok

/-- A listed id comes as often as it is listed, and one without a record not at all. -/
theorem fetches_repeat_and_miss :
    let db : Database := .indexing [] rfl
    let t := (Tracked.fresh Faults.none .none []).replay [(db, .save OrderedEntity.sample)]
    ∃ found, (db.findByIds "k" ["1", "2", "1"] (.holding t.engine.content)).1 = .ok found ∧
      found.map Entity.id = [some "1", some "1"] := by
  intro db t
  have hhit : (db.findById "k" "1" (.holding t.engine.content)).1.toOption.map
      (Option.map Entity.id) = some (some (some "1")) := by decide +kernel
  have hmiss : (db.findById "k" "2" (.holding t.engine.content)).1.toOption.map
      (Option.map Entity.id) = some none := by decide +kernel
  have hagree := (fetches_agree db t.engine.content .none []).1 "k" ⟨"k", [], [], []⟩ rfl
    ["1", "2", "1"]
  cases hone : (db.findById "k" "1" (.holding t.engine.content)).1 with
  | error x =>
    rw [hone] at hhit
    cases hhit
  | ok r =>
    cases htwo : (db.findById "k" "2" (.holding t.engine.content)).1 with
    | error x =>
      rw [htwo] at hmiss
      cases hmiss
    | ok r' =>
      rw [hone] at hhit
      rw [htwo] at hmiss
      obtain ⟨e, rfl, he⟩ := Option.map_eq_some_iff.mp (Option.some.inj hhit)
      obtain rfl := Option.map_eq_none_iff.mp (Option.some.inj hmiss)
      refine ⟨[e, e], (hagree [e, e]).mpr ⟨[some e, none, some e], ?_, rfl⟩, ?_⟩
      · exact .cons hone (.cons htwo (.cons hone .nil))
      · simp [he]

end IndexedStore
