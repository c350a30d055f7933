import IndexedStore.Proofs.Operation.Healthy
import IndexedStore.Proofs.Query.Execute
import IndexedStore.Proofs.Store.Served

/-! # A keyspace that was emptied

Emptying a keyspace asks of the content only which keys start with the name and a separator.
Main statement: on a healthy backing store with any content these keys go and all others stay,
neighbours of the name included, and whatever is looked up under the name finds nothing.
-/
namespace IndexedStore

open IndexedStore.Task (Reading)
open Key (IsName)

/-- Nothing is stored under the name of the keyspace. -/
def Content.Vacant (c : Content) (keyspace : String) : Prop :=
  ∀ key, Key.Under keyspace key → c.get? key = none

namespace Content.Vacant

variable {c : Content} {keyspace start : String}

theorem scan_eq_nil (h : c.Vacant keyspace) (hs : Key.Under keyspace start) :
    c.scan start = [] := by
  refine List.eq_nil_iff_forall_not_mem.mpr fun e he => ?_
  obtain ⟨hget, hstarts⟩ := Content.mem_scan.mp he
  obtain ⟨rest, hkey⟩ := Key.hasPrefix_iff.mp hstarts
  rw [hkey, h _ (hs.append rest)] at hget
  cases hget

theorem ids_eq_empty (h : c.Vacant keyspace) (hs : Key.Under keyspace start) :
    c.ids start = Dict.empty := by
  rw [Content.ids, h.scan_eq_nil hs]
  rfl

theorem on_lookupMembers (h : c.Vacant keyspace) :
    (Task.lookupMembers keyspace).on c = .ok Dict.empty :=
  congrArg Except.ok (h.ids_eq_empty (Key.Under.membersPrefix keyspace))

theorem on_lookupEq (h : c.Vacant keyspace) (path : String) (value : Value) :
    (Task.lookupEq keyspace path value).on c = .ok Dict.empty := by
  rw [Task.on_lookupEq]
  cases value.token? with
  | none => rfl
  | some token =>
    exact congrArg Except.ok (h.ids_eq_empty (Key.Under.equalityPrefix keyspace path token))

theorem on_lookupNear (h : c.Vacant keyspace) (path : String) (center : GeoPoint)
    (distance : Distance) :
    (Task.lookupNear keyspace path center distance).on c = .ok Dict.empty := by
  unfold Task.lookupNear
  rw [Task.on_bind (Reading.scan _) fun _ => (Task.reading_within _ _ _ _).bind fun _ =>
    Task.reading_reportLookup _ _ _, Task.on_scan,
    h.scan_eq_nil (Key.Under.geoPrefix keyspace path)]
  rfl

open Predicate

mutual

theorem on_evaluate (h : c.Vacant keyspace) (p : Predicate) :
    (p.evaluate keyspace).on c = .ok Dict.empty := by
  match p with
  | .eq path value => exact h.on_lookupEq path value
  | .near path center distance => exact h.on_lookupNear path center distance
  | .all [] => exact h.on_lookupMembers
  | .all (p :: rest) =>
    rw [evaluate, Task.on_bind (reading_evaluate keyspace p) fun ids =>
      reading_narrow keyspace ids rest, h.on_evaluate p]
    cases rest <;> rfl
  | .any children => exact h.on_widen children

theorem on_widen (h : c.Vacant keyspace) (ps : List Predicate) :
    (widen keyspace Dict.empty ps).on c = .ok Dict.empty := by
  match ps with
  | [] => rfl
  | p :: rest =>
    rw [widen, Task.on_bind (reading_evaluate keyspace p) fun next =>
      reading_widen keyspace _ rest, h.on_evaluate p]
    exact h.on_widen rest

end

variable {db : Database} {q : Query} {p : Plan}

theorem on_executeIds (h : c.Vacant q.keyspace) (hp : db.schema.plan q = .ok p) :
    (db.executeIds q).on c = .ok ⟨[], 0⟩ := by
  have hname := Schema.name_of_model (Schema.plan_eq_ok hp).1
  have hmatched : (Database.matched p).on c = .ok Dict.empty := by
    unfold Database.matched
    rw [hname]
    cases p.predicate with
    | none => exact h.on_lookupMembers
    | some f => exact h.on_evaluate f
  rw [db.on_executeIds hp, hmatched]
  cases hq : q.page with
  | none => simp [Except.bind, Query.sliced, hq, Dict.keys, Dict.empty]
  | some r => simp [Except.bind, Query.sliced, hq, Dict.keys, Dict.empty, PageRequest.slice]

theorem on_execute (h : c.Vacant q.keyspace) (hp : db.schema.plan q = .ok p) :
    (db.execute q).on c = .ok ⟨[], q.page, 0⟩ := by
  have hids := (Database.on_pageIds hp c).trans (h.on_executeIds hp)
  rw [Database.on_execute hp, Database.on_fetchPage_iff]
  exact ⟨⟨[], 0⟩, [], [], hids, rfl, .nil, by rw [(Schema.plan_eq_ok hp).2.2.1]⟩

end Content.Vacant

structure FindsNothing (db : Database) (keyspace : String) (s : Engine) : Prop where
  count : (db.count keyspace s).1 = .ok 0
  findById : ∀ id, (db.findById keyspace id s).1 = .ok none
  contains : ∀ id, (db.contains keyspace id s).1 = .ok false
  executeIds : ∀ q p, q.keyspace = keyspace → db.schema.plan q = .ok p →
    (db.executeIds q s).1 = .ok ⟨[], 0⟩
  execute : ∀ q p, q.keyspace = keyspace → db.schema.plan q = .ok p →
    (db.execute q s).1 = .ok ⟨[], q.page, 0⟩

namespace Database

variable {db : Database} {keyspace : String} {m : KeyspaceModel} {s : Engine}

theorem findsNothing_of_vacant (hm : db.schema.model keyspace = .ok m)
    (hs : s.faults = Faults.none) (hv : s.content.Vacant keyspace) :
    FindsNothing db keyspace s := by
  have hname := Schema.name_of_model hm
  have hrecord : ∀ id, s.content.get? (Key.record m.name id) = none := by
    intro id
    rw [hname]
    exact hv _ (Key.Under.record keyspace id)
  refine ⟨?_, fun id => ?_, fun id => ?_, ?_, ?_⟩
  · have hmembers : (Task.lookupMembers m.name).on s.content = .ok Dict.empty := by
      rw [hname]
      exact hv.on_lookupMembers
    obtain ⟨s', hrun, -⟩ := (Task.reading_lookupMembers m.name).run_healthy hs
    rw [hmembers] at hrun
    unfold count
    rw [Task.bind_run_ok (model_run hm s), Task.bind_run_ok hrun]
    rfl
  · have hload : (Task.load m.name id).on s.content = .ok none := by
      rw [Task.on_load, Task.readAt_none (hrecord id)]
      rfl
    rw [findById_fst hs hm, hload]
    rfl
  · obtain ⟨s', hrun, -⟩ := (Reading.get (Key.record m.name id)).run_healthy hs
    rw [Task.on_get, hrecord] at hrun
    unfold contains
    rw [Task.bind_run_ok (model_run hm s), Task.bind_run_ok hrun]
    rfl
  · rintro q p rfl hp
    exact ((db.reading_executeIds q).healthy s hs).trans (hv.on_executeIds hp)
  · rintro q p rfl hp
    exact ((db.reading_execute q).healthy s hs).trans (hv.on_execute hp)

theorem exists_flush (db : Database) (m : KeyspaceModel) (hs : s.faults = Faults.none) :
    ∃ n s', db.flush m s = (.ok n, s') := by
  obtain ⟨s₁, hmembers, hsame⟩ :=
    (Task.reading_scanIds (Key.membersPrefix m.name)).run_healthy hs
  have hs₁ : s₁.faults = Faults.none := hsame.faults.trans hs
  obtain ⟨s₂, hscan, hsame'⟩ := (Reading.scan (Key.keyspacePrefix m.name)).run_healthy hs₁
  have hs₂ : s₂.faults = Faults.none := hsame'.faults.trans hs₁
  have hids : Task.members m.name s = (.ok (s.content.ids (Key.membersPrefix m.name)), s₁) :=
    hmembers
  have hfound : Task.scan (Key.keyspacePrefix m.name) s₁ =
      (.ok (s₁.content.scan (Key.keyspacePrefix m.name)), s₂) := hscan
  obtain ⟨n, s₃, hcommit⟩ := Task.exists_commit (Batch.empty.deleteAll
    ((s₁.content.scan (Key.keyspacePrefix m.name)).map Prod.fst)) hs₂
  unfold flush
  rw [Task.bind_run_ok hids, Task.bind_run_ok hfound, Task.bind_run_ok hcommit]
  exact ⟨_, _, rfl⟩

/-- On a healthy backing store a declared keyspace can be emptied, whatever is stored. -/
theorem exists_deleteAll (hm : db.schema.model keyspace = .ok m) (hs : s.faults = Faults.none) :
    ∃ n s', db.deleteAll keyspace s = (.ok n, s') := by
  obtain ⟨n, s₁, hflush⟩ :=
    exists_flush (s := s.log (.event (.started .flush m.name))) db m hs
  refine ⟨n, (db.deleteAll keyspace s).2, Prod.ext ?_ rfl⟩
  unfold deleteAll
  rw [Task.bind_run_ok (model_run hm s), Task.spanned_fst, hflush]

end Database

/-- A keyspace that some schema declares is emptied on a healthy backing store with any content.
The result is how many ids its membership scan finds. Every key that starts with its name and a
separator goes, every other key keeps its bytes, among them all keys of other keyspaces whatever
their names. From then on nothing is found in the keyspace, under any schema that declares it. -/
theorem deleteAll_empties_one_keyspace (db : Database) (keyspace : String) (m : KeyspaceModel)
    (hm : db.schema.model keyspace = .ok m) (s : Engine) (hs : s.faults = Faults.none) :
    ∃ ids s', (Task.members keyspace s).1 = .ok ids ∧
      db.deleteAll keyspace s = (.ok ids.size, s') ∧
      (∀ key, Key.Under keyspace key → s'.content.get? key = none) ∧
      (∀ key, ¬Key.Under keyspace key → s'.content.get? key = s.content.get? key) ∧
      (∀ (schema : Schema) (other : String) (m' : KeyspaceModel), other ≠ keyspace →
        schema.model other = .ok m' → ∀ key, Key.Under other key →
          s'.content.get? key = s.content.get? key) ∧
      ∀ (db' : Database) (m' : KeyspaceModel) (after : Engine),
        db'.schema.model keyspace = .ok m' → after.content = s'.content →
        after.faults = Faults.none → FindsNothing db' keyspace after := by
  obtain ⟨n, s', hrun⟩ := Database.exists_deleteAll hm hs
  obtain ⟨m₁, hm₁, ⟨ids, hids, rfl⟩, hcontent⟩ := Database.deleteAll_eq_ok hrun
  obtain rfl : m = m₁ := Except.ok.inj (hm.symm.trans hm₁)
  have hname := Schema.name_of_model hm
  have hk : IsName keyspace := hname ▸ Schema.isName_of_model hm
  rw [hname] at hids hcontent
  have hvacant : s'.content.Vacant keyspace := by
    intro key hkey
    rw [hcontent, if_pos (Key.under_iff.mp hkey)]
  have hother : ∀ key, ¬Key.Under keyspace key → s'.content.get? key = s.content.get? key := by
    intro key hkey
    rw [hcontent, if_neg (mt Key.under_iff.mpr hkey)]
  refine ⟨ids, s', ?_, hrun, hvacant, hother, ?_, ?_⟩
  · exact ((Task.reading_scanIds _).healthy s hs).trans hids
  · intro schema other m' hne hm' key hkey
    have hk' : IsName other := Schema.name_of_model hm' ▸ Schema.isName_of_model hm'
    exact hother key fun hunder => hne (hkey.unique hk' hk hunder)
  · intro db' m' after hm' hafter hfaults
    refine Database.findsNothing_of_vacant hm' hfaults ?_
    rw [hafter]
    exact hvacant

/-- A marker, a record that stands for nothing and an entry that no schema asks for go with their
keyspace. The keys of two neighbours stay, one with a longer name and one with an escape in it. -/
theorem neighbours_stay :
    let db : Database := .indexing [] rfl
    let c : Content := ["k::1", "k:1", "k:old:t:index:9", "kk:1", "k\\:1"].foldl
      (fun c key => c.insert key [255]) Dict.empty
    ∃ s', db.deleteAll "k" (.holding c) = (.ok 1, s') ∧
      s'.content.get? "k:1" = none ∧ s'.content.get? "k:old:t:index:9" = none ∧
      s'.content.get? "kk:1" = some [255] ∧ s'.content.get? "k\\:1" = some [255] ∧
      FindsNothing db "k" (.holding s'.content) := by
  intro db c
  obtain ⟨ids, s', hids, hrun, hgone, -, hkept, hnothing⟩ :=
    deleteAll_empties_one_keyspace db "k" ⟨"k", [], [], []⟩ rfl (.holding c) rfl
  have hcount : (Task.members "k" (.holding c)).1.toOption.map Dict.size = some 1 := by
    decide +kernel
  rw [hids] at hcount
  have hsize : ids.size = 1 := Option.some.inj hcount
  rw [hsize] at hrun
  refine ⟨s', hrun, hgone _ ⟨"1", rfl⟩, hgone _ ⟨"old:t:index:9", rfl⟩, ?_, ?_,
    hnothing db _ _ rfl rfl rfl⟩
  · exact hkept (.single ⟨"kk", [], [], []⟩ rfl) "kk" _ (by decide) rfl "kk:1" ⟨"1", rfl⟩
  · exact hkept (.single ⟨"k\\", [], [], []⟩ rfl) "k\\" _ (by decide) rfl "k\\:1" ⟨"1", rfl⟩

end IndexedStore
