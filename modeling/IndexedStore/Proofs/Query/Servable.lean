import IndexedStore.Proofs.Entity.Points
import IndexedStore.Proofs.Query.Decodable

/-! # Queries that can be served

A query is accepted when its keyspace is declared, its page holds something, and each leaf of its
predicate asks an index that is declared for what it holds. Main statement: this decides, whatever
is stored. A query is refused for the first reason against it before anything else happens, and
one that is accepted is answered wherever the stored values can be read.
-/
namespace IndexedStore

open Key (IsName)

/-- A leaf of a predicate asks one index. -/
inductive Leaf where
  | eq (path : String) (value : Value)
  | near (path : String) (center : GeoPoint) (distance : Distance)

namespace Predicate

mutual

def leafList : Predicate → List Leaf
  | eq path value => [.eq path value]
  | near path center distance => [.near path center distance]
  | all children => leafLists children
  | any children => leafLists children

def leafLists : List Predicate → List Leaf
  | [] => []
  | p :: rest => p.leafList ++ leafLists rest

end

end Predicate

namespace Leaf

def toPredicate : Leaf → Predicate
  | eq path value => .eq path value
  | near path center distance => .near path center distance

/-- The path has the kind of index that the leaf asks, and the index can hold what it asks for. -/
def Servable (m : KeyspaceModel) : Leaf → Prop
  | eq path value => path ∈ m.indexes ∧ ∃ token, value.token? = some token
  | near path center distance =>
    path ∈ m.geoIndexes ∧ center.InRange ∧ distance.value.isFinite = true ∧ 0 ≤ distance.value

/-- The first thing that is wrong with a leaf. -/
inductive Refused (m : KeyspaceModel) : Leaf → Error → Prop
  | geoOnly {path : String} {value : Value} (hg : path ∈ m.geoIndexes) :
    Refused m (.eq path value) (.unsupportedQuery m.name (.geoOnly path))
  | notIndexed {path : String} {value : Value} (hg : path ∉ m.geoIndexes)
      (hi : path ∉ m.indexes) :
    Refused m (.eq path value) (.unsupportedQuery m.name (.notIndexed path))
  | noToken {path : String} {value : Value} (hg : path ∉ m.geoIndexes) (hi : path ∈ m.indexes)
      (ht : value.token? = none) :
    Refused m (.eq path value) (.unsupportedQuery m.name (.noToken path value))
  | notGeoIndexed {path : String} {center : GeoPoint} {distance : Distance}
      (hg : path ∉ m.geoIndexes) :
    Refused m (.near path center distance) (.unsupportedQuery m.name (.notGeoIndexed path))
  | outOfRange {path : String} {center : GeoPoint} {distance : Distance}
      (hg : path ∈ m.geoIndexes) (hc : ¬center.InRange) :
    Refused m (.near path center distance) (.invalidCoordinate center)
  | noRadius {path : String} {center : GeoPoint} {distance : Distance}
      (hg : path ∈ m.geoIndexes) (hc : center.InRange)
      (hd : ¬(distance.value.isFinite = true ∧ 0 ≤ distance.value)) :
    Refused m (.near path center distance) (.unsupportedQuery m.name (.invalidDistance distance))

variable {m : KeyspaceModel}

/-- Nothing is said against a leaf, or the first thing that is wrong with it. -/
theorem checkLeaf_cases (l : Leaf) :
    (Predicate.checkLeaf m l.toPredicate = .ok () ∧ l.Servable m) ∨
      ∃ x, Predicate.checkLeaf m l.toPredicate = .error x ∧ l.Refused m x := by
  cases l with
  | eq path value =>
    unfold toPredicate Predicate.checkLeaf KeyspaceModel.checkEq KeyspaceModel.isGeoIndexed
      KeyspaceModel.isIndexed
    by_cases hg : path ∈ m.geoIndexes
    · exact .inr ⟨_, by simp [hg, Except.mapError], .geoOnly hg⟩
    · by_cases hi : path ∈ m.indexes
      · cases ht : value.token? with
        | none => exact .inr ⟨_, by simp [hg, hi, ht, Except.mapError], .noToken hg hi ht⟩
        | some token => exact .inl ⟨by simp [hg, hi, ht, Except.mapError], hi, token, ht⟩
      · exact .inr ⟨_, by simp [hg, hi, Except.mapError], .notIndexed hg hi⟩
  | near path center distance =>
    unfold toPredicate Predicate.checkLeaf KeyspaceModel.isGeoIndexed
    by_cases hg : path ∈ m.geoIndexes
    · by_cases hc : center.InRange
      · have hcenter : center.isValid = true := GeoPoint.isValid_iff.mpr hc
        by_cases hd : distance.value.isFinite = true ∧ 0 ≤ distance.value
        · exact .inl ⟨by simp [hg, hcenter, Distance.isValid, hd], hg, hc, hd⟩
        · have hdistance : distance.isValid = false := by simpa [Distance.isValid] using hd
          exact .inr ⟨_, by simp [hg, hcenter, hdistance], .noRadius hg hc hd⟩
      · have hcenter : center.isValid = false :=
          Bool.eq_false_iff.mpr fun h => hc (GeoPoint.isValid_iff.mp h)
        exact .inr ⟨_, by simp [hg, hcenter], .outOfRange hg hc⟩
    · exact .inr ⟨_, by simp [hg], .notGeoIndexed hg⟩

theorem Refused.not_servable (hdisjoint : ∀ path ∈ m.indexes, path ∉ m.geoIndexes) {l : Leaf}
    {x : Error} (h : l.Refused m x) : ¬l.Servable m := by
  cases h with
  | geoOnly hg => exact fun hs => hdisjoint _ hs.1 hg
  | notIndexed hg hi => exact fun hs => hi hs.1
  | noToken hg hi ht =>
    rintro ⟨-, token, hs⟩
    cases ht.symm.trans hs
  | notGeoIndexed hg => exact fun hs => hg hs.1
  | outOfRange hg hc => exact fun hs => hc hs.2.1
  | noRadius hg hc hd => exact fun hs => hd hs.2.2

theorem Refused.unique {l : Leaf} {x y : Error} (hx : l.Refused m x) (hy : l.Refused m y) :
    x = y := by
  cases hx <;> cases hy <;> first | rfl | contradiction

theorem checkLeaf_eq_ok_iff (hdisjoint : ∀ path ∈ m.indexes, path ∉ m.geoIndexes) {l : Leaf} :
    Predicate.checkLeaf m l.toPredicate = .ok () ↔ l.Servable m := by
  obtain ⟨hok, hs⟩ | ⟨x, hx, hr⟩ := checkLeaf_cases l
  · exact iff_of_true hok hs
  · refine iff_of_false (fun hok => ?_) (hr.not_servable hdisjoint)
    cases hx.symm.trans hok

theorem checkLeaf_eq_error_iff (hdisjoint : ∀ path ∈ m.indexes, path ∉ m.geoIndexes) {l : Leaf}
    {x : Error} : Predicate.checkLeaf m l.toPredicate = .error x ↔ l.Refused m x := by
  obtain ⟨hok, hs⟩ | ⟨y, hy, hr⟩ := checkLeaf_cases l
  · refine iff_of_false (fun hx => ?_) fun hr => hr.not_servable hdisjoint hs
    cases hok.symm.trans hx
  · rw [hy, Except.error.injEq]
    exact ⟨fun h => h ▸ hr, fun h => hr.unique h⟩

end Leaf

mutual

/-- A predicate is checked leaf by leaf, whatever nodes they stand under. -/
theorem Predicate.check_eq_forM (m : KeyspaceModel) (p : Predicate) :
    p.check m = p.leafList.forM fun l => checkLeaf m l.toPredicate := by
  match p with
  | .eq path value => rw [check, leafList, forM_singleton, Leaf.toPredicate]
  | .near path center distance => rw [check, leafList, forM_singleton, Leaf.toPredicate]
  | .all children => rw [check, leafList, checkEach_eq_forM m children]
  | .any children => rw [check, leafList, checkEach_eq_forM m children]

theorem Predicate.checkEach_eq_forM (m : KeyspaceModel) (ps : List Predicate) :
    checkEach m ps = (leafLists ps).forM fun l => checkLeaf m l.toPredicate := by
  match ps with
  | [] => rfl
  | p :: rest =>
    rw [checkEach, leafLists, check_eq_forM m p, checkEach_eq_forM m rest]
    refine Eq.trans ?_ List.forM_append.symm
    show _ = (List.forM p.leafList _ >>= fun _ => List.forM (leafLists rest) _)
    cases List.forM p.leafList fun l => checkLeaf m l.toPredicate <;> rfl

end

namespace Schema

/-- The query asks for things that the schema declares. -/
structure Serves (s : Schema) (q : Query) (m : KeyspaceModel) : Prop where
  declared : s.keyspace? q.keyspace = some m
  sized : ∀ r ∈ q.page, r.size ≠ 0
  leaves : ∀ f ∈ q.predicate, ∀ l ∈ f.leafList, l.Servable m

/-- The first reason against a query: its keyspace, its page, then its leaves from left to
right. -/
inductive Refuses (s : Schema) (q : Query) : Error → Prop
  | keyspace (h : s.keyspace? q.keyspace = none) : Refuses s q (.unknownKeyspace q.keyspace)
  | page {m : KeyspaceModel} {r : PageRequest} (h : s.keyspace? q.keyspace = some m)
      (hr : q.page = some r) (hsize : r.size = 0) :
    Refuses s q (.unsupportedQuery q.keyspace .emptyPage)
  | leaf {m : KeyspaceModel} {f : Predicate} {before after : List Leaf} {l : Leaf} {x : Error}
      (h : s.keyspace? q.keyspace = some m) (hsized : ∀ r ∈ q.page, r.size ≠ 0)
      (hf : q.predicate = some f) (hl : f.leafList = before ++ l :: after)
      (hbefore : ∀ l ∈ before, l.Servable m) (hx : l.Refused m x) : Refuses s q x

variable {s : Schema} {q : Query}

/-- What the leaves of a query are found to be once its keyspace and page are accepted. -/
def checkLeaves (q : Query) (m : KeyspaceModel) : Except Error Unit :=
  (q.predicate.elim [] Predicate.leafList).forM fun l => Predicate.checkLeaf m l.toPredicate

theorem plan_of_keyspace {m : KeyspaceModel} (h : s.keyspace? q.keyspace = some m)
    (hsized : ∀ r ∈ q.page, r.size ≠ 0) :
    s.plan q = (checkLeaves q m).bind fun _ => .ok ⟨m, q.predicate, q.page⟩ := by
  have hm : s.model q.keyspace = .ok m := by rw [model, h]
  have hpage : q.page.any (·.size = 0) = false := by
    cases hr : q.page with
    | none => rfl
    | some r => simpa using hsized r hr
  have hleaves : q.predicate.forM (Predicate.check m) = checkLeaves q m := by
    unfold checkLeaves
    cases q.predicate with
    | none => rfl
    | some f => exact f.check_eq_forM m
  unfold plan
  rw [hm, hpage, ← hleaves]
  rfl

theorem plan_of_emptyPage {m : KeyspaceModel} {r : PageRequest}
    (h : s.keyspace? q.keyspace = some m) (hr : q.page = some r) (hsize : r.size = 0) :
    s.plan q = .error (.unsupportedQuery q.keyspace .emptyPage) := by
  have hm : s.model q.keyspace = .ok m := by rw [model, h]
  have hpage : q.page.any (·.size = 0) = true := by simp [hr, hsize]
  unfold plan
  rw [hm, hpage]
  rfl

theorem plan_of_unknown (h : s.keyspace? q.keyspace = none) :
    s.plan q = .error (.unknownKeyspace q.keyspace) := by
  have hm : s.model q.keyspace = .error (.unknownKeyspace q.keyspace) := by rw [model, h]
  unfold plan
  rw [hm]
  rfl

theorem plan_cases (s : Schema) (q : Query) :
    (∃ m, s.plan q = .ok ⟨m, q.predicate, q.page⟩ ∧ s.Serves q m) ∨
      ∃ x, s.plan q = .error x ∧ s.Refuses q x := by
  cases h : s.keyspace? q.keyspace with
  | none => exact .inr ⟨_, plan_of_unknown h, .keyspace h⟩
  | some m =>
    by_cases hsized : ∀ r ∈ q.page, r.size ≠ 0
    · have hm : s.model q.keyspace = .ok m := by rw [model, h]
      have hdisjoint : ∀ path ∈ m.indexes, path ∉ m.geoIndexes :=
        fun path hp => not_geoIndexed_of_model hm hp
      cases hc : checkLeaves q m with
      | ok u =>
        refine .inl ⟨m, by rw [plan_of_keyspace h hsized, hc]; rfl, h, hsized, fun f hf l hl => ?_⟩
        rw [checkLeaves, hf] at hc
        exact (Leaf.checkLeaf_eq_ok_iff hdisjoint).mp (forM_eq_ok hc l hl)
      | error x =>
        refine .inr ⟨x, by rw [plan_of_keyspace h hsized, hc]; rfl, ?_⟩
        obtain ⟨before, l, after, hl, hbefore, hx⟩ := forM_eq_error_iff.mp hc
        cases hf : q.predicate with
        | none => simp [hf] at hl
        | some f =>
          rw [hf] at hl
          exact .leaf h hsized hf hl
            (fun l hl => (Leaf.checkLeaf_eq_ok_iff hdisjoint).mp (hbefore l hl))
            ((Leaf.checkLeaf_eq_error_iff hdisjoint).mp hx)
    · simp only [Option.mem_def, ne_eq, not_forall, not_not] at hsized
      obtain ⟨r, hr, hsize⟩ := hsized
      exact .inr ⟨_, plan_of_emptyPage h hr hsize, .page h hr hsize⟩

theorem Serves.plan_eq {m : KeyspaceModel} (h : s.Serves q m) :
    s.plan q = .ok ⟨m, q.predicate, q.page⟩ := by
  obtain ⟨hdeclared, hsized, hleaves⟩ := h
  have hm : s.model q.keyspace = .ok m := by rw [model, hdeclared]
  have hc : checkLeaves q m = .ok () := by
    refine forM_eq_ok_iff.mpr fun l hl => ?_
    cases hf : q.predicate with
    | none => simp [hf] at hl
    | some f =>
      rw [hf] at hl
      exact (Leaf.checkLeaf_eq_ok_iff fun _ => not_geoIndexed_of_model hm).mpr (hleaves f hf l hl)
  rw [plan_of_keyspace hdeclared hsized, hc]
  rfl

theorem Refuses.plan_eq {x : Error} (h : s.Refuses q x) : s.plan q = .error x := by
  cases h with
  | keyspace h => exact plan_of_unknown h
  | page h hr hsize => exact plan_of_emptyPage h hr hsize
  | @leaf m f before after l x h hsized hf hl hbefore hx =>
    have hm : s.model q.keyspace = .ok m := by rw [model, h]
    have hdisjoint : ∀ path ∈ m.indexes, path ∉ m.geoIndexes :=
      fun _ => not_geoIndexed_of_model hm
    have hc : checkLeaves q m = .error x := by
      refine forM_eq_error_iff.mpr ⟨before, l, after, by rw [hf]; exact hl, fun l hl => ?_, ?_⟩
      · exact (Leaf.checkLeaf_eq_ok_iff hdisjoint).mpr (hbefore l hl)
      · exact (Leaf.checkLeaf_eq_error_iff hdisjoint).mpr hx
    rw [plan_of_keyspace h hsized, hc]
    rfl

theorem plan_eq_ok_iff {p : Plan} :
    s.plan q = .ok p ↔ ∃ m, s.Serves q m ∧ p = ⟨m, q.predicate, q.page⟩ := by
  constructor
  · intro hp
    obtain ⟨m, hplan, hserves⟩ | ⟨x, hplan, -⟩ := plan_cases s q
    · exact ⟨m, hserves, Except.ok.inj (hp.symm.trans hplan)⟩
    · cases hp.symm.trans hplan
  · rintro ⟨m, hserves, rfl⟩
    exact hserves.plan_eq

theorem plan_eq_error_iff {x : Error} : s.plan q = .error x ↔ s.Refuses q x := by
  constructor
  · intro hx
    obtain ⟨m, hplan, -⟩ | ⟨y, hplan, hrefuses⟩ := plan_cases s q
    · cases hx.symm.trans hplan
    · exact Except.error.inj (hplan.symm.trans hx) ▸ hrefuses
  · exact Refuses.plan_eq

end Schema

namespace Database

variable {db : Database} {q : Query} {x : Error}

theorem executeIds_of_plan_error (hx : db.schema.plan q = .error x) (s : Engine) :
    db.executeIds q s = (.error x, s) := by
  unfold executeIds
  rw [hx]
  rfl

theorem execute_of_plan_error (hx : db.schema.plan q = .error x) (s : Engine) :
    db.execute q s = (.error x, s) := by
  unfold execute
  rw [hx]
  rfl

end Database

/-- What is stored has no say in whether a query is accepted. It is accepted just when the schema
serves it and refused with the first reason against it, before anything is called, logged or
changed. An accepted query is answered over every healthy backing store whose values can be read,
and after every history the points can be read when the records can be. -/
theorem accepted_iff_served (db : Database) (q : Query) :
    (∀ p, db.schema.plan q = .ok p ↔
      ∃ m, db.schema.Serves q m ∧ p = ⟨m, q.predicate, q.page⟩) ∧
    (∀ x, db.schema.plan q = .error x ↔ db.schema.Refuses q x) ∧
    (∀ x, db.schema.Refuses q x → ∀ s : Engine,
      db.executeIds q s = (.error x, s) ∧ db.execute q s = (.error x, s)) ∧
    (∀ m, db.schema.Serves q m → ∀ s : Engine, s.faults = Faults.none → s.content.Decodable →
      (∃ ids, (db.executeIds q s).1 = .ok ids) ∧ ∃ page, (db.execute q s).1 = .ok page) ∧
    ∀ (faults : Faults) (supply : IdSupply) (journal : Journal) (history : List (Database × Op)),
      let c := ((Tracked.fresh faults supply journal).replay history).engine.content
      (∀ keyspace id b, IsName keyspace → c.get? (Key.record keyspace id) = some b →
        ∃ r : StoredRecord, decode b = .ok r) → c.Decodable := by
  refine ⟨fun p => Schema.plan_eq_ok_iff, fun x => Schema.plan_eq_error_iff, ?refused, ?answered,
    ?replayed⟩
  case refused =>
    intro x hx s
    have hplan := Schema.plan_eq_error_iff.mpr hx
    exact ⟨Database.executeIds_of_plan_error hplan s, Database.execute_of_plan_error hplan s⟩
  case answered =>
    intro m hm s hs hc
    have hplan := Schema.plan_eq_ok_iff.mpr ⟨m, hm, rfl⟩
    obtain ⟨ids, hids⟩ := hc.executeIds hplan
    obtain ⟨page, hpage⟩ := hc.execute hplan
    exact ⟨⟨ids, ((db.reading_executeIds q).healthy s hs).trans hids⟩,
      page, ((db.reading_execute q).healthy s hs).trans hpage⟩
  case replayed =>
    intro faults supply journal history c hr
    have hconsistent : Consistent c _ := Tracked.consistent_replay faults supply journal history
    exact hconsistent.decodable (fun {keyspace id b} => hr keyspace id b)

/-- A leaf that cannot be served is refused although the leaf before it finds nothing, and what
one save leaves is searched without an error. -/
theorem refused_behind_empty_leaf :
    let db : Database := .indexing ["f"] rfl
    let t := (Tracked.fresh Faults.none .none []).replay [(db, .save OrderedEntity.sample)]
    let s : Engine := .holding t.engine.content
    (db.execute (.filtered "k" (.all [.eq "f" (.text "y"), .eq "g" .null])) s) =
        (.error (.unsupportedQuery "k" (.notIndexed "g")), s) ∧
      ∃ page, (db.execute (.filtered "k" (.eq "f" (.text "x"))) s).1 = .ok page := by
  intro db t s
  obtain ⟨-, -, hrefused, -, -⟩ :=
    accepted_iff_served db (.filtered "k" (.all [.eq "f" (.text "y"), .eq "g" .null]))
  obtain ⟨-, -, -, hanswered, hreplayed⟩ :=
    accepted_iff_served db (.filtered "k" (.eq "f" (.text "x")))
  have hentities : t.entities = Entities.empty.put "k" "1" [("f", .text "x")] := rfl
  have hreadable : decode (payload (StoredRecord.mk [("f", .text "x")])) =
      .ok (StoredRecord.mk [("f", .text "x")]) :=
    StoredRecord.decode_payload (OrderedEntity.sample.property) (by decide +kernel)
  have hc : t.engine.content.Decodable := by
    refine hreplayed Faults.none .none [] _ fun keyspace id b hk hb => ?_
    have hconsistent : Consistent t.engine.content t.entities :=
      Tracked.consistent_replay Faults.none .none [] _
    rw [hconsistent.get?_record hk, hentities, Entities.get?_put] at hb
    split at hb
    · cases hb
      exact ⟨_, hreadable⟩
    · cases hb
  let m : KeyspaceModel := ⟨"k", ["f"], [], []⟩
  have hy : (Leaf.eq "f" (.text "y")).Servable m := ⟨by decide, _, rfl⟩
  have hx : (Leaf.eq "f" (.text "x")).Servable m := ⟨by decide, _, rfl⟩
  have hg : (Leaf.eq "g" .null).Refused m (.unsupportedQuery "k" (.notIndexed "g")) :=
    .notIndexed (by decide) (by decide)
  have hunpaged : ∀ r ∈ (none : Option PageRequest), r.size ≠ 0 := by simp
  refine ⟨(hrefused _ (.leaf rfl hunpaged rfl rfl (List.forall_mem_singleton.mpr hy) hg) s).2,
    (hanswered m ⟨rfl, hunpaged, fun f hf l hl => ?_⟩ s rfl hc).2⟩
  cases hf
  cases List.mem_singleton.mp hl
  exact hx

end IndexedStore
