import IndexedStore.Proofs.Query.Answer

/-! # Queries as set algebra

The operators and the steps by which a query is put together take a predicate into a node of
the same kind on their left. Main statement: the result is the intersection or union of the
single results all the same, since whatever an index finds is a live id.
-/
namespace IndexedStore

namespace Predicate

theorem allHold_append (l : Leaves) (ps qs : List Predicate) :
    allHold l (ps ++ qs) = (allHold l ps && allHold l qs) := by
  induction ps with
  | nil => rfl
  | cons p ps ih => rw [List.cons_append, allHold, allHold, ih, Bool.and_assoc]

theorem anyHolds_append (l : Leaves) (ps qs : List Predicate) :
    anyHolds l (ps ++ qs) = (anyHolds l ps || anyHolds l qs) := by
  induction ps with
  | nil => rfl
  | cons p ps ih => rw [List.cons_append, anyHolds, anyHolds, ih, Bool.or_assoc]

theorem leafCounts_append (ps qs : List Predicate) :
    leafCounts (ps ++ qs) = leafCounts ps + leafCounts qs := by
  induction ps with
  | nil => exact (Nat.zero_add _).symm
  | cons p ps ih => rw [List.cons_append, leafCounts, leafCounts, ih, Nat.add_assoc]

theorem check_all (m : KeyspaceModel) (children : List Predicate) :
    (all children).check m = checkEach m children := by
  rw [check]

theorem check_any (m : KeyspaceModel) (children : List Predicate) :
    (any children).check m = checkEach m children := by
  rw [check]

theorem checkEach_append {m : KeyspaceModel} {ps qs : List Predicate} :
    checkEach m (ps ++ qs) = .ok () ↔ checkEach m ps = .ok () ∧ checkEach m qs = .ok () := by
  induction ps with
  | nil => simp [checkEach]
  | cons p ps ih =>
    rw [List.cons_append, checkEach, checkEach]
    cases p.check m with
    | error e => simp
    | ok => exact ih

theorem checkEach_pair {m : KeyspaceModel} {p q : Predicate} :
    checkEach m [p, q] = .ok () ↔ p.check m = .ok () ∧ q.check m = .ok () := by
  simp only [checkEach]
  cases p.check m <;> cases q.check m <;> simp

theorem checkEach_singleton {m : KeyspaceModel} {p : Predicate} :
    checkEach m [p] = .ok () ↔ p.check m = .ok () := by
  simp only [checkEach]
  cases p.check m <;> simp

theorem holds_and (l : Leaves) (p q : Predicate) :
    (p &&& q).holds l = (p.holds l && q.holds l) := by
  change (p.and q).holds l = _
  cases p with
  | all children => simp [and, holds, allHold_append, allHold]
  | _ => simp [and, holds, allHold]

theorem holds_or (l : Leaves) (p q : Predicate) :
    (p ||| q).holds l = (p.holds l || q.holds l) := by
  change (p.or q).holds l = _
  cases p with
  | any children => simp [or, holds, anyHolds_append, anyHolds]
  | _ => simp [or, holds, anyHolds]

theorem leafCount_and (p q : Predicate) : (p &&& q).leafCount = p.leafCount + q.leafCount := by
  change (p.and q).leafCount = _
  cases p with
  | all children => simp [and, leafCount, leafCounts_append, leafCounts]
  | _ => simp [and, leafCount, leafCounts]

theorem leafCount_or (p q : Predicate) : (p ||| q).leafCount = p.leafCount + q.leafCount := by
  change (p.or q).leafCount = _
  cases p with
  | any children => simp [or, leafCount, leafCounts_append, leafCounts]
  | _ => simp [or, leafCount, leafCounts]

theorem check_and {m : KeyspaceModel} {p q : Predicate} :
    (p &&& q).check m = .ok () ↔ p.check m = .ok () ∧ q.check m = .ok () := by
  change (p.and q).check m = .ok () ↔ _
  cases p with
  | all children => rw [and, check_all, checkEach_append, checkEach_singleton, check_all]
  | _ => exact checkEach_pair

theorem check_or {m : KeyspaceModel} {p q : Predicate} :
    (p ||| q).check m = .ok () ↔ p.check m = .ok () ∧ q.check m = .ok () := by
  change (p.or q).check m = .ok () ↔ _
  cases p with
  | any children => rw [or, check_any, checkEach_append, checkEach_singleton, check_any]
  | _ => exact checkEach_pair

end Predicate

namespace Query

/-- A step by which a query is put together. -/
inductive Step where
  | filter (p : Predicate)
  | and (p : Predicate)
  | or (p : Predicate)
  | near (field : String) (center : GeoPoint) (distance : Distance)

namespace Step

def predicate : Step → Predicate
  | filter p | and p | or p => p
  | near field center distance => .near field center distance

def apply (q : Query) : Step → Query
  | filter p => q.filter p
  | and p => q.and p
  | or p => q.or p
  | near field center distance => q.near field center distance

def combine (found own : TextSet) : Step → TextSet
  | or _ => Dict.union found own
  | _ => found.inter own

def join (p : Predicate) : Step → Predicate
  | or q => p ||| q
  | s => p &&& s.predicate

/-- The results of the steps from the left; the first one stands alone, and without any step
it is `every`. -/
def fold (every : TextSet) (found : Predicate → TextSet) : List Step → TextSet
  | [] => every
  | s :: rest => rest.foldl (fun ids s => s.combine ids (found s.predicate)) (found s.predicate)

theorem apply_every (keyspace : String) (s : Step) :
    s.apply (.every keyspace) = .filtered keyspace s.predicate := by
  cases s <;> rfl

theorem foldl_apply (keyspace : String) (steps : List Step) (p : Predicate) :
    steps.foldl apply (.filtered keyspace p) = .filtered keyspace (steps.foldl join p) := by
  induction steps generalizing p with
  | nil => rfl
  | cons s rest ih =>
    have hs : s.apply (.filtered keyspace p) = .filtered keyspace (s.join p) := by
      cases s <;> rfl
    rw [List.foldl_cons, List.foldl_cons, hs, ih]

end Step

def built (keyspace : String) (steps : List Step) : Query :=
  steps.foldl Step.apply (.every keyspace)

theorem built_cons (keyspace : String) (s : Step) (rest : List Step) :
    built keyspace (s :: rest) = .filtered keyspace (rest.foldl Step.join s.predicate) := by
  rw [built, List.foldl_cons, Step.apply_every, Step.foldl_apply]

namespace Step

theorem leafCount_join (p : Predicate) (s : Step) :
    (s.join p).leafCount = p.leafCount + s.predicate.leafCount := by
  cases s with
  | or q => exact Predicate.leafCount_or p q
  | _ => exact Predicate.leafCount_and p _

theorem check_join {m : KeyspaceModel} {p : Predicate} {s : Step} :
    (s.join p).check m = .ok () ↔ p.check m = .ok () ∧ s.predicate.check m = .ok () := by
  cases s with
  | or q => exact Predicate.check_or
  | _ => exact Predicate.check_and

theorem leafCount_foldl_join (steps : List Step) (p : Predicate) :
    (steps.foldl join p).leafCount =
      p.leafCount + (steps.map fun s => s.predicate.leafCount).sum := by
  induction steps generalizing p with
  | nil => rfl
  | cons s rest ih =>
    rw [List.foldl_cons, ih, leafCount_join, List.map_cons, List.sum_cons, Nat.add_assoc]

theorem check_foldl_join {m : KeyspaceModel} {steps : List Step} {p : Predicate}
    (hp : p.check m = .ok ()) (hs : ∀ s ∈ steps, s.predicate.check m = .ok ()) :
    (steps.foldl join p).check m = .ok () := by
  induction steps generalizing p with
  | nil => exact hp
  | cons s rest ih =>
    obtain ⟨hs, hrest⟩ := List.forall_mem_cons.mp hs
    exact ih (check_join.mpr ⟨hp, hs⟩) hrest

end Step

end Query

def Schema.Plans (s : Schema) (q : Query) : Prop := ∃ p, s.plan q = .ok p

theorem Schema.plans_every {s : Schema} {keyspace : String} {m : KeyspaceModel}
    (hm : s.model keyspace = .ok m) : s.Plans (.every keyspace) := by
  refine ⟨⟨m, none, none⟩, ?_⟩
  unfold plan Query.every
  rw [hm]
  rfl

theorem Schema.plans_filtered {s : Schema} {keyspace : String} {m : KeyspaceModel}
    (hm : s.model keyspace = .ok m) {p : Predicate} :
    s.Plans (.filtered keyspace p) ↔ p.check m = .ok () := by
  have hplan : s.plan (.filtered keyspace p) =
      (p.check m).bind fun _ => .ok ⟨m, some p, none⟩ := by
    unfold plan Query.filtered
    rw [hm]
    rfl
  unfold Plans
  rw [hplan]
  cases p.check m <;> simp [Except.bind]

def IdPage.whole (ids : TextSet) : IdPage := ⟨ids.keys, UInt64.ofNat ids.size⟩

/-- The live ids whose index entries satisfy the predicate. -/
def Entities.found (d : Entities) (c : Content) (keyspace : String) (p : Predicate) : TextSet :=
  d.matching keyspace fun id => p.holds (c.leaves keyspace id)

namespace Entities

variable {d : Entities} {c : Content} {keyspace : String}

theorem found_and (p q : Predicate) :
    d.found c keyspace (p &&& q) = (d.found c keyspace p).inter (d.found c keyspace q) := by
  rw [found, found, found, inter_matching]
  simp only [Predicate.holds_and]

theorem found_or (p q : Predicate) :
    d.found c keyspace (p ||| q) = Dict.union (d.found c keyspace p) (d.found c keyspace q) := by
  rw [found, found, found, union_matching]
  simp only [Predicate.holds_or]

theorem found_join (p : Predicate) (s : Query.Step) :
    d.found c keyspace (s.join p) =
      s.combine (d.found c keyspace p) (d.found c keyspace s.predicate) := by
  cases s with
  | or q => exact found_or p q
  | _ => exact found_and p _

theorem found_foldl_join (steps : List Query.Step) (p : Predicate) :
    d.found c keyspace (steps.foldl Query.Step.join p) =
      steps.foldl (fun ids s => s.combine ids (d.found c keyspace s.predicate))
        (d.found c keyspace p) := by
  induction steps generalizing p with
  | nil => rfl
  | cons s rest ih => rw [List.foldl_cons, List.foldl_cons, ih, found_join]

end Entities

namespace Consistent

variable {c : Content} {d : Entities} {db : Database} {keyspace : String}

theorem on_executeIds_whole (h : Consistent c d) {q : Query} (hp : db.schema.Plans q)
    (hpage : q.page = none) : (db.executeIds q).on c =
      .ok (.whole (d.matching q.keyspace fun id => q.holds (c.leaves q.keyspace id))) := by
  obtain ⟨p, hp⟩ := hp
  rw [h.on_executeIds hp, IdPage.whole, Entities.keys_matching, ← Dict.length_keys,
    Entities.keys_matching, Query.sliced, hpage]

theorem on_executeIds_filtered (h : Consistent c d) {p : Predicate}
    (hp : db.schema.Plans (.filtered keyspace p)) :
    (db.executeIds (.filtered keyspace p)).on c = .ok (.whole (d.found c keyspace p)) :=
  h.on_executeIds_whole hp rfl

/-- A query that was put together gives the fold of the results of its steps. -/
theorem on_executeIds_built (h : Consistent c d) {m : KeyspaceModel}
    (hm : db.schema.model keyspace = .ok m) {steps : List Query.Step}
    (hs : ∀ s ∈ steps, db.schema.Plans (.filtered keyspace s.predicate)) :
    (db.executeIds (.built keyspace steps)).on c =
      .ok (.whole (Query.Step.fold (TextSet.ofTexts (d keyspace).keys)
        (d.found c keyspace) steps)) := by
  simp only [Schema.plans_filtered hm] at hs
  cases steps with
  | nil =>
    have hall : TextSet.ofTexts (d keyspace).keys = d.matching keyspace fun _ => true := by
      rw [Entities.matching, List.filter_true]
    rw [Query.Step.fold, hall]
    exact h.on_executeIds_whole (Schema.plans_every hm) rfl
  | cons s rest =>
    obtain ⟨hs, hrest⟩ := List.forall_mem_cons.mp hs
    have hplans := (Schema.plans_filtered hm).mpr (Query.Step.check_foldl_join hs hrest)
    rw [Query.built_cons, h.on_executeIds_filtered hplans, Entities.found_foldl_join,
      Query.Step.fold]

end Consistent

/-- After every history there is one result for each predicate, such that over a healthy
backing store every predicate that is accepted gives its own, the operators give
intersections and unions, and a query put together by steps gives the fold of their results
from the left: the first alone, then intersections and unions, and every live id without any
step. Leaves add up throughout. -/
theorem built_query_folds (faults : Faults) (supply : IdSupply) (journal : Journal)
    (history : List (Database × Op)) (db : Database) (keyspace : String) (m : KeyspaceModel)
    (hm : db.schema.model keyspace = .ok m) :
    let t := (Tracked.fresh faults supply journal).replay history
    let plans (p : Predicate) := db.schema.Plans (.filtered keyspace p)
    ∃ found : Predicate → TextSet,
      (∀ s : Engine, s.content = t.engine.content → s.faults = Faults.none →
        (∀ p, plans p → (db.executeIds (.filtered keyspace p) s).1 = .ok (.whole (found p))) ∧
        (∀ p q, plans p → plans q →
          (db.executeIds (.filtered keyspace (p &&& q)) s).1 =
            .ok (.whole ((found p).inter (found q))) ∧
          (db.executeIds (.filtered keyspace (p ||| q)) s).1 =
            .ok (.whole (Dict.union (found p) (found q)))) ∧
        ∀ steps : List Query.Step, (∀ s ∈ steps, plans s.predicate) →
          (db.executeIds (.built keyspace steps) s).1 =
            .ok (.whole (Query.Step.fold (TextSet.ofTexts (t.entities keyspace).keys) found
              steps))) ∧
      (∀ p q : Predicate, (p &&& q).leafCount = p.leafCount + q.leafCount ∧
        (p ||| q).leafCount = p.leafCount + q.leafCount) ∧
      ∀ steps : List Query.Step, (Query.built keyspace steps).predicate.elim 0
        Predicate.leafCount = (steps.map fun s => s.predicate.leafCount).sum := by
  intro t plans
  have h : Consistent t.engine.content t.entities :=
    Tracked.consistent_replay faults supply journal history
  refine ⟨t.entities.found t.engine.content keyspace, ?_, ?_, ?_⟩
  · intro s hs hhealthy
    have hrun := fun q => (db.reading_executeIds q).healthy s hhealthy
    rw [hs] at hrun
    simp only [hrun]
    refine ⟨fun p hp => h.on_executeIds_filtered hp, fun p q hp hq => ?_,
      fun steps hsteps => h.on_executeIds_built hm hsteps⟩
    have hboth : p.check m = .ok () ∧ q.check m = .ok () :=
      ⟨(Schema.plans_filtered hm).mp hp, (Schema.plans_filtered hm).mp hq⟩
    rw [← Entities.found_and, ← Entities.found_or]
    exact ⟨h.on_executeIds_filtered ((Schema.plans_filtered hm).mpr
        (Predicate.check_and.mpr hboth)),
      h.on_executeIds_filtered ((Schema.plans_filtered hm).mpr (Predicate.check_or.mpr hboth))⟩
  · exact fun p q => ⟨Predicate.leafCount_and p q, Predicate.leafCount_or p q⟩
  · intro steps
    cases steps with
    | nil => rfl
    | cons s rest =>
      rw [Query.built_cons, List.map_cons, List.sum_cons]
      exact Query.Step.leafCount_foldl_join rest s.predicate

/-- A step joined to the empty conjunction is intersected with every live id. -/
theorem steps_from_everything :
    let db : Database := .indexing ["f"] rfl
    let t := (Tracked.fresh Faults.none .none []).replay [(db, .save OrderedEntity.sample)]
    let s : Engine := .holding t.engine.content
    ∃ every own : TextSet,
      (db.executeIds (.filtered "k" (.all [])) s).1 = .ok (.whole every) ∧ every.keys = ["1"] ∧
      (db.executeIds (.filtered "k" (.eq "f" (.text "x"))) s).1 = .ok (.whole own) ∧
      (db.executeIds (.built "k" [.filter (.all []), .and (.eq "f" (.text "x"))]) s).1 =
        .ok (.whole (every.inter own)) := by
  intro db t s
  obtain ⟨found, hfound, -⟩ := built_query_folds Faults.none .none []
    [(db, .save OrderedEntity.sample)] db "k" ⟨"k", ["f"], [], []⟩ rfl
  obtain ⟨hown, -, hsteps⟩ := hfound s rfl rfl
  have hall := hown (.all []) ⟨_, rfl⟩
  have hids : (db.executeIds (.filtered "k" (.all [])) s).1.toOption =
      some ⟨["1"], 1⟩ := by decide +kernel
  refine ⟨_, _, hall, ?_, hown (.eq "f" (.text "x")) ⟨_, rfl⟩, ?_⟩
  · rw [hall] at hids
    exact congrArg IdPage.ids (Option.some.inj hids)
  · refine hsteps [.filter (.all []), .and (.eq "f" (.text "x"))] ?_
    exact List.forall_mem_cons.mpr ⟨⟨_, rfl⟩, List.forall_mem_singleton.mpr ⟨_, rfl⟩⟩

end IndexedStore
