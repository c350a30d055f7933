import IndexedStore.Proofs.Entity.Path
import IndexedStore.Proofs.Schema.Names

/-! # Accepted schemas

What a list of models has to satisfy is said of the models alone. Main statement: exactly the
well-formed lists are accepted, in whatever order the models are listed; the order decides only
which of several models of one name is reported.
-/
namespace IndexedStore

/-- The name can stand between separators and dots. -/
def Path.Usable (name : String) : Prop := name ≠ "" ∧ ':' ∉ name.toList

namespace KeyspaceModel

/-- What a model has to satisfy beside the models that declare its targets. -/
structure WellFormed (m : KeyspaceModel) (declared : String → Prop) : Prop where
  named : Path.Usable m.name
  paths : ∀ path ∈ m.indexes ++ m.geoIndexes, ∀ names, Path.Splits path names →
    names.length ≤ 8 ∧ ∀ name ∈ names, Path.Usable name
  apart : ∀ path ∈ m.indexes, path ∉ m.geoIndexes
  references : ∀ r ∈ m.references, Path.Usable r.field ∧ declared r.target
  direct : ∀ path ∈ m.indexes ++ m.geoIndexes, ∀ names, Path.Splits path names →
    1 < names.length → ∀ r ∈ m.references, names.head? ≠ some r.field

variable {m : KeyspaceModel}

theorem referenceFor?_eq_none {field : String} :
    m.referenceFor? field = none ↔ ∀ r ∈ m.references, r.field ≠ field := by
  simp [referenceFor?]

theorem checkPath_eq_ok_iff {path : String} {names : List String} (h : Path.Splits path names) :
    m.checkPath path = .ok () ↔
      (names.length ≤ 8 ∧ ∀ name ∈ names, Path.Usable name) ∧
        (1 < names.length → ∀ r ∈ m.references, names.head? ≠ some r.field) := by
  have hfault : (decide (Path.maxDepth < names.length) || !names.all Path.isValidSegment) = true ↔
      ¬(names.length ≤ 8 ∧ ∀ name ∈ names, Path.Usable name) := by
    have hvalid : names.all Path.isValidSegment = true ↔ ∀ name ∈ names, Path.Usable name := by
      simp [Path.isValidSegment_iff, Path.Usable]
    rw [← hvalid, Bool.or_eq_true, decide_eq_true_eq, Bool.not_eq_true', Path.maxDepth]
    cases names.all Path.isValidSegment <;> simp
  unfold checkPath
  rw [Path.splits_iff.mp h]
  by_cases hpath : names.length ≤ 8 ∧ ∀ name ∈ names, Path.Usable name
  · rw [if_neg (fun h => hfault.mp h hpath), and_iff_right hpath]
    cases names with
    | nil => simp
    | cons first rest =>
      cases rest with
      | nil => simp
      | cons second rest =>
        have hfirst : m.referenceFor? first = none ↔
            ∀ r ∈ m.references, (first :: second :: rest).head? ≠ some r.field := by
          simp [referenceFor?_eq_none, ne_comm]
        rw [← hfirst]
        cases hr : m.referenceFor? first <;> simp [hr]
  · rw [if_pos (hfault.mpr hpath)]
    exact iff_of_false (fun h => by cases h) fun h => hpath h.1

theorem check_eq_ok_iff_wellFormed {declared : String → Bool} :
    m.check declared = .ok () ↔ m.WellFormed fun name => declared name = true := by
  have hpaths : (m.indexes ++ m.geoIndexes).forM m.checkPath = .ok () ↔
      ∀ path ∈ m.indexes ++ m.geoIndexes, ∀ names, Path.Splits path names →
        (names.length ≤ 8 ∧ ∀ name ∈ names, Path.Usable name) ∧
          (1 < names.length → ∀ r ∈ m.references, names.head? ≠ some r.field) := by
    rw [forM_eq_ok_iff]
    refine forall₂_congr fun path _ => ⟨fun h names hs => (checkPath_eq_ok_iff hs).mp h, fun h => ?_⟩
    have hs := Path.splits_segments path
    exact (checkPath_eq_ok_iff hs).mpr (h _ hs)
  rw [check_eq_ok_iff, Path.isValidSegment_iff, hpaths, List.find?_eq_none, forM_eq_ok_iff]
  simp only [checkReference_eq_ok_iff, Path.isValidSegment_iff, isGeoIndexed,
    List.contains_eq_mem, decide_eq_true_eq]
  constructor
  · rintro ⟨hn, hp, ha, hr⟩
    exact ⟨hn, fun path hm names hs => (hp path hm names hs).1, ha, hr,
      fun path hm names hs => (hp path hm names hs).2⟩
  · intro h
    exact ⟨h.named, fun path hm names hs => ⟨h.paths path hm names hs, h.direct path hm names hs⟩,
      h.apart, h.references⟩

end KeyspaceModel

namespace Schema

/-- What a list of models has to satisfy. -/
structure WellFormed (models : List KeyspaceModel) : Prop where
  distinct : (models.map KeyspaceModel.name).Nodup
  each : ∀ m ∈ models, m.WellFormed fun name => ∃ target ∈ models, target.name = name

/-- The models by name. -/
def entered (models : List KeyspaceModel) : Dict KeyspaceModel :=
  Dict.ofList (models.map fun m => (m.name, m))

variable {models models' : List KeyspaceModel} {d : Dict KeyspaceModel} {s : Schema}

theorem get?_entered (h : (models.map KeyspaceModel.name).Nodup) (name : String)
    (m : KeyspaceModel) : (entered models).get? name = some m ↔ m ∈ models ∧ m.name = name := by
  have hpair : ∀ k m, (k, m) ∈ models.map (fun m => (m.name, m)) ↔ m ∈ models ∧ m.name = k := by
    intro k m
    simp [and_comm, eq_comm]
  have hone : ∀ k b c, (k, b) ∈ models.map (fun m => (m.name, m)) →
      (k, c) ∈ models.map (fun m => (m.name, m)) → b = c := by
    intro k b c hb hc
    rw [hpair] at hb hc
    exact List.inj_on_of_nodup_map h hb.1 hc.1 (hb.2.trans hc.2.symm)
  rw [entered, Dict.get?_ofList hone, hpair]

theorem collect_eq_ok_iff {d' : Dict KeyspaceModel} : collect models d = .ok d' ↔
    ((models.map KeyspaceModel.name).Nodup ∧ ∀ m ∈ models, d.contains m.name = false) ∧
      models.foldl (fun d m => d.insert m.name m) d = d' := by
  induction models generalizing d with
  | nil => simp [collect]
  | cons m models ih =>
    rw [collect]
    cases hm : d.contains m.name with
    | true => simp [hm]
    | false =>
      have hnew : (∀ m' ∈ models, (d.insert m.name m).contains m'.name = false) ↔
          m.name ∉ models.map KeyspaceModel.name ∧ ∀ m' ∈ models, d.contains m'.name = false := by
        simp [Dict.contains_insert, forall_and, ne_comm]
      simp only [Bool.false_eq_true, if_false, ih, hnew, List.map_cons, List.nodup_cons,
        List.forall_mem_cons, hm, true_and, List.foldl_cons]
      tauto

theorem collect_empty_eq_ok_iff : collect models Dict.empty = .ok d ↔
    (models.map KeyspaceModel.name).Nodup ∧ entered models = d := by
  rw [collect_eq_ok_iff, entered, Dict.ofList_eq_foldl, List.foldl_map]
  simp [Dict.contains, Dict.get?_empty]

/-- What the check of the collected models says decides about the list. -/
theorem ofModels_of_collect (hc : collect models Dict.empty = .ok d) :
    (∃ s, ofModels models = .ok s ∧ s.keyspaces = d ∧ KeyspaceModel.checkAll d = .ok ()) ∨
      ∃ x, ofModels models = .error x ∧ KeyspaceModel.checkAll d = .error x := by
  unfold ofModels
  split
  · rename_i hc'
    cases hc.symm.trans hc'
  · rename_i d' hc'
    cases hc.symm.trans hc'
    split
    · rename_i x hx
      exact .inr ⟨x, rfl, hx⟩
    · rename_i hx
      exact .inl ⟨_, rfl, rfl, hx⟩

theorem exists_error_of_repeated (h : ¬(models.map KeyspaceModel.name).Nodup) :
    ∃ x, ofModels models = .error x := by
  unfold ofModels
  split
  · exact ⟨_, rfl⟩
  · rename_i d hc
    exact absurd (collect_empty_eq_ok_iff.mp hc).1 h

section Distinct

variable (h : (models.map KeyspaceModel.name).Nodup)
include h

theorem contains_entered (name : String) :
    (entered models).contains name = true ↔ ∃ target ∈ models, target.name = name := by
  simp [Dict.contains_eq_true, get?_entered h]

theorem mem_values_entered (m : KeyspaceModel) : m ∈ (entered models).values ↔ m ∈ models := by
  rw [Dict.values, List.mem_map]
  simp [Dict.mem_entries, get?_entered h]

theorem checkAll_entered : KeyspaceModel.checkAll (entered models) = .ok () ↔
    ∀ m ∈ models, m.WellFormed fun name => ∃ target ∈ models, target.name = name := by
  rw [KeyspaceModel.checkAll, forM_eq_ok_iff]
  simp only [mem_values_entered h, KeyspaceModel.check_eq_ok_iff_wellFormed, contains_entered h]

theorem entered_perm (hperm : models.Perm models') : entered models = entered models' := by
  have h' := (hperm.map KeyspaceModel.name).nodup_iff.mp h
  refine Dict.ext_get? fun name => Option.ext fun m => ?_
  rw [get?_entered h, get?_entered h', hperm.mem_iff]

theorem ofModels_perm (hperm : models.Perm models') : ofModels models' = ofModels models := by
  have h' := (hperm.map KeyspaceModel.name).nodup_iff.mp h
  have hc := collect_empty_eq_ok_iff.mpr ⟨h, rfl⟩
  have hc' := collect_empty_eq_ok_iff.mpr ⟨h', (entered_perm h hperm).symm⟩
  obtain ⟨⟨d, _, _⟩, hs, rfl, hok⟩ | ⟨x, hx, herror⟩ := ofModels_of_collect hc <;>
  obtain ⟨⟨d', _, _⟩, hs', rfl, hok'⟩ | ⟨x', hx', herror'⟩ := ofModels_of_collect hc'
  · rw [hs, hs']
  · cases hok.symm.trans herror'
  · cases hok'.symm.trans herror
  · cases herror.symm.trans herror'
    rw [hx, hx']

end Distinct

theorem exists_ofModels_iff : (∃ s, ofModels models = .ok s) ↔ WellFormed models := by
  by_cases h : (models.map KeyspaceModel.name).Nodup
  · have hc := collect_empty_eq_ok_iff.mpr ⟨h, rfl⟩
    obtain ⟨s, hs, -, hok⟩ | ⟨x, hx, herror⟩ := ofModels_of_collect hc
    · exact iff_of_true ⟨s, hs⟩ ⟨h, (checkAll_entered h).mp hok⟩
    · refine iff_of_false (fun ⟨s, hs⟩ => by cases hs.symm.trans hx) fun hw => ?_
      cases herror.symm.trans ((checkAll_entered h).mpr hw.each)
  · obtain ⟨x, hx⟩ := exists_error_of_repeated h
    exact iff_of_false (fun ⟨s, hs⟩ => by cases hs.symm.trans hx) fun hw => h hw.distinct

theorem keyspace?_of_ofModels (h : ofModels models = .ok s) (name : String) (m : KeyspaceModel) :
    s.keyspace? name = some m ↔ m ∈ models ∧ m.name = name := by
  have hd := (exists_ofModels_iff.mp ⟨s, h⟩).distinct
  obtain ⟨s', hs', hkeyspaces, -⟩ | ⟨x, hx, -⟩ :=
    ofModels_of_collect (collect_empty_eq_ok_iff.mpr ⟨hd, rfl⟩)
  · cases h.symm.trans hs'
    rw [keyspace?, hkeyspaces, get?_entered hd]
  · cases h.symm.trans hx

/-- The bound on the names that are followed cuts no declared path short. -/
theorem getPath?_of_declared (h : ofModels models = .ok s) {m : KeyspaceModel} (hm : m ∈ models)
    {path : String} (hpath : path ∈ m.indexes ++ m.geoIndexes) {names : List String}
    (hnames : Path.Splits path names) (e : Entity) (v : Value) :
    e.getPath? path = some v ↔ e.Reaches names v := by
  have hlength : names.length ≤ Path.maxDepth :=
    (((exists_ofModels_iff.mp ⟨s, h⟩).each m hm).paths path hpath names hnames).1
  rw [e.getPath?_eq_some_iff hnames, List.take_of_length_le hlength]

/-- For every list of models: it is accepted exactly when it is well-formed, and the schema then
has each of its models under its name. Another order of the list gets the same verdict and the
same schema, and when no name comes twice also the same error. -/
theorem accepted_iff_wellFormed (models : List KeyspaceModel) :
    ((∃ s, ofModels models = .ok s) ↔ WellFormed models) ∧
    (∀ s, ofModels models = .ok s →
      ∀ name m, s.keyspace? name = some m ↔ m ∈ models ∧ m.name = name) ∧
    ∀ models', models.Perm models' →
      ((∃ s, ofModels models' = .ok s) ↔ ∃ s, ofModels models = .ok s) ∧
      (∀ s, ofModels models = .ok s → ofModels models' = .ok s) ∧
      ((models.map KeyspaceModel.name).Nodup → ofModels models' = ofModels models) := by
  refine ⟨exists_ofModels_iff, fun s => keyspace?_of_ofModels, fun models' hperm => ?_⟩
  by_cases h : (models.map KeyspaceModel.name).Nodup
  · rw [ofModels_perm h hperm]
    exact ⟨Iff.rfl, fun s hs => hs, fun _ => rfl⟩
  · obtain ⟨x, hx⟩ := exists_error_of_repeated h
    obtain ⟨x', hx'⟩ :=
      exists_error_of_repeated (mt (hperm.map KeyspaceModel.name).nodup_iff.mpr h)
    simp [hx, hx', h]

/-- A reference to a model that is declared behind it is accepted, in either order. -/
theorem target_declared_behind :
    let person : KeyspaceModel := ⟨"person", ["city"], ["home.location"], [⟨"city", "city"⟩]⟩
    let city : KeyspaceModel := ⟨"city", [], ["location"], []⟩
    [person, city].Perm [city, person] ∧ WellFormed [person, city] ∧
      ∃ s, ofModels [person, city] = .ok s ∧ ofModels [city, person] = .ok s ∧
        s.keyspace? "city" = some city := by
  intro person city
  have hperm : [person, city].Perm [city, person] := .swap city person []
  obtain ⟨haccepted, hfound, horder⟩ := accepted_iff_wellFormed [person, city]
  have hok : (ofModels [person, city]).isOk = true := by decide +kernel
  cases hs : ofModels [person, city] with
  | error x =>
    rw [hs] at hok
    cases hok
  | ok s =>
    exact ⟨hperm, haccepted.mp ⟨s, hs⟩, s, rfl, (horder _ hperm).2.1 s hs,
      (hfound s hs "city" city).mpr ⟨by simp, rfl⟩⟩

end Schema

end IndexedStore
