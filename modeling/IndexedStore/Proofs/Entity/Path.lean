import IndexedStore.Proofs.Entity.Points

/-! # Dotted paths

A path is a row of names between dots. The names are followed from the fields of an entity into
nested records, one after another, but no more than `Path.maxDepth` of them. Main statement: a
path of at most so many names leads exactly where all its names lead, and one more name leads on
to the child of that name.
-/
namespace IndexedStore

namespace Path

/-- The names are what stands between the dots of the path. -/
structure Splits (path : String) (names : List String) : Prop where
  joined : ".".intercalate names = path
  nonempty : names ≠ []
  dotless : ∀ name ∈ names, '.' ∉ name.toList

theorem splitDots_eq_splitOn (cs : List Char) : splitDots cs = cs.splitOn '.' := by
  induction cs with
  | nil => rfl
  | cons c cs ih =>
    rw [splitDots, ih, List.splitOn_cons_eq_if_modifyHead]
    cases hs : cs.splitOn '.' with
    | nil => exact absurd hs (List.splitOn_ne_nil '.' cs)
    | cons s rest => by_cases hc : c = '.' <;> simp [hc]

theorem dot_not_mem_of_splitDots (cs : List Char) : ∀ s ∈ splitDots cs, '.' ∉ s := by
  induction cs with
  | nil => simp [splitDots]
  | cons c cs ih =>
    rw [splitDots]
    cases hs : splitDots cs with
    | nil => exact absurd hs (splitDots_ne_nil cs)
    | cons s rest =>
      rw [hs] at ih
      by_cases hc : c = '.'
      · simpa [hc] using ih
      · simpa [hc, Ne.symm hc] using ih

theorem map_toList_segments (path : String) :
    (segments path).map String.toList = path.toList.splitOn '.' := by
  simp [segments, splitDots_eq_splitOn]

theorem splits_segments (path : String) : Splits path (segments path) where
  joined := by
    rw [← String.toList_inj, String.toList_intercalate, map_toList_segments]
    exact List.intercalate_splitOn '.'
  nonempty := by simp [segments, splitDots_ne_nil]
  dotless := by simpa [segments] using dot_not_mem_of_splitDots path.toList

theorem splits_iff {path : String} {names : List String} :
    Splits path names ↔ segments path = names := by
  constructor
  · rintro ⟨rfl, hne, hdots⟩
    have hjoined : ((".".intercalate names).toList).splitOn '.' = names.map String.toList := by
      rw [String.toList_intercalate]
      exact List.splitOn_intercalate '.' (by simpa using hdots) (by simpa using hne)
    rw [segments, splitDots_eq_splitOn, hjoined]
    simp
  · rintro rfl
    exact splits_segments path

theorem Splits.append {path : String} {names : List String} (h : Splits path names) {name : String}
    (hname : '.' ∉ name.toList) : Splits (path ++ "." ++ name) (names ++ [name]) where
  joined := by
    rw [String.intercalate_append_of_ne_nil h.nonempty (List.cons_ne_nil _ _), h.joined,
      String.intercalate_singleton]
  nonempty := by simp
  dotless := by
    intro s hs
    rcases List.mem_append.mp hs with hs | hs
    · exact h.dotless s hs
    · rwa [List.mem_singleton.mp hs]

theorem splits_singleton {name : String} (h : '.' ∉ name.toList) : Splits name [name] :=
  ⟨String.intercalate_singleton, List.cons_ne_nil _ _, by simpa using h⟩

end Path

theorem Value.descend_append (v : Value) (names : List String) (name : String) :
    v.descend (names ++ [name]) = (v.descend names).bind (Value.child? name) := by
  induction names generalizing v with
  | nil => simp [descend_cons, descend]
  | cons first names ih =>
    rw [List.cons_append, descend_cons, descend_cons, Option.bind_assoc]
    simp only [ih]

namespace Entity

/-- The names lead from the fields of the entity to the value, through one nested record after
another. -/
inductive Reaches (e : Entity) : List String → Value → Prop where
  | field {name : String} {v : Value} (found : e.get? name = some v) : Reaches e [name] v
  | child {names : List String} {name : String} {v w : Value} (parent : Reaches e names v)
      (found : v.child? name = some w) : Reaches e (names ++ [name]) w

variable {e : Entity}

theorem descend_singleton (e : Entity) (name : String) : e.fields.descend [name] = e.get? name := by
  rw [Fields.descend, Value.descend_cons]
  exact Option.bind_fun_some _

theorem descend_of_reaches {names : List String} {v : Value} (h : e.Reaches names v) :
    names ≠ [] ∧ e.fields.descend names = some v := by
  induction h with
  | field found => exact ⟨List.cons_ne_nil _ _, (descend_singleton e _).trans found⟩
  | child _ found ih =>
    refine ⟨by simp, ?_⟩
    rw [Fields.descend, Value.descend_append, ← Fields.descend, ih.2]
    exact found

theorem reaches_of_descend {names : List String} {v : Value} (hne : names ≠ [])
    (h : e.fields.descend names = some v) : e.Reaches names v := by
  induction names using List.reverseRecOn generalizing v with
  | nil => exact absurd rfl hne
  | append_singleton names name ih =>
    rw [Fields.descend, Value.descend_append] at h
    obtain ⟨u, hu, hv⟩ := Option.bind_eq_some_iff.mp h
    cases names with
    | nil =>
      cases hu
      exact .field hv
    | cons first names => exact .child (ih (List.cons_ne_nil _ _) hu) hv

theorem reaches_iff {names : List String} (hne : names ≠ []) {v : Value} :
    e.Reaches names v ↔ e.fields.descend names = some v :=
  ⟨fun h => (descend_of_reaches h).2, reaches_of_descend hne⟩

theorem getPath?_of_splits (e : Entity) {path : String} {names : List String}
    (h : Path.Splits path names) (hlength : names.length ≤ Path.maxDepth) :
    e.getPath? path = e.fields.descend names := by
  rw [getPath?_eq_descend, Path.splits_iff.mp h, List.take_of_length_le hlength]

/-- Of a path of any length the first `Path.maxDepth` names are followed. -/
theorem getPath?_eq_some_iff (e : Entity) {path : String} {names : List String}
    (h : Path.Splits path names) {v : Value} :
    e.getPath? path = some v ↔ e.Reaches (names.take Path.maxDepth) v := by
  have hne : names.take Path.maxDepth ≠ [] := by simp [h.nonempty, Path.maxDepth]
  rw [getPath?_eq_descend, Path.splits_iff.mp h, reaches_iff hne]

/-- For every entity and every path: up to `Path.maxDepth` names, one more name behind a path
leads on to the child of that name, a single name leads to the field, and a value is found
exactly when all the names of the path lead to it. Whatever the length of the path, what is found
is reached by names at its beginning, of which there are no more than `Path.maxDepth`. -/
theorem paths_follow_names (e : Entity) :
    (∀ path names name, Path.Splits path names → '.' ∉ name.toList →
      names.length < Path.maxDepth →
      e.getPath? (path ++ "." ++ name) = (e.getPath? path).bind (Value.child? name)) ∧
    (∀ name : String, '.' ∉ name.toList → e.getPath? name = e.get? name) ∧
    (∀ path names v, Path.Splits path names → names.length ≤ Path.maxDepth →
      (e.getPath? path = some v ↔ e.Reaches names v)) ∧
    ∀ path names v, Path.Splits path names → e.getPath? path = some v →
      ∃ first, first <+: names ∧ first.length ≤ Path.maxDepth ∧ e.Reaches first v := by
  refine ⟨fun path names name h hname hlength => ?_, fun name hname => ?_,
    fun path names v h hlength => ?_, fun path names v h hv => ?_⟩
  · have hlength' : (names ++ [name]).length ≤ Path.maxDepth := by simpa using hlength
    rw [e.getPath?_of_splits (h.append hname) hlength', e.getPath?_of_splits h hlength.le]
    exact Value.descend_append _ names name
  · rw [e.getPath?_of_splits (Path.splits_singleton hname) (Nat.le_of_ble_eq_true rfl),
      descend_singleton]
  · rw [e.getPath?_eq_some_iff h, List.take_of_length_le hlength]
  · exact ⟨names.take Path.maxDepth, List.take_prefix _ _, List.length_take_le _ _,
      (e.getPath?_eq_some_iff h).mp hv⟩

def nested : Entity :=
  ⟨"k", none, [("a", ["b", "c", "d", "e", "f", "g", "h", "i"].foldr
    (fun name v => .embedded [(name, v)]) (.int 1))]⟩

/-- An eighth name is followed, into the record that seven names lead to. -/
theorem eighth_name_followed :
    (Path.Splits "a.b.c.d.e.f.g" ["a", "b", "c", "d", "e", "f", "g"] ∧
      Path.Splits "a.b.c.d.e.f.g.h" ["a", "b", "c", "d", "e", "f", "g", "h"]) ∧
    nested.getPath? "a.b.c.d.e.f.g.h" =
      (nested.getPath? "a.b.c.d.e.f.g").bind (Value.child? "h") ∧
    nested.Reaches ["a", "b", "c", "d", "e", "f", "g", "h"] (.embedded [("i", .int 1)]) := by
  have seven : Path.Splits "a.b.c.d.e.f.g" ["a", "b", "c", "d", "e", "f", "g"] :=
    Path.splits_iff.mpr (by decide)
  have eight : Path.Splits "a.b.c.d.e.f.g.h" ["a", "b", "c", "d", "e", "f", "g", "h"] :=
    Path.splits_iff.mpr (by decide)
  obtain ⟨hnext, -, hreaches, -⟩ := paths_follow_names nested
  exact ⟨⟨seven, eight⟩, hnext "a.b.c.d.e.f.g" _ "h" seven (by decide) (by decide),
    (hreaches _ _ _ eight (by decide)).mp rfl⟩

/-- A ninth name is not followed, although the record that eight names lead to has such a field. -/
theorem ninth_name_left_out : ¬ ∀ (e : Entity) (path name : String), '.' ∉ name.toList →
    e.getPath? (path ++ "." ++ name) = (e.getPath? path).bind (Value.child? name) := by
  intro h
  have hi := h nested "a.b.c.d.e.f.g.h" "i" (by decide)
  have hpath : nested.getPath? ("a.b.c.d.e.f.g.h" ++ "." ++ "i") =
      some (.embedded [("i", .int 1)]) := by rfl
  have hchild : (nested.getPath? "a.b.c.d.e.f.g.h").bind (Value.child? "i") = some (.int 1) := by
    rfl
  rw [hpath, hchild] at hi
  cases hi

end Entity

end IndexedStore
