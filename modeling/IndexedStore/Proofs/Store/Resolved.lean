import IndexedStore.Operation.Reference
import IndexedStore.Proofs.Store.Bounded

/-! # Resolved references

Resolving goes through the declared references one after another. Its result is said of each
field alone: a field that points at an entity holds that entity afterwards, or null when there
is none. It fails exactly when an entity that is pointed at cannot be read.
-/
namespace IndexedStore

open IndexedStore.Task (Reading)
open Key (IsName)

namespace Value

/-- The keyspace and the id of the entity that the value of a field points at. -/
def pointsAt? (references : List ReferenceModel) (name : String) : Value → Option (String × String)
  | ref id => (references.find? fun r => r.field = name).map fun r => (r.target, id)
  | _ => none

theorem pointsAt?_cons (r : ReferenceModel) (references : List ReferenceModel) (name id : String) :
    (ref id).pointsAt? (r :: references) name =
      if r.field = name then some (r.target, id) else (ref id).pointsAt? references name := by
  by_cases h : r.field = name <;> simp [pointsAt?, h]

theorem pointsAt?_eq_some {references : List ReferenceModel} {name k i : String} {v : Value} :
    v.pointsAt? references name = some (k, i) ↔
      v = .ref i ∧ ∃ r, references.find? (fun r => r.field = name) = some r ∧ r.target = k := by
  cases v with
  | ref id =>
    simp only [pointsAt?, Option.map_eq_some_iff, Prod.mk.injEq, Value.ref.injEq]
    constructor
    · rintro ⟨r, hr, rfl, rfl⟩
      exact ⟨rfl, r, hr, rfl⟩
    · rintro ⟨rfl, r, hr, rfl⟩
      exact ⟨r, hr, rfl, rfl⟩
  | _ => simp [pointsAt?]

end Value

namespace Entities

/-- What a field holds once its reference is resolved. -/
def resolveValue (d : Entities) (references : List ReferenceModel) (name : String) (v : Value) :
    Value :=
  match v.pointsAt? references name with
  | none => v
  | some (k, i) => ((d.get? k i).map fun fields => .entity k (some i) fields).getD .null

def resolved (d : Entities) (references : List ReferenceModel) (e : Entity) : Entity :=
  { e with fields := e.fields.map fun f => (f.1, d.resolveValue references f.1 f.2) }

def Resolvable (d : Entities) (references : List ReferenceModel) (fields : Fields) : Prop :=
  ∀ name v k i, Assoc.lookup name fields = some v → v.pointsAt? references name = some (k, i) →
    ∀ target, d.get? k i = some target → target.Readable

variable {d : Entities} {references : List ReferenceModel} {r : ReferenceModel}

theorem load_eq_ok {keyspace id : String} {o : Option Entity} :
    d.load keyspace id = .ok o ↔
      o = (d.get? keyspace id).map (fun fields => ⟨keyspace, some id, fields⟩) ∧
        ∀ fields, d.get? keyspace id = some fields → fields.Readable := by
  unfold load
  cases d.get? keyspace id with
  | none => simp [eq_comm]
  | some fields => by_cases hr : fields.Readable <;> simp [hr, eq_comm]

theorem resolveValue_nil (d : Entities) (name : String) (v : Value) :
    d.resolveValue [] name v = v := by
  cases v <;> rfl

theorem resolved_nil (d : Entities) (e : Entity) : d.resolved [] e = e := by
  unfold resolved
  simp [resolveValue_nil]

theorem resolveValue_of_none {name : String} {v : Value} (h : v.pointsAt? references name = none) :
    d.resolveValue references name v = v := by
  rw [resolveValue, h]

theorem pointsAt?_resolveValue {name : String} {v : Value} {t : String × String}
    (h : v.pointsAt? references name = some t) (references' : List ReferenceModel) :
    (d.resolveValue references name v).pointsAt? references' name = none := by
  rw [resolveValue, h]
  dsimp only
  cases d.get? t.1 t.2 <;> rfl

/-- A field is resolved by the first declaration that is its own. -/
theorem pointsAt?_step (d : Entities) (r : ReferenceModel) (references : List ReferenceModel)
    (name : String) (v : Value) :
    v.pointsAt? (r :: references) name =
      (v.pointsAt? [r] name).or ((d.resolveValue [r] name v).pointsAt? references name) := by
  cases hp : v.pointsAt? [r] name with
  | some t =>
    cases v <;> try cases hp
    rw [Value.pointsAt?_cons] at hp ⊢
    by_cases hr : r.field = name
    · rw [if_pos hr] at hp ⊢
      exact hp
    · rw [if_neg hr] at hp
      cases hp
  | none =>
    rw [resolveValue_of_none hp, Option.none_or]
    cases v <;> try rfl
    rw [Value.pointsAt?_cons] at hp ⊢
    by_cases hr : r.field = name
    · rw [if_pos hr] at hp
      cases hp
    · rw [if_neg hr]

theorem resolveValue_step (d : Entities) (r : ReferenceModel) (references : List ReferenceModel)
    (name : String) (v : Value) :
    d.resolveValue references name (d.resolveValue [r] name v) =
      d.resolveValue (r :: references) name v := by
  have hstep := pointsAt?_step d r references name v
  cases hp : v.pointsAt? [r] name with
  | none =>
    rw [hp, Option.none_or, resolveValue_of_none hp] at hstep
    rw [resolveValue_of_none hp]
    unfold resolveValue
    rw [hstep]
  | some t =>
    rw [hp, Option.some_or] at hstep
    rw [resolveValue_of_none (pointsAt?_resolveValue hp references)]
    unfold resolveValue
    rw [hstep, hp]

theorem lookup_map_resolve (d : Entities) (references : List ReferenceModel) (fields : Fields)
    (name : String) :
    Assoc.lookup name (fields.map fun f => (f.1, d.resolveValue references f.1 f.2)) =
      (Assoc.lookup name fields).map (d.resolveValue references name) := by
  induction fields with
  | nil => rfl
  | cons f fields ih =>
    obtain ⟨j, v⟩ := f
    by_cases h : j = name
    · subst h
      simp [Assoc.lookup]
    · simpa [Assoc.lookup, h] using ih

theorem sorted_map_resolve {fields : Fields} (h : Assoc.Sorted fields) :
    Assoc.Sorted (fields.map fun f => (f.1, d.resolveValue references f.1 f.2)) := by
  rw [Assoc.Sorted, List.pairwise_map]
  exact h

theorem resolved_cons (d : Entities) (r : ReferenceModel) (references : List ReferenceModel)
    (e : Entity) : d.resolved references (d.resolved [r] e) = d.resolved (r :: references) e := by
  unfold resolved
  simp only [List.map_map]
  congr 1
  refine List.map_congr_left fun f _ => ?_
  exact congrArg (Prod.mk f.1) (resolveValue_step d r references f.1 f.2)

theorem resolvable_cons {e : Entity} :
    d.Resolvable (r :: references) e.fields ↔
      d.Resolvable [r] e.fields ∧ d.Resolvable references (d.resolved [r] e).fields := by
  constructor
  · refine fun h => ⟨?_, ?_⟩
    · intro name v k i hv hp
      refine h name v k i hv ?_
      rw [pointsAt?_step d, hp, Option.some_or]
    · intro name w k i hw hp
      obtain ⟨v, hv, rfl⟩ := Option.map_eq_some_iff.mp
        ((lookup_map_resolve d [r] e.fields name).symm.trans hw)
      refine h name v k i hv ?_
      rw [pointsAt?_step d, hp]
      cases hr : v.pointsAt? [r] name with
      | none => rfl
      | some t => cases (pointsAt?_resolveValue hr references).symm.trans hp
  · rintro ⟨hr, hrest⟩ name v k i hv hp
    rw [pointsAt?_step d] at hp
    rcases Option.or_eq_some_iff.mp hp with hp | ⟨-, hp⟩
    · exact hr name v k i hv hp
    · refine hrest name (d.resolveValue [r] name v) k i ?_ hp
      exact (lookup_map_resolve d [r] e.fields name).trans (by rw [hv]; rfl)

theorem resolvable_singleton {fields : Fields} :
    d.Resolvable [r] fields ↔ ∀ id, Assoc.lookup r.field fields = some (.ref id) →
      ∀ target, d.get? r.target id = some target → target.Readable := by
  constructor
  · intro h id hv
    have hp : (Value.ref id).pointsAt? [r] r.field = some (r.target, id) := by
      simp [Value.pointsAt?]
    exact h r.field (.ref id) r.target id hv hp
  · intro h name v k i hv hp
    cases v <;> try cases hp
    rw [Value.pointsAt?_cons] at hp
    by_cases hn : r.field = name
    · subst hn
      rw [if_pos rfl] at hp
      cases hp
      exact h _ hv
    · rw [if_neg hn] at hp
      cases hp

theorem resolveValue_own (d : Entities) (r : ReferenceModel) (id : String) :
    d.resolveValue [r] r.field (.ref id) =
      (((d.get? r.target id).map fun fields => ⟨r.target, some id, fields⟩).map
        Value.ofEntity).getD .null := by
  have hp : (Value.ref id).pointsAt? [r] r.field = some (r.target, id) := by
    simp [Value.pointsAt?]
  rw [resolveValue, hp, Option.map_map]
  rfl

theorem set_eq_resolved {e : Entity} (he : Assoc.Sorted e.fields) {id : String}
    (hv : Assoc.lookup r.field e.fields = some (.ref id)) :
    e.set r.field (d.resolveValue [r] r.field (.ref id)) = d.resolved [r] e := by
  unfold Entity.set resolved
  congr 1
  refine Assoc.ext_lookup (he.insert _ _) (sorted_map_resolve he) fun name => ?_
  rw [Assoc.lookup_insert, lookup_map_resolve]
  by_cases hn : r.field = name
  · subst hn
    rw [if_pos rfl, hv]
    rfl
  · rw [if_neg hn]
    cases hl : Assoc.lookup name e.fields with
    | none => rfl
    | some v =>
      have hp : v.pointsAt? [r] name = none := by cases v <;> simp [Value.pointsAt?, hn]
      rw [Option.map_some, resolveValue_of_none hp]

theorem resolved_eq_self {e : Entity} (he : Assoc.Sorted e.fields)
    (hv : ∀ id, Assoc.lookup r.field e.fields ≠ some (.ref id)) : d.resolved [r] e = e := by
  unfold resolved
  congr 1
  refine Assoc.ext_lookup (sorted_map_resolve he) he fun name => ?_
  rw [lookup_map_resolve]
  cases hl : Assoc.lookup name e.fields with
  | none => rfl
  | some v =>
    have hp : v.pointsAt? [r] name = none := by
      cases v <;> try rfl
      rw [Value.pointsAt?_cons, if_neg]
      · rfl
      · rintro rfl
        exact hv _ hl
    rw [Option.map_some, resolveValue_of_none hp]

end Entities

namespace Task

theorem reading_resolveField (m : KeyspaceModel) (e : Entity) (r : ReferenceModel) :
    Reading (resolveField m e r) := by
  unfold resolveField
  split
  · refine (reading_load _ _).bind fun o => ?_
    cases o with
    | some target => exact Reading.pure _
    | none => exact (Reading.emit _).bind fun _ => Reading.pure _
  · exact Reading.pure _

theorem reading_resolve (m : KeyspaceModel) (references : List ReferenceModel) (e : Entity) :
    Reading (references.foldlM (resolveField m) e) := by
  induction references generalizing e with
  | nil => exact Reading.pure e
  | cons r references ih => exact (reading_resolveField m e r).bind ih

theorem on_resolveField (m : KeyspaceModel) {e : Entity} {r : ReferenceModel} (c : Content)
    {id : String} (hv : Assoc.lookup r.field e.fields = some (.ref id)) :
    (resolveField m e r).on c = ((load r.target id).on c).map fun o =>
      e.set r.field ((o.map Value.ofEntity).getD .null) := by
  unfold resolveField Entity.get?
  rw [hv]
  refine (on_bind (reading_load _ _) (fun o => ?_) c).trans ?_
  · cases o with
    | some target => exact Reading.pure _
    | none => exact (Reading.emit _).bind fun _ => Reading.pure _
  · cases (load r.target id).on c with
    | error x => rfl
    | ok o =>
      cases o with
      | some target => rfl
      | none => exact on_bind (Reading.emit _) (fun _ => Reading.pure _) c

end Task

namespace Consistent

variable {c : Content} {d : Entities} {m : KeyspaceModel}

theorem on_resolveField (h : Consistent c d) (hb : c.Bounded) {r : ReferenceModel}
    (hr : IsName r.target) {e x : Entity} (he : Assoc.Sorted e.fields) :
    (Task.resolveField m e r).on c = .ok x ↔
      x = d.resolved [r] e ∧ d.Resolvable [r] e.fields := by
  rw [Entities.resolvable_singleton]
  by_cases hv : ∃ id, Assoc.lookup r.field e.fields = some (.ref id)
  · obtain ⟨id, hv⟩ := hv
    rw [Task.on_resolveField m c hv, h.on_load hb hr, ← Entities.set_eq_resolved he hv,
      Entities.resolveValue_own, hv]
    cases hl : d.load r.target id with
    | error y =>
      constructor
      · intro hx
        cases hx
      · rintro ⟨-, hread⟩
        cases hl.symm.trans (Entities.load_eq_ok.mpr ⟨rfl, hread id rfl⟩)
    | ok o =>
      obtain ⟨rfl, hread⟩ := Entities.load_eq_ok.mp hl
      constructor
      · intro hx
        refine ⟨(Except.ok.inj hx).symm, fun i hi => ?_⟩
        cases hi
        exact hread
      · rintro ⟨rfl, -⟩
        rfl
  · have hno : ∀ id, Assoc.lookup r.field e.fields ≠ some (.ref id) := fun id hid => hv ⟨id, hid⟩
    have hsame : Task.resolveField m e r = pure e := by
      unfold Task.resolveField Entity.get?
      split
      · rename_i id hl
        exact absurd hl (hno id)
      · rfl
    rw [hsame, Task.on_pure, Entities.resolved_eq_self he hno]
    constructor
    · rintro ⟨⟩
      exact ⟨rfl, fun id hid => absurd hid (hno id)⟩
    · rintro ⟨rfl, -⟩
      rfl

/-- Resolving gives the resolved entity when everything pointed at can be read, and fails
otherwise. The induction is on the declarations: what the first one leaves is resolved by the
rest as if all had looked at the original. -/
theorem on_resolve (h : Consistent c d) (hb : c.Bounded) {references : List ReferenceModel}
    (hr : ∀ r ∈ references, IsName r.target) {e x : Entity} (he : Assoc.Sorted e.fields) :
    (references.foldlM (Task.resolveField m) e).on c = .ok x ↔
      x = d.resolved references e ∧ d.Resolvable references e.fields := by
  induction references generalizing e with
  | nil =>
    have hnone : d.Resolvable [] e.fields := by
      intro name v k i _ hp
      cases v <;> cases hp
    rw [List.foldlM_nil, Task.on_pure, Entities.resolved_nil]
    simp [hnone, eq_comm]
  | cons r references ih =>
    obtain ⟨hr, hrest⟩ := List.forall_mem_cons.mp hr
    have hfirst := fun y => h.on_resolveField (m := m) hb hr (x := y) he
    have hsorted : Assoc.Sorted (d.resolved [r] e).fields := Entities.sorted_map_resolve he
    rw [List.foldlM_cons, Task.on_bind (Task.reading_resolveField m e r)
      fun e => Task.reading_resolve m references e, Entities.resolvable_cons,
      ← Entities.resolved_cons]
    constructor
    · intro hx
      obtain ⟨y, hy, hx⟩ := Task.except_bind_eq_ok hx
      obtain ⟨rfl, hres⟩ := (hfirst y).mp hy
      obtain ⟨hxe, hrest⟩ := (ih hrest hsorted).mp hx
      exact ⟨hxe, hres, hrest⟩
    · rintro ⟨hx, hres, hrest'⟩
      rw [(hfirst _).mpr ⟨rfl, hres⟩]
      exact (ih hrest hsorted).mpr ⟨hx, hrest'⟩

end Consistent

end IndexedStore
