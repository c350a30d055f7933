import IndexedStore.Index.Plan
import IndexedStore.Proofs.Index.Derive
import IndexedStore.Proofs.Storage.Batch

/-! # What an index plan stages

Staging reads and changes nothing. For each key a plan says what it stages (`planned`): the
stored list of entries counts before the geo entries, these before the equality entries, and
removals last.
-/
namespace IndexedStore

open IndexedStore.Task (Reading readAt)

namespace Batch

variable {α : Type} [Storable α]

theorem reading_store (b : Batch) (key : String) (a : α) : Reading (b.store key a) :=
  (Reading.ofExcept _).bind fun _ => Reading.pure _

theorem store_eq_ok {b b' : Batch} {key : String} {a : α} {s s' : Engine}
    (h : b.store key a s = (.ok b', s')) :
    b' = b.put key (payload a) ∧ (payload a).length ≤ maxPayload := by
  obtain ⟨bytes, s₁, hb, h⟩ := Task.bind_eq_ok h
  cases h
  cases he : encode a with
  | error x =>
    rw [Task.encoded, he] at hb
    cases hb
  | ok bytes' =>
    rw [Task.encoded, he] at hb
    cases hb
    obtain ⟨rfl, hl⟩ := encode_eq_ok.mp he
    exact ⟨rfl, hl⟩

theorem store_run {a : α} (ha : (payload a).length ≤ maxPayload) (b : Batch) (key : String)
    (s : Engine) : b.store key a s = (.ok (b.put key (payload a)), s) := by
  have he : Task.encoded a s = (.ok (payload a), s) := by
    rw [Task.encoded, encode_eq_ok.mpr ⟨rfl, ha⟩]
    rfl
  exact Task.bind_run_ok he

theorem reading_stores (l : List (String × α)) (b : Batch) :
    Reading (l.foldlM (fun b g => b.store g.1 g.2) b : Task Batch) := by
  induction l generalizing b with
  | nil => exact Reading.pure b
  | cons g l ih => exact (reading_store b g.1 g.2).bind ih

theorem exists_stores {l : List (String × α)} (hl : ∀ g ∈ l, (payload g.2).length ≤ maxPayload)
    (b : Batch) (s : Engine) :
    ∃ b', (l.foldlM (fun b g => b.store g.1 g.2) b : Task Batch) s = (.ok b', s) := by
  induction l generalizing b with
  | nil => exact ⟨b, rfl⟩
  | cons g l ih =>
    obtain ⟨hg, hl⟩ := List.forall_mem_cons.mp hl
    obtain ⟨b', hb⟩ := ih hl (b.put g.1 (payload g.2))
    exact ⟨b', (Task.bind_run_ok (store_run hg b g.1 s)).trans hb⟩

theorem stores_eq_ok {l : List (String × α)} (hl : Assoc.Sorted l) {b b' : Batch}
    {s s' : Engine} (h : (l.foldlM (fun b g => b.store g.1 g.2) b : Task Batch) s = (.ok b', s')) :
    ∀ k, b'.staged k = ((Assoc.lookup k l).map fun a => some (payload a)).or (b.staged k) := by
  induction l generalizing b s with
  | nil =>
    cases h
    exact fun _ => rfl
  | cons g l ih =>
    obtain ⟨j, a⟩ := g
    obtain ⟨hj, hl⟩ := List.pairwise_cons.mp hl
    obtain ⟨b₁, s₁, hb, h⟩ := Task.bind_eq_ok h
    obtain ⟨rfl, -⟩ := store_eq_ok hb
    intro k
    rw [ih hl h, staged_put]
    by_cases hjk : j = k
    · subst hjk
      rw [Assoc.lookup_eq_none_of_lt hj]
      simp [Assoc.lookup]
    · simp [Assoc.lookup, hjk]

end Batch

namespace IndexPlan

/-- What a plan stages for a key: new bytes, its removal, or nothing. -/
def planned (p : IndexPlan) (keyspace id k : String) : Option (Option Bytes) :=
  if Key.backRefs keyspace id = k then
    some (if p.refs.isEmpty then none else some (payload p.refs))
  else
    match Assoc.lookup k p.geo with
    | some g => some (some (payload g))
    | none =>
      if k ∈ p.insert then some (some [])
      else if k ∈ p.remove.map IndexRef.key then some none
      else none

theorem reading_stage (p : IndexPlan) (b : Batch) (keyspace id : String) :
    Reading (p.stage b keyspace id) := by
  refine (Batch.reading_stores _ _).bind fun b' => ?_
  have hemit : ∀ b'' : Batch, Reading (do
      Task.emit (.indexed keyspace (UInt64.ofNat p.inserts) (UInt64.ofNat p.removes))
      return b'') := fun b'' => (Reading.emit _).bind fun _ => Reading.pure _
  by_cases hr : p.refs.isEmpty = true
  · simp only [hr, if_true]
    exact (Reading.pure _).bind hemit
  · simp only [hr]
    exact (Batch.reading_store _ _ _).bind hemit

theorem stage_eq_ok {p : IndexPlan} (hg : Assoc.Sorted p.geo) {b b' : Batch}
    {keyspace id : String} {s s' : Engine} (h : p.stage b keyspace id s = (.ok b', s')) :
    ∀ k, b'.staged k = (p.planned keyspace id k).or (b.staged k) := by
  obtain ⟨b₁, s₁, hb, h⟩ := Task.bind_eq_ok h
  have hb₁ : ∀ k, b₁.staged k = ((Assoc.lookup k p.geo).map fun g => some (payload g)).or
      (if k ∈ p.insert then some (some [])
        else if k ∈ p.remove.map IndexRef.key then some none else b.staged k) := by
    intro k
    rw [Batch.stores_eq_ok hg hb, Batch.staged_markers, Batch.staged_deleteAll]
  have hlist : b' = b₁.stage (Key.backRefs keyspace id)
      (if p.refs.isEmpty then none else some (payload p.refs)) := by
    by_cases hr : p.refs.isEmpty = true
    · simp only [hr, if_true] at h ⊢
      obtain ⟨b₂, s₂, hb, h⟩ := Task.bind_eq_ok h
      obtain ⟨u, s₃, -, h⟩ := Task.bind_eq_ok h
      cases hb
      cases h
      rfl
    · simp only [hr] at h ⊢
      obtain ⟨b₂, s₂, hb, h⟩ := Task.bind_eq_ok h
      obtain ⟨u, s₃, -, h⟩ := Task.bind_eq_ok h
      cases h
      exact (Batch.store_eq_ok hb).1
  subst hlist
  intro k
  rw [Batch.staged_stage, hb₁, planned]
  by_cases hkey : Key.backRefs keyspace id = k
  · simp [hkey]
  · simp only [hkey, if_false]
    cases Assoc.lookup k p.geo with
    | some g => rfl
    | none => split <;> (try split) <;> simp_all

/-- Staging fails when the list of entries is too long, and for no other reason. -/
theorem refs_length_of_stage {p : IndexPlan} {b b' : Batch} {keyspace id : String}
    {s s' : Engine} (h : p.stage b keyspace id s = (.ok b', s'))
    (hr : p.refs.isEmpty = false) : (payload p.refs).length ≤ maxPayload := by
  obtain ⟨b₁, s₁, -, h⟩ := Task.bind_eq_ok h
  simp only [hr] at h
  obtain ⟨b₂, s₂, hb, -⟩ := Task.bind_eq_ok h
  exact (Batch.store_eq_ok hb).2

theorem exists_stage {p : IndexPlan}
    (hr : p.refs.isEmpty = false → (payload p.refs).length ≤ maxPayload) (b : Batch)
    (keyspace id : String) (s : Engine) : ∃ b' s', p.stage b keyspace id s = (.ok b', s') := by
  obtain ⟨b₁, hb₁⟩ := Batch.exists_stores (l := p.geo) (fun g _ => g.2.length_payload) _ s
  unfold stage
  rw [Task.bind_run_ok hb₁]
  dsimp only
  cases he : p.refs.isEmpty with
  | true => exact ⟨_, _, rfl⟩
  | false =>
    have hstore := Batch.store_run (hr he) b₁ (Key.backRefs keyspace id) s
    simp only [Bool.false_eq_true, if_false]
    rw [Task.bind_run_ok hstore]
    exact ⟨_, _, rfl⟩

end IndexPlan

namespace BackRefs

theorem reading_read? {α : Type} [Storable α] (key : String) :
    Reading (Batch.empty.read? key : Task (Option α)) := by
  refine (Reading.get key).bind fun o => ?_
  cases o with
  | none => exact Reading.pure _
  | some b => exact (Task.reading_decodeAt key b).bind fun _ => Reading.pure _

theorem on_read? {α : Type} [Storable α] (key : String) (c : Content) :
    (Batch.empty.read? key : Task (Option α)).on c = readAt α c key := by
  refine (Task.on_bind (Reading.get key) (fun o => ?_) c).trans ?_
  · cases o with
    | none => exact Reading.pure _
    | some b => exact (Task.reading_decodeAt key b).bind fun _ => Reading.pure _
  · rw [Task.on_get, readAt]
    cases c.get? key with
    | none => rfl
    | some b =>
      refine (Task.on_bind (Task.reading_decodeAt key b) (fun _ => Reading.pure _) c).trans ?_
      rw [Task.on_decodeAt]
      dsimp only
      cases (decode b : Except CodecError α) <;> rfl

theorem reading_owned_of (m : KeyspaceModel) (id : String) (old : Option Entity)
    (o : Option BackRefs) : Reading (match o with
      | some refs => pure refs
      | none =>
        match old with
        | some e => Task.ofExcept ((IndexEntries.derive m e id).map IndexEntries.refs)
        | none => pure empty) := by
  cases o with
  | some r => exact Reading.pure r
  | none =>
    cases old with
    | none => exact Reading.pure _
    | some e => exact Reading.ofExcept _

theorem reading_owned (m : KeyspaceModel) (id : String) (old : Option Entity) :
    Reading (owned Batch.empty m id old) :=
  (reading_read? _).bind (reading_owned_of m id old)

theorem on_owned (m : KeyspaceModel) (id : String) (old : Option Entity) (c : Content) :
    (owned Batch.empty m id old).on c =
      (readAt BackRefs c (Key.backRefs m.name id)).bind fun o => Task.on (match o with
        | some refs => pure refs
        | none =>
          match old with
          | some e => Task.ofExcept ((IndexEntries.derive m e id).map IndexEntries.refs)
          | none => pure empty) c := by
  rw [← on_read?]
  exact Task.on_bind (reading_read? (Key.backRefs m.name id)) (reading_owned_of m id old) c

theorem on_owned_of_stored {m : KeyspaceModel} {id : String} (old : Option Entity) {c : Content}
    {b : Bytes} {r : BackRefs} (hb : c.get? (Key.backRefs m.name id) = some b)
    (hr : decode b = .ok r) : (owned Batch.empty m id old).on c = .ok r := by
  rw [on_owned, readAt, hb]
  simp only [hr]
  rfl

theorem on_owned_of_none {m : KeyspaceModel} {id : String} {c : Content}
    (hn : c.get? (Key.backRefs m.name id) = none) (e : Entity) :
    (owned Batch.empty m id (some e)).on c =
      (IndexEntries.derive m e id).map IndexEntries.refs := by
  rw [on_owned, Task.readAt_none hn]
  rfl

/-- The entries taken as owned: the stored list, or without one those that the old record asks
for. -/
theorem on_owned_eq_ok {m : KeyspaceModel} {id : String} {old : Option Entity} {c : Content}
    {r : BackRefs} (h : (owned Batch.empty m id old).on c = .ok r) :
    (∃ b, c.get? (Key.backRefs m.name id) = some b ∧ decode b = .ok r) ∨
      c.get? (Key.backRefs m.name id) = none ∧
        r = old.elim empty fun e => m.refs e.fields id := by
  have h' := (on_owned m id old c).symm.trans h
  cases hk : c.get? (Key.backRefs m.name id) with
  | some b =>
    obtain ⟨r', hr, h'⟩ := Task.except_bind_eq_ok h'
    obtain ⟨a, rfl, ha⟩ := Task.readAt_some hk hr
    cases h'
    exact Or.inl ⟨b, rfl, ha⟩
  | none =>
    refine Or.inr ⟨rfl, ?_⟩
    rw [Task.readAt_none hk] at h'
    cases old with
    | none =>
      cases h'
      rfl
    | some e =>
      have hr : (IndexEntries.derive m e id).map IndexEntries.refs = .ok r := h'
      cases hd : IndexEntries.derive m e id with
      | error x =>
        rw [hd] at hr
        cases hr
      | ok x =>
        rw [hd] at hr
        cases hr
        exact IndexEntries.refs_eq hd

end BackRefs

end IndexedStore
