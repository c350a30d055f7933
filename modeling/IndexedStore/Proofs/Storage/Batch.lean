import IndexedStore.Proofs.Codec.Payload
import IndexedStore.Proofs.Collection.Dict
import IndexedStore.Proofs.Storage.Reading

/-! # What a batch writes

A batch is described by what it holds for each key. A key is held once, so that applying
the batch gives each key the value that was staged for it last (`get?_apply`).
-/
namespace IndexedStore

namespace Batch

theorem staged_empty (k : String) : empty.staged k = none := rfl

theorem staged_stage (b : Batch) (key : String) (v : Option Bytes) (k : String) :
    (b.stage key v).staged k = if key = k then some v else b.staged k :=
  Dict.get?_insert b.values key k v

theorem mem_order {b : Batch} {k : String} : k ∈ b.order ↔ ∃ v, b.staged k = some v := by
  rw [b.listed.mem_iff, Dict.contains, Option.isSome_iff_exists]
  rfl

theorem staged_eq_some {b : Batch} {k : String} {v : Option Bytes} :
    b.staged k = some v ↔ (k, v) ∈ b.writes := by
  simp only [writes, List.mem_filterMap, Option.map_eq_some_iff, Prod.mk.injEq]
  constructor
  · exact fun h => ⟨k, mem_order.mpr ⟨v, h⟩, v, h, rfl, rfl⟩
  · rintro ⟨_, -, _, h, rfl, rfl⟩
    exact h

theorem map_fst_writes (b : Batch) : b.writes.map Prod.fst = b.order := by
  have hkey : ∀ k ∈ b.order, ((b.staged k).map fun v => (k, v)).map Prod.fst = some k := by
    intro k hk
    obtain ⟨v, hv⟩ := mem_order.mp hk
    rw [hv]
    rfl
  rw [writes, List.map_filterMap]
  exact (List.filterMap_congr hkey).trans List.filterMap_some

theorem nodup_writes (b : Batch) : (b.writes.map Prod.fst).Nodup := by
  rw [map_fst_writes]
  exact b.listed.nodup

theorem staged_put (b : Batch) (key : String) (bytes : Bytes) (k : String) :
    (b.put key bytes).staged k = if key = k then some (some bytes) else b.staged k :=
  staged_stage b key _ k

theorem staged_delete (b : Batch) (key k : String) :
    (b.delete key).staged k = if key = k then some none else b.staged k :=
  staged_stage b key _ k

theorem staged_deleteAll (b : Batch) (keys : List String) (k : String) :
    (b.deleteAll keys).staged k = if k ∈ keys then some none else b.staged k := by
  induction keys generalizing b with
  | nil => simp [deleteAll]
  | cons j keys ih =>
    rw [deleteAll, List.foldl_cons]
    refine (ih (b.delete j)).trans ?_
    rw [staged_delete]
    by_cases h : j = k
    · simp [h]
    · simp [h, Ne.symm h]

theorem staged_markers (b : Batch) (keys : List String) (k : String) :
    (keys.foldl (fun b k => b.put k []) b).staged k =
      if k ∈ keys then some (some []) else b.staged k := by
  induction keys generalizing b with
  | nil => simp
  | cons j keys ih =>
    rw [List.foldl_cons, ih, staged_put]
    by_cases h : j = k
    · simp [h]
    · simp [h, Ne.symm h]

end Batch

namespace Content

theorem get?_write (c : Content) (w : Write) (k : String) :
    (c.write w).get? k = if w.1 = k then w.2 else c.get? k := by
  obtain ⟨j, _ | b⟩ := w
  · exact Dict.get?_erase c j k
  · exact Dict.get?_insert c j k b

theorem get?_apply_of_nodup {writes : List Write} (h : (writes.map Prod.fst).Nodup) (c : Content)
    (k : String) : (c.apply writes).get? k = (Assoc.lookup k writes).getD (c.get? k) := by
  unfold apply
  induction writes generalizing c with
  | nil => rfl
  | cons w writes ih =>
    rw [List.map_cons, List.nodup_cons] at h
    rw [List.foldl_cons, ih h.2, get?_write]
    by_cases hk : w.1 = k
    · subst hk
      simp [Assoc.lookup, Assoc.lookup_eq_none.mpr h.1]
    · simp [Assoc.lookup, hk]

theorem get?_apply (c : Content) (b : Batch) (k : String) :
    (c.apply b.writes).get? k = (b.staged k).getD (c.get? k) := by
  have hlookup : Assoc.lookup k b.writes = b.staged k := Option.ext fun v => by
    rw [Assoc.lookup_eq_some_iff_of_nodup b.nodup_writes, Batch.staged_eq_some]
  rw [get?_apply_of_nodup b.nodup_writes, hlookup]

end Content

namespace Task

open Batch

/-- A commit gives each key what is staged for it and touches no other key. -/
theorem commit_run_ok {b : Batch} {s s' : Engine} {n : Nat}
    (h : b.commit s = (.ok n, s')) :
    (∀ k, s'.content.get? k = (b.staged k).getD (s.content.get? k)) ∧ s'.ids = s.ids := by
  unfold commit at h
  cases he : b.writes.isEmpty with
  | true =>
    simp only [he] at h
    cases h
    refine ⟨fun k => ?_, rfl⟩
    have hc := s.content.get?_apply b k
    rw [List.isEmpty_iff.mp he] at hc
    exact hc
  | false =>
    simp only [he] at h
    obtain ⟨u, s₁, hu, h⟩ := bind_eq_ok h
    obtain ⟨hc, hm⟩ := batch_run_ok hu
    cases h
    exact ⟨fun k => by rw [hc, Content.get?_apply], hm⟩

theorem failSafe_commit (b : Batch) : FailSafe b.commit := by
  intro s e s' h
  unfold commit at h
  cases he : b.writes.isEmpty with
  | true =>
    simp only [he] at h
    cases h
  | false =>
    simp only [he] at h
    exact (failSafe_batch _).bind_total (fun _ s => ⟨_, _, rfl⟩) s e s' h

end Task

end IndexedStore
