import IndexedStore.Storage.Engine

/-! # Batches

Writes are staged first and committed as one. A batch has the value staged last for
each key and the keys in the order of their first touch; reads see what is staged.
-/

namespace IndexedStore

/-- The list has each key of the dictionary once. -/
structure Dict.Listed {β : Type} (d : Dict β) (keys : List String) : Prop where
  nodup : keys.Nodup
  mem_iff : ∀ k, k ∈ keys ↔ d.contains k = true

structure Batch where
  values : Dict (Option Bytes)
  order : List String
  listed : values.Listed order

namespace Batch

def empty : Batch := ⟨Dict.empty, [], List.nodup_nil, by simp [Dict.contains, Dict.get?_empty]⟩

theorem listed_insert {values : Dict (Option Bytes)} {order : List String}
    (h : values.Listed order) (key : String) (v : Option Bytes) :
    (values.insert key v).Listed (if values.contains key then order else order ++ [key]) := by
  have hcontains : ∀ k, (values.insert key v).contains k = true ↔
      k = key ∨ values.contains k = true := by
    intro k
    rw [Dict.contains, Dict.get?_insert]
    by_cases hk : key = k
    · simp [hk]
    · simp [hk, Ne.symm hk, Dict.contains]
  cases hkey : values.contains key with
  | true =>
    refine ⟨h.nodup, fun k => ?_⟩
    rw [if_pos rfl, hcontains, h.mem_iff]
    exact ⟨.inr, fun hk => hk.elim (fun hk => hk ▸ hkey) id⟩
  | false =>
    have hnew : key ∉ order := fun hmem => by simp [(h.mem_iff key).mp hmem] at hkey
    refine ⟨?_, fun k => ?_⟩
    · rw [if_neg Bool.false_ne_true, List.nodup_append]
      exact ⟨h.nodup, by simp, fun k hk j hj => by
        rw [List.mem_singleton.mp hj]
        exact fun hkj => hnew (hkj ▸ hk)⟩
    · rw [if_neg Bool.false_ne_true, hcontains, List.mem_append, List.mem_singleton, h.mem_iff]
      exact Or.comm

def stage (b : Batch) (key : String) (v : Option Bytes) : Batch where
  values := b.values.insert key v
  order := if b.values.contains key then b.order else b.order ++ [key]
  listed := listed_insert b.listed key v

def put (b : Batch) (key : String) (bytes : Bytes) : Batch := b.stage key (some bytes)

def delete (b : Batch) (key : String) : Batch := b.stage key none

def deleteAll (b : Batch) (keys : List String) : Batch := keys.foldl delete b

def store {α : Type} [Storable α] (b : Batch) (key : String) (a : α) : Task Batch := do
  return b.put key (← Task.encoded a)

/-- What is staged for a key: new bytes, or its removal. -/
def staged (b : Batch) (key : String) : Option (Option Bytes) := b.values.get? key

/-- The bytes of a key as they will be after the commit. -/
def readBytes (b : Batch) (key : String) : Task (Option Bytes) :=
  match b.staged key with
  | some v => pure v
  | none => Task.get key

def read? {α : Type} [Storable α] (b : Batch) (key : String) : Task (Option α) := do
  match ← b.readBytes key with
  | some bytes => some <$> Task.decodeAt key bytes
  | none => return none

/-- Everything staged, in the order of the first touch. -/
def writes (b : Batch) : List Write :=
  b.order.filterMap fun key => (b.staged key).map fun v => (key, v)

/-- Applies everything staged in one call, or makes none when nothing is staged. The
result is the number of keys written. -/
def commit (b : Batch) : Task Nat := do
  if !b.writes.isEmpty then Task.batch b.writes
  return b.writes.length

end Batch

end IndexedStore
