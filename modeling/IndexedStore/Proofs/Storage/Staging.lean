import Mathlib.Data.List.Induction
import IndexedStore.Proofs.Storage.Batch

/-! # Staged writes

A batch is filled by calls that stage one write each. Main statement: what is read through it,
what its commit sends and what the commit makes of the content are as if every write had gone to
the content at once, in the order of the calls.
-/
namespace IndexedStore

open IndexedStore.Task (readAt)

namespace Write

def last? (writes : List Write) (key : String) : Option (Option Bytes) :=
  Assoc.lookup key writes.reverse

/-- The keys that are written to, in the order of their first write. -/
def touched (writes : List Write) : List String := (writes.map Prod.fst).eraseDups

theorem last?_append (writes : List Write) (w : Write) (key : String) :
    last? (writes ++ [w]) key = if w.1 = key then some w.2 else last? writes key := by
  rw [last?, List.reverse_append]
  rfl

theorem mem_touched {writes : List Write} {key : String} :
    key ∈ touched writes ↔ (last? writes key).isSome = true := by
  rw [Option.isSome_iff_ne_none, ne_eq, last?, Assoc.lookup_eq_none, touched]
  simp

theorem isEmpty_touched (writes : List Write) : (touched writes).isEmpty = writes.isEmpty := by
  cases writes with
  | nil => rfl
  | cons w writes =>
    rw [touched, List.map_cons, List.eraseDups_cons]
    rfl

/-- A key is listed when it is first written to. -/
theorem touched_append (writes : List Write) (w : Write) :
    touched (writes ++ [w]) =
      if w.1 ∈ touched writes then touched writes else touched writes ++ [w.1] := by
  have hmem : w.1 ∈ touched writes ↔ w.1 ∈ writes.map Prod.fst := List.mem_eraseDups
  rw [touched, List.map_append, List.eraseDups_append, ← touched]
  by_cases h : w.1 ∈ touched writes
  · simp [h, List.removeAll, hmem.mp h]
  · simp [h, List.removeAll, mt hmem.mpr h, List.eraseDups_cons]

theorem nodup_touched (writes : List Write) : (touched writes).Nodup := by
  induction writes using List.reverseRecOn with
  | nil => exact List.nodup_nil
  | append_singleton writes w ih =>
    rw [touched_append]
    split
    · exact ih
    · rename_i h
      refine List.nodup_append.mpr ⟨ih, List.nodup_singleton _, fun k hk k' hk' he => h ?_⟩
      rwa [← List.mem_singleton.mp hk', ← he]

end Write

theorem Content.get?_apply_writes (c : Content) (writes : List Write) (k : String) :
    (c.apply writes).get? k = (Write.last? writes k).getD (c.get? k) := by
  induction writes using List.reverseRecOn with
  | nil => rfl
  | append_singleton writes w ih =>
    have hstep : c.apply (writes ++ [w]) = (c.apply writes).write w := List.foldl_append
    rw [hstep, Content.get?_write, ih, Write.last?_append]
    split <;> rfl

/-- The batch holds the writes: each key once, in the order of the first write to it, with what
the last one says. -/
structure Batch.Holds (b : Batch) (writes : List Write) : Prop where
  keys : b.order = Write.touched writes
  last : ∀ k, b.staged k = Write.last? writes k

namespace Batch.Holds

variable {b : Batch} {writes : List Write}

theorem empty : Batch.empty.Holds [] := ⟨rfl, fun _ => rfl⟩

theorem stage (h : b.Holds writes) (key : String) (v : Option Bytes) :
    (b.stage key v).Holds (writes ++ [(key, v)]) where
  keys := by
    rw [Write.touched_append, ← h.keys]
    exact if_congr (b.listed.mem_iff key).symm rfl rfl
  last k := by rw [staged_stage, h.last, Write.last?_append]

theorem length (h : b.Holds writes) : b.writes.length = (Write.touched writes).length := by
  rw [← h.keys, ← map_fst_writes, List.length_map]

theorem isEmpty (h : b.Holds writes) : b.writes.isEmpty = writes.isEmpty := by
  rw [← List.isEmpty_map (f := Prod.fst), map_fst_writes, h.keys, Write.isEmpty_touched]

theorem apply (h : b.Holds writes) (c : Content) : c.apply b.writes = c.apply writes :=
  Dict.ext_get? fun k => by
    rw [Content.get?_apply, Content.get?_apply_writes, h.last]

end Batch.Holds

/-- A call that fills a batch. -/
inductive Staging : Type 1 where
  | store {α : Type} [Storable α] (key : String) (a : α)
  | put (key : String) (bytes : Bytes)
  | delete (key : String)

namespace Staging

/-- What the call writes. A value whose payload is too long is not written. -/
def write? : Staging → Option Write
  | store key a => (encode a).toOption.map fun bytes => (key, some bytes)
  | put key bytes => some (key, some bytes)
  | delete key => some (key, none)

def task (b : Batch) : Staging → Task Batch
  | store key a => b.store key a
  | put key bytes => return b.put key bytes
  | delete key => return b.delete key

/-- A call that fails leaves the batch as it was. -/
def run (p : Batch × Engine) (call : Staging) : Batch × Engine :=
  match call.task p.1 p.2 with
  | (.ok b, s) => (b, s)
  | (.error _, s) => (p.1, s)

theorem run_eq (b : Batch) (s : Engine) (call : Staging) :
    run (b, s) call = ((call.write?.map fun w => b.stage w.1 w.2).getD b, s) := by
  cases call with
  | put key bytes => rfl
  | delete key => rfl
  | store key a =>
    cases he : encode a with
    | error x =>
      have hfail : b.store key a s = (.error (.codec x), s) :=
        Task.bind_run_error (by rw [Task.encoded, he]; rfl)
      simp only [run, task, hfail, write?, he]
      rfl
    | ok bytes =>
      have hok : b.store key a s = (.ok (b.put key bytes), s) :=
        Task.bind_run_ok (by rw [Task.encoded, he]; rfl)
      simp only [run, task, hok, write?, he]
      rfl

end Staging

namespace Batch

def filled (calls : List Staging) (s : Engine) : Batch × Engine :=
  calls.foldl Staging.run (empty, s)

theorem holds_filled (calls : List Staging) (s : Engine) :
    (filled calls s).1.Holds (calls.filterMap Staging.write?) ∧ (filled calls s).2 = s := by
  induction calls using List.reverseRecOn with
  | nil => exact ⟨.empty, rfl⟩
  | append_singleton calls call ih =>
    have hstep : filled (calls ++ [call]) s = Staging.run (filled calls s) call :=
      List.foldl_append
    obtain ⟨hb, hs⟩ := ih
    rw [hstep, ← Prod.mk.eta (p := filled calls s), hs, Staging.run_eq, List.filterMap_append]
    refine ⟨?_, rfl⟩
    cases hw : call.write? with
    | none => simpa [hw] using hb
    | some w => simpa [hw] using hb.stage w.1 w.2

theorem decodeFound_run {α : Type} [Storable α] (c : Content) (key : String) (s : Engine) :
    (match c.get? key with
      | some bytes => some <$> Task.decodeAt key bytes
      | none => pure none : Task (Option α)) s = (readAt α c key, s) := by
  unfold readAt
  cases c.get? key with
  | none => rfl
  | some bytes =>
    show (some <$> Task.ofExcept _ : Task (Option α)) s = _
    dsimp only
    cases (decode bytes : Except CodecError α) <;> rfl

namespace Holds

variable {b : Batch} {writes : List Write}

/-- What is read through a batch is what its writes would have left under the key. The store is
asked for a key that they do not touch, and for no other. -/
theorem read?_run {α : Type} [Storable α] (h : b.Holds writes) (key : String) (s : Engine) :
    (b.read? key : Task (Option α)) s =
      if key ∈ Write.touched writes then (readAt α (s.content.apply writes) key, s)
      else match s.faults s.journal (.get key) with
        | some e => (.error (.storeUnavailable e), s.log (.call (.get key)))
        | none => (readAt α (s.content.apply writes) key, s.log (.call (.get key))) := by
  have hvalue := Content.get?_apply_writes s.content writes key
  rw [← h.last] at hvalue
  unfold read?
  cases hk : b.staged key with
  | some v =>
    have hbytes : b.readBytes key s = (.ok v, s) := by
      unfold readBytes
      rw [hk]
      rfl
    have hmem : key ∈ Write.touched writes := by rw [Write.mem_touched, ← h.last, hk]; rfl
    rw [hk, Option.getD_some] at hvalue
    rw [if_pos hmem, Task.bind_run_ok hbytes, ← hvalue]
    exact decodeFound_run _ key s
  | none =>
    have hbytes : b.readBytes key = Task.get key := by
      unfold readBytes
      rw [hk]
    have hmem : key ∉ Write.touched writes := by rw [Write.mem_touched, ← h.last, hk]; simp
    rw [hk, Option.getD_none] at hvalue
    rw [if_neg hmem, hbytes]
    cases hf : s.faults s.journal (.get key) with
    | some e =>
      have hget : Task.get key s = (.error (.storeUnavailable e), s.log (.call (.get key))) :=
        Task.perform_run_error hf
      rw [Task.bind_run_error hget]
    | none =>
      have hget : Task.get key s = (.ok (s.content.get? key), s.log (.call (.get key))) :=
        Task.perform_run_ok hf
      rw [Task.bind_run_ok hget, ← hvalue]
      exact decodeFound_run _ key _

theorem commit_run (h : b.Holds writes) (s : Engine) :
    b.commit s =
      if writes = [] then (.ok 0, s)
      else match s.faults s.journal (.batch b.writes) with
        | some e => (.error (.storeUnavailable e), s.log (.call (.batch b.writes)))
        | none => (.ok (Write.touched writes).length,
            { s.log (.call (.batch b.writes)) with content := s.content.apply writes }) := by
  unfold commit
  rw [h.isEmpty, h.length]
  cases writes with
  | nil => rfl
  | cons w writes =>
    rw [if_neg (List.cons_ne_nil w writes)]
    simp only [List.isEmpty_cons, Bool.not_false, if_true]
    cases hf : s.faults s.journal (.batch b.writes) with
    | some e =>
      have hbatch : Task.batch b.writes s =
          (.error (.storeUnavailable e), s.log (.call (.batch b.writes))) :=
        Task.perform_run_error hf
      rw [Task.bind_run_error hbatch]
    | none =>
      have hbatch : Task.batch b.writes s =
          (.ok (), { s.log (.call (.batch b.writes)) with content := s.content.apply b.writes }) :=
        Task.perform_run_ok hf
      rw [Task.bind_run_ok hbatch, h.apply]
      rfl

end Holds

end Batch

/-- For every content and every row of calls that stage values, bytes and removals: the calls
leave the store alone. What is read through the batch is what the writes, made one after another
in order, would leave under the key. A commit makes no call when nothing was staged and one batch
otherwise, with each key once, in the order of its first write and with what was staged for it
last; it gives the number of these keys and makes of the content what the writes would have made
of it. -/
theorem batch_writes_directly (calls : List Staging) (s : Engine) :
    let b := (Batch.filled calls s).1
    let writes := calls.filterMap Staging.write?
    (Batch.filled calls s).2 = s ∧
    (b.writes.map Prod.fst = Write.touched writes ∧ (Write.touched writes).Nodup ∧
      ∀ k, b.staged k = Write.last? writes k) ∧
    (∀ (α : Type) [Storable α] (key : String) (s : Engine),
      (b.read? key : Task (Option α)) s =
        if key ∈ Write.touched writes then (readAt α (s.content.apply writes) key, s)
        else match s.faults s.journal (.get key) with
          | some e => (.error (.storeUnavailable e), s.log (.call (.get key)))
          | none => (readAt α (s.content.apply writes) key, s.log (.call (.get key)))) ∧
    ∀ s : Engine, b.commit s =
      if writes = [] then (.ok 0, s)
      else match s.faults s.journal (.batch b.writes) with
        | some e => (.error (.storeUnavailable e), s.log (.call (.batch b.writes)))
        | none => (.ok (Write.touched writes).length,
            { s.log (.call (.batch b.writes)) with content := s.content.apply writes }) := by
  intro b writes
  obtain ⟨hb, hs⟩ := Batch.holds_filled calls s
  exact ⟨hs, ⟨b.map_fst_writes.trans hb.keys, Write.nodup_touched writes, hb.last⟩, fun α _ key s => hb.read?_run key s,
    hb.commit_run⟩

end IndexedStore
