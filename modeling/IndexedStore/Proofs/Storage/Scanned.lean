import IndexedStore.Proofs.Storage.Scan
import IndexedStore.Proofs.Storage.Staging
import IndexedStore.Proofs.Text.Order
import IndexedStore.Storage.Mutation

/-! # Scans of what was written

After any calls a key has what was written to it last. Main statement: a scan finds the keys whose
bytes start with those of the prefix, in the order of their bytes, each with what was written to
it last; what it passes over lies below the prefix, and what it leaves out behind does not start
with it.
-/
namespace IndexedStore

open Cbor (utf8)

def Mutation.writes : Mutation → List Write
  | put k b => [(k, some b)]
  | delete k => [(k, none)]
  | batch writes => writes

namespace Content

theorem change_eq (c : Content) (call : Mutation) : c.change call = c.apply call.writes := by
  cases call <;> rfl

theorem after_eq (calls : List Mutation) :
    after calls = Content.apply Dict.empty (calls.flatMap Mutation.writes) := by
  suffices h : ∀ c : Content, calls.foldl change c = c.apply (calls.flatMap Mutation.writes) from
    h Dict.empty
  induction calls with
  | nil => exact fun c => rfl
  | cons call calls ih =>
    intro c
    rw [List.foldl_cons, ih, change_eq, List.flatMap_cons]
    exact List.foldl_append.symm

/-- A key has what was written to it last, by whichever call. -/
theorem get?_after (calls : List Mutation) (k : String) :
    (after calls).get? k = (Write.last? (calls.flatMap Mutation.writes) k).getD none := by
  rw [after_eq, get?_apply_writes]
  rfl

theorem hasPrefix_iff_utf8 {start key : String} :
    Key.hasPrefix start key = true ↔ utf8 start <+: utf8 key := by
  rw [Cbor.utf8_prefix_iff]
  exact List.isPrefixOf_iff_prefix

theorem pairwise_entries (c : Content) :
    c.entries.Pairwise fun e f => utf8 e.1 < utf8 f.1 :=
  c.sorted.imp Cbor.utf8_lt

theorem entries_eq_scan (c : Content) (start : String) :
    ∃ below above, c.entries = below ++ c.scan start ++ above ∧
      (∀ e ∈ below, utf8 e.1 < utf8 start) ∧ ∀ e ∈ above, ¬utf8 start <+: utf8 e.1 := by
  have hsplit : c.entries = c.entries.takeWhile (fun e => e.1 < start) ++ c.scan start ++
      (c.entries.dropWhile fun e => e.1 < start).dropWhile fun e => Key.hasPrefix start e.1 := by
    rw [List.append_assoc, scan, List.takeWhile_append_dropWhile, List.takeWhile_append_dropWhile]
  refine ⟨_, _, hsplit, fun e he => ?_, fun e he hprefix => ?_⟩
  · have hlt := List.all_eq_true.mp List.all_takeWhile e he
    exact Cbor.utf8_lt (by simpa using hlt)
  · have hmem : e ∈ c.scan start := by
      rw [scan_eq_filter, List.mem_filter, hasPrefix_iff_utf8]
      exact ⟨hsplit ▸ List.mem_append_right _ he, hprefix⟩
    have horder := c.pairwise_entries
    rw [hsplit, List.pairwise_append] at horder
    exact List.lt_irrefl _ (horder.2.2 e (List.mem_append_right _ hmem) e he)

/-- For every row of calls and every prefix: a scan finds exactly the keys whose bytes start with
those of the prefix and to which bytes were written last, with these bytes, in the strict order of
their bytes. -/
theorem scan_after (calls : List Mutation) (start : String) :
    (∀ key bytes, (key, bytes) ∈ (after calls).scan start ↔
      utf8 start <+: utf8 key ∧
        Write.last? (calls.flatMap Mutation.writes) key = some (some bytes)) ∧
    ((after calls).scan start).Pairwise (fun e f => utf8 e.1 < utf8 f.1) ∧
    ∃ below above, (after calls).entries = below ++ (after calls).scan start ++ above ∧
      (∀ e ∈ below, utf8 e.1 < utf8 start) ∧ ∀ e ∈ above, ¬utf8 start <+: utf8 e.1 := by
  refine ⟨fun key bytes => ?_, ?_, entries_eq_scan _ start⟩
  · rw [mem_scan, get?_after, hasPrefix_iff_utf8, and_comm]
    cases Write.last? (calls.flatMap Mutation.writes) key <;> simp
  · rw [scan_eq_filter]
    exact (pairwise_entries _).filter _

example : (after [.put "persons:2" [1], .batch [("personsx:1", some [2]), ("person", some [3])],
    .put "personś:1" [4], .put "persons:1" [5], .put "persons:2" [6]]).scan "persons:" =
      [("persons:1", [5]), ("persons:2", [6])] := by decide

end Content

end IndexedStore
