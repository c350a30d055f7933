import IndexedStore.Proofs.Collection.Dict
import IndexedStore.Proofs.Key.Slot
import IndexedStore.Storage.Content

/-! # Prefix scans

Texts that start with a given prefix stand together in the order of texts, beginning at
the prefix itself. A scan may therefore stop at the first key that does not start with the
prefix (`scan_eq_filter`), and finds exactly the stored keys that do (`mem_scan`).
-/
namespace IndexedStore

namespace Key

theorem not_lt_of_prefix {p a : List Char} (h : p <+: a) : ¬ a < p := by
  obtain ⟨t, rfl⟩ := h
  induction p with
  | nil => exact List.not_lt_nil _
  | cons c p ih =>
    intro hlt
    rcases List.cons_lt_cons_iff.mp hlt with hc | ⟨-, hp⟩
    · exact absurd hc (Std.lt_irrefl)
    · exact ih hp

/-- What lies between a prefix and a text that starts with it starts with it as well. -/
theorem prefix_of_between {p a c : List Char} (hpa : ¬ a < p) (hac : a < c) (hp : p <+: c) :
    p <+: a := by
  induction p generalizing a c with
  | nil => exact List.nil_prefix
  | cons x p ih =>
    obtain ⟨t, rfl⟩ := hp
    cases a with
    | nil => exact absurd (List.nil_lt_cons x p) hpa
    | cons y a =>
      rw [List.cons_lt_cons_iff] at hpa
      rw [List.cons_append, List.cons_lt_cons_iff] at hac
      obtain ⟨hxy, hap⟩ := not_or.mp hpa
      rcases hac with hlt | ⟨rfl, hlt⟩
      · exact absurd hlt hxy
      · have := ih (fun h => hap ⟨rfl, h⟩) hlt (List.prefix_append p t)
        exact List.cons_prefix_cons.mpr ⟨rfl, this⟩

end Key

namespace Content

variable {start : String}

theorem takeWhile_eq_filter {l : List (String × Bytes)} (hl : Assoc.Sorted l)
    (hs : ∀ e ∈ l, ¬ e.1 < start) :
    l.takeWhile (fun e => Key.hasPrefix start e.1) =
      l.filter fun e => Key.hasPrefix start e.1 := by
  induction l with
  | nil => rfl
  | cons e l ih =>
    obtain ⟨he, hl'⟩ := List.pairwise_cons.mp hl
    rw [List.takeWhile_cons, List.filter_cons]
    by_cases hp : Key.hasPrefix start e.1 = true
    · rw [if_pos hp, if_pos hp, ih hl' fun f hf => hs f (List.mem_cons_of_mem _ hf)]
    · rw [if_neg hp, if_neg hp, eq_comm, List.filter_eq_nil_iff]
      intro f hf hpf
      refine hp (List.isPrefixOf_iff_prefix.mpr ?_)
      exact Key.prefix_of_between (fun h => hs e List.mem_cons_self (String.lt_iff.mpr h))
        (String.lt_iff.mp (he f hf)) (List.isPrefixOf_iff_prefix.mp hpf)

/-- A scan finds all keys that start with the prefix, though it stops early. -/
theorem scan_eq_filter (c : Content) (start : String) :
    c.scan start = c.entries.filter fun e => Key.hasPrefix start e.1 := by
  obtain ⟨l, hl⟩ := c
  unfold scan
  induction l with
  | nil => rfl
  | cons e l ih =>
    obtain ⟨he, hl'⟩ := List.pairwise_cons.mp hl
    by_cases hlt : e.1 < start
    · have hp : ¬ Key.hasPrefix start e.1 = true := fun h =>
        Key.not_lt_of_prefix (List.isPrefixOf_iff_prefix.mp h) (String.lt_iff.mp hlt)
      rw [List.dropWhile_cons, if_pos (by simpa using hlt), List.filter_cons, if_neg hp]
      exact ih hl'
    · rw [List.dropWhile_cons, if_neg (by simpa using hlt)]
      refine takeWhile_eq_filter hl fun f hf => ?_
      rcases List.mem_cons.mp hf with rfl | hf
      · exact hlt
      · exact fun h => hlt (Std.lt_trans (he f hf) h)

theorem mem_scan {c : Content} {k : String} {b : Bytes} :
    (k, b) ∈ c.scan start ↔ c.get? k = some b ∧ Key.hasPrefix start k = true := by
  rw [scan_eq_filter, List.mem_filter, Dict.mem_entries]

end Content

end IndexedStore
