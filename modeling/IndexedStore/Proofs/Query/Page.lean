import IndexedStore.Proofs.Number.Saturating
import IndexedStore.Query.Page

/-! # Page arithmetic

Offsets, counts of pages and the test for a next page in numbers. Positions stop at the largest
word, but no list that is counted by a word reaches as far, so that they might as well go on.
-/
namespace IndexedStore

universe u

variable {α : Type u}

/-- The first `n` windows of a list, one after another, are a beginning of the list. -/
theorem flatMap_windows (l : List α) (size n : Nat) :
    ((List.range n).flatMap fun i => (l.drop (i * size)).take size) = l.take (n * size) := by
  induction n with
  | zero => simp
  | succ n ih =>
    rw [List.range_succ, List.flatMap_append, ih, List.flatMap_singleton, Nat.succ_mul,
      List.take_add]

namespace PageRequest

theorem toNat_offset (r : PageRequest) :
    r.offset.toNat = min (r.page.toNat * r.size.toNat) (2 ^ 64 - 1) := Number.toNat_satMul _ _

theorem slice_eq {l : List α} (hl : l.length < 2 ^ 64) (r : PageRequest) :
    r.slice l = (l.drop (r.page.toNat * r.size.toNat)).take r.size.toNat := by
  rw [slice, toNat_offset]
  by_cases h : r.page.toNat * r.size.toNat ≤ 2 ^ 64 - 1
  · rw [Nat.min_eq_left h]
  · rw [Nat.min_eq_right (by omega), List.drop_of_length_le (by omega),
      List.drop_of_length_le (by omega)]

theorem slice_of_past {l : List α} (hl : l.length < 2 ^ 64) {r : PageRequest}
    (h : l.length ≤ r.page.toNat * r.size.toNat) : r.slice l = [] := by
  rw [slice_eq hl, List.drop_of_length_le h, List.take_nil]

end PageRequest

namespace Page

variable {p : Page α} {r : PageRequest}

theorem lt_totalPages (hr : p.request = some r) (hs : r.size ≠ 0) (n : Nat) :
    n < p.totalPages.toNat ↔ n * r.size.toNat < p.total.toNat := by
  have hsize : r.size.toNat ≠ 0 := fun h => hs (UInt64.toNat_inj.mp h)
  have htotal := p.total.toNat_lt
  have hdiv := Nat.div_add_mod p.total.toNat r.size.toNat
  unfold totalPages
  rw [hr]
  simp only [hs, if_false]
  split
  · rename_i hm
    have hmod : p.total.toNat % r.size.toNat = 0 := by
      rw [← UInt64.toNat_mod, hm]
      rfl
    rw [UInt64.toNat_div]
    exact Nat.lt_div_iff_mul_lt_of_dvd hsize (Nat.dvd_of_mod_eq_zero hmod)
  · rename_i hm
    have hmod : p.total.toNat % r.size.toNat ≠ 0 := by
      rw [← UInt64.toNat_mod]
      exact fun h => hm (UInt64.toNat_inj.mp h)
    have htwo : 2 ≤ r.size.toNat := by
      have hlt := Nat.mod_lt p.total.toNat (Nat.pos_of_ne_zero hsize)
      omega
    have hhalf := Nat.mul_le_mul_right (p.total.toNat / r.size.toNat) htwo
    have hcount : (p.total / r.size + 1).toNat = p.total.toNat / r.size.toNat + 1 := by
      rw [UInt64.toNat_add, UInt64.toNat_div, UInt64.toNat_one]
      exact Nat.mod_eq_of_lt (by omega)
    have hne : n * r.size.toNat ≠ p.total.toNat := fun h => hmod (by rw [← h, Nat.mul_mod_left])
    rw [hcount, Nat.lt_succ_iff, Nat.le_div_iff_mul_le (Nat.pos_of_ne_zero hsize)]
    omega

theorem hasNext_iff (hr : p.request = some r) :
    p.hasNext = true ↔ (r.page.toNat + 1) * r.size.toNat < p.total.toNat := by
  have htotal := p.total.toNat_lt
  unfold hasNext
  rw [hr, Nat.succ_mul]
  simp only [decide_eq_true_eq, UInt64.lt_iff_toNat_lt, Number.toNat_satAdd,
    PageRequest.toNat_offset]
  omega

theorem hasNext_iff_lt_totalPages (hr : p.request = some r) (hs : r.size ≠ 0) :
    p.hasNext = true ↔ r.page.toNat + 1 < p.totalPages.toNat := by
  rw [hasNext_iff hr, lt_totalPages hr hs]

theorem nextRequest?_eq_none (hr : p.request = some r) :
    p.nextRequest? = none ↔ p.total.toNat ≤ (r.page.toNat + 1) * r.size.toNat := by
  have h := hasNext_iff hr
  unfold nextRequest?
  cases hn : p.hasNext <;> simp_all

theorem nextRequest?_of_lt (hr : p.request = some r)
    (h : (r.page.toNat + 1) * r.size.toNat < p.total.toNat) :
    p.nextRequest? = some r.next := by
  unfold nextRequest?
  rw [(hasNext_iff hr).mpr h, hr]
  rfl

end Page

theorem PageRequest.next_ofNat {n : Nat} {size : UInt64} (h : n + 1 < 2 ^ 64) :
    (PageRequest.mk (UInt64.ofNat n) size).next = ⟨UInt64.ofNat (n + 1), size⟩ := by
  refine congrArg (PageRequest.mk · size) (UInt64.toNat_inj.mp ?_)
  rw [Number.toNat_satAdd, UInt64.toNat_ofNat', UInt64.toNat_ofNat', UInt64.toNat_one]
  omega

namespace Page

/-- The part of an unpaged result that a page request asks for. -/
def window (u : Page α) (r : PageRequest) : Page α := ⟨r.slice u.items, some r, u.total⟩

def windows (u : Page α) (size : UInt64) (n : Nat) : List (Page α) :=
  (List.range n).map fun i => u.window ⟨UInt64.ofNat i, size⟩

variable {u : Page α} {size : UInt64} {n : Nat}

theorem items_window (hl : u.items.length < 2 ^ 64) {i : Nat} (hi : i < 2 ^ 64) :
    (u.window ⟨UInt64.ofNat i, size⟩).items =
      (u.items.drop (i * size.toNat)).take size.toNat := by
  rw [window, PageRequest.slice_eq hl, UInt64.toNat_ofNat', Nat.mod_eq_of_lt hi]

theorem flatMap_items_windows (hl : u.items.length < 2 ^ 64) (hn : n < 2 ^ 64)
    (h : u.items.length ≤ n * size.toNat) : (u.windows size n).flatMap items = u.items := by
  calc (u.windows size n).flatMap items
      = (List.range n).flatMap fun i => (u.items.drop (i * size.toNat)).take size.toNat := by
        rw [windows, List.flatMap_map, List.flatMap_def, List.flatMap_def,
          List.map_congr_left fun i hi =>
            items_window hl (Nat.lt_trans (List.mem_range.mp hi) hn)]
    _ = u.items.take (n * size.toNat) := flatMap_windows _ _ _
    _ = u.items := List.take_of_length_le h

theorem length_of_mem_windows (hl : u.items.length < 2 ^ 64) (hn : n < 2 ^ 64)
    (h : n * size.toNat ≤ u.items.length) {p : Page α} (hp : p ∈ u.windows size n) :
    p.items.length = size.toNat := by
  obtain ⟨i, hi, rfl⟩ := List.mem_map.mp hp
  have hi := List.mem_range.mp hi
  have hle := Nat.mul_le_mul_right size.toNat (Nat.succ_le_of_lt hi)
  rw [Nat.succ_mul] at hle
  rw [items_window hl (Nat.lt_trans hi hn), List.length_take, List.length_drop]
  omega

theorem windows_succ (u : Page α) (size : UInt64) (n : Nat) :
    u.windows size (n + 1) = u.windows size n ++ [u.window ⟨UInt64.ofNat n, size⟩] := by
  rw [windows, List.range_succ, List.map_append]
  rfl

/-- The pages of a result, or the one page of an empty result: the result reaches into each that
follows the first, and not beyond the last. -/
theorem exists_count (u : Page α) (hs : size ≠ 0) :
    ∃ n, n + 1 = max 1 (u.window ⟨0, size⟩).totalPages.toNat ∧ n + 1 < 2 ^ 64 ∧
      u.total.toNat ≤ (n + 1) * size.toNat ∧
      ∀ i, i < n → (i + 1) * size.toNat < u.total.toNat := by
  have hpages := lt_totalPages (p := u.window ⟨0, size⟩) rfl hs
  have hword := (u.window ⟨0, size⟩).totalPages.toNat_lt
  refine ⟨max 1 (u.window ⟨0, size⟩).totalPages.toNat - 1, by omega, by omega, ?_, fun i hi => ?_⟩
  · exact Nat.not_lt.mp fun h => absurd ((hpages _).mpr h) (by omega)
  · exact (hpages (i + 1)).mp (by omega)

theorem window_of_past (hl : u.items.length < 2 ^ 64) (hcount : u.total.toNat = u.items.length)
    (hs : r.size ≠ 0) (h : (u.window r).totalPages ≤ r.page) :
    (u.window r).items = [] ∧ (u.window r).nextRequest? = none := by
  have hpast : u.total.toNat ≤ r.page.toNat * r.size.toNat := by
    refine Nat.not_lt.mp fun hlt => ?_
    have hn := (lt_totalPages (p := u.window r) rfl hs r.page.toNat).mpr hlt
    exact Nat.not_le.mpr hn (UInt64.le_iff_toNat_le.mp h)
  refine ⟨PageRequest.slice_of_past hl (hcount ▸ hpast), (nextRequest?_eq_none rfl).mpr ?_⟩
  rw [Nat.succ_mul]
  exact Nat.le_trans hpast (Nat.le_add_right _ _)

end Page

end IndexedStore
