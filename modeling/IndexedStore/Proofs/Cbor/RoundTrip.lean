import IndexedStore.Proofs.Cbor.Scalar

/-! # Written items are read back

An item nests a number of containers. Reading what was written gives the item again and
stops where it ends, unless it nests more containers than the reader allows
(`readItem_write`).
-/
namespace IndexedStore.Cbor

namespace Item

mutual

/-- How many containers lie inside one another. -/
def nesting : Item → Nat
  | array items => itemsNesting items + 1
  | map _ entries => entriesNesting entries + 1
  | tagged _ i => i.nesting + 1
  | _ => 0

def itemsNesting : List Item → Nat
  | [] => 0
  | i :: items => max i.nesting (itemsNesting items)

def entriesNesting : List (Item × Item) → Nat
  | [] => 0
  | (k, v) :: entries => max (max k.nesting v.nesting) (entriesNesting entries)

end

mutual

/-- Maps are marked as short by the number of their entries. -/
def Canonical : Item → Prop
  | array items => AllCanonical items
  | map short entries => short = decide (entries.length < 24) ∧ EntriesCanonical entries
  | tagged _ i => i.Canonical
  | _ => True

def AllCanonical : List Item → Prop
  | [] => True
  | i :: items => i.Canonical ∧ AllCanonical items

def EntriesCanonical : List (Item × Item) → Prop
  | [] => True
  | (k, v) :: entries => k.Canonical ∧ v.Canonical ∧ EntriesCanonical entries

end

end Item

open Item

mutual

theorem length_write_lt (i : Item) (tail : Bytes) : tail.length < (i.write tail).length := by
  cases i with
  | unsigned n => exact length_head_lt 0 n.toNat tail
  | negative n => exact length_head_lt 1 n.toNat tail
  | bytes b =>
    have h := length_head_lt 2 b.length (b ++ tail)
    rw [List.length_append] at h
    rw [write]
    omega
  | text s =>
    have h := length_head_lt 3 (utf8 s).length (utf8 s ++ tail)
    rw [List.length_append] at h
    rw [write]
    omega
  | array items =>
    have h := length_writeItems_le items tail
    have hh := length_head_lt 4 items.length (writeItems items tail)
    rw [write]
    omega
  | map short entries =>
    have h := length_writeEntries_le entries tail
    have hh := length_head_lt 5 entries.length (writeEntries entries tail)
    rw [write]
    omega
  | tagged n i =>
    have h := length_write_lt i tail
    have hh := length_head_lt 6 n.toNat (i.write tail)
    rw [write]
    omega
  | bool b => exact Nat.lt_succ_self _
  | null => exact Nat.lt_succ_self _
  | undefined => exact Nat.lt_succ_self _
  | float x => exact length_writeFloat_lt x tail

theorem length_writeItems_le (items : List Item) (tail : Bytes) :
    items.length + tail.length ≤ (writeItems items tail).length := by
  cases items with
  | nil => simp [writeItems]
  | cons i items =>
    have h := length_write_lt i (writeItems items tail)
    have hh := length_writeItems_le items tail
    rw [writeItems, List.length_cons]
    omega

theorem length_writeEntries_le (entries : List (Item × Item)) (tail : Bytes) :
    entries.length + tail.length ≤ (writeEntries entries tail).length := by
  match entries with
  | [] => simp [writeEntries]
  | (k, v) :: entries =>
    have h := length_write_lt k (v.write (writeEntries entries tail))
    have hv := length_write_lt v (writeEntries entries tail)
    have hh := length_writeEntries_le entries tail
    rw [writeEntries, List.length_cons]
    omega

end

theorem length_write_text_le (s : String) (tail : Bytes) :
    ((text s).write tail).length ≤ tail.length + (utf8 s).length + 9 := by
  have h := length_head_le 3 (utf8 s).length (utf8 s ++ tail)
  rw [List.length_append] at h
  rw [write]
  omega

section Announced

variable {b : UInt8} {rest tail : Bytes} {major n : Nat}

theorem readItem_scalar (h : Announces b rest major n tail) (hm : major < 4) (d : Nat) :
    readItem d (b :: rest) = readScalar major (.exactly n) tail := by
  have hne : ¬major = 7 := by omega
  unfold readItem
  simp only [h.major_eq, h.argument, hne, hm, if_true, if_false]

theorem readItem_zero (h : Announces b rest major n tail) (hm : 4 ≤ major) (hm' : major < 7) :
    readItem 0 (b :: rest) = none := by
  have hne : ¬major = 7 := by omega
  unfold readItem
  simp only [h.major_eq, h.argument, hne, Nat.not_lt.mpr hm, if_false]

theorem readItem_succ (h : Announces b rest major n tail) (hm : 4 ≤ major) (hm' : major < 7)
    (d : Nat) : readItem (d + 1) (b :: rest) =
      readContainer (readItem d) major (b.toNat % 32) (.exactly n) tail := by
  have hne : ¬major = 7 := by omega
  rw [readItem]
  simp only [h.major_eq, h.argument, hne, Nat.not_lt.mpr hm, if_false]

end Announced

theorem readItem_simple {b : UInt8} {rest tail : Bytes} {i : Item} (hb : b.toNat / 32 = 7)
    (h : readSimple (b.toNat % 32) rest = some (i, tail)) (d : Nat) :
    readItem d (b :: rest) = some (i, tail) := by
  unfold readItem
  simp only [hb, h, if_true]

theorem readItem_write_unsigned (n : UInt64) (d : Nat) (tail : Bytes) :
    readItem d ((unsigned n).write tail) = some (unsigned n, tail) := by
  obtain ⟨b, rest, hb, ha⟩ := announces_head (by decide : 0 < 8) n.toNat_lt tail
  rw [write, hb, readItem_scalar ha (by decide)]
  simp [readScalar]

theorem readItem_write_negative (n : UInt64) (d : Nat) (tail : Bytes) :
    readItem d ((negative n).write tail) = some (negative n, tail) := by
  obtain ⟨b, rest, hb, ha⟩ := announces_head (by decide : 1 < 8) n.toNat_lt tail
  rw [write, hb, readItem_scalar ha (by decide)]
  simp [readScalar]

theorem readItem_write_bytes (s : Bytes) (d : Nat) (tail : Bytes)
    (hl : ((bytes s).write tail).length < 2 ^ 64) :
    readItem d ((bytes s).write tail) = some (bytes s, tail) := by
  rw [write] at hl ⊢
  have hlen := length_head_lt 2 s.length (s ++ tail)
  rw [List.length_append] at hlen
  have hs : s.length < 2 ^ 64 := by omega
  obtain ⟨b, rest, hb, ha⟩ := announces_head (by decide : 2 < 8) hs (s ++ tail)
  rw [hb, readItem_scalar ha (by decide)]
  simp [readScalar, readString, readChunk_append]

theorem readItem_write_text (s : String) (d : Nat) (tail : Bytes)
    (hl : ((text s).write tail).length < 2 ^ 64) :
    readItem d ((text s).write tail) = some (text s, tail) := by
  rw [write] at hl ⊢
  have hlen := length_head_lt 3 (utf8 s).length (utf8 s ++ tail)
  rw [List.length_append] at hlen
  have hs : (utf8 s).length < 2 ^ 64 := by omega
  obtain ⟨b, rest, hb, ha⟩ := announces_head (by decide : 3 < 8) hs (utf8 s ++ tail)
  rw [hb, readItem_scalar ha (by decide)]
  simp [readScalar, readString, readChunk_append, utf8?_utf8]

theorem readItem_write_array (items : List Item) (d : Nat) (tail : Bytes)
    (hl : ((array items).write tail).length < 2 ^ 64)
    (hitems : (writeItems items tail).length < 2 ^ 64 → ∀ d,
      readExactly (readItem d) items.length [] (writeItems items tail) =
        if itemsNesting items ≤ d then some (items, tail) else none) :
    readItem d ((array items).write tail) =
      if (array items).nesting ≤ d then some (array items, tail) else none := by
  rw [write] at hl ⊢
  have hlen := length_head_lt 4 items.length (writeItems items tail)
  have hcount := length_writeItems_le items tail
  have hn : items.length < 2 ^ 64 := by omega
  obtain ⟨b, rest, hb, ha⟩ := announces_head (by decide : 4 < 8) hn (writeItems items tail)
  rw [hb]
  cases d with
  | zero => simp [readItem_zero ha (by decide) (by decide), nesting]
  | succ d =>
    rw [readItem_succ ha (by decide) (by decide)]
    simp only [readContainer, readMany]
    rw [hitems (by omega) d]
    by_cases hd : itemsNesting items ≤ d <;> simp [nesting, hd]

theorem readItem_write_map (entries : List (Item × Item)) (d : Nat) (tail : Bytes)
    (hl : ((map (entries.length < 24) entries).write tail).length < 2 ^ 64)
    (hentries : (writeEntries entries tail).length < 2 ^ 64 → ∀ d,
      readExactly (readEntry (readItem d)) entries.length [] (writeEntries entries tail) =
        if entriesNesting entries ≤ d then some (entries, tail) else none) :
    readItem d ((map (entries.length < 24) entries).write tail) =
      if (map (entries.length < 24) entries).nesting ≤ d then
        some (map (entries.length < 24) entries, tail)
      else none := by
  rw [write] at hl ⊢
  have hlen := length_head_lt 5 entries.length (writeEntries entries tail)
  have hcount := length_writeEntries_le entries tail
  have hn : entries.length < 2 ^ 64 := by omega
  obtain ⟨b, rest, hb, ha⟩ := announces_head (by decide : 5 < 8) hn (writeEntries entries tail)
  rw [hb]
  cases d with
  | zero => simp [readItem_zero ha (by decide) (by decide), nesting]
  | succ d =>
    rw [readItem_succ ha (by decide) (by decide)]
    simp only [readContainer, readMany, ha.short_iff]
    rw [hentries (by omega) d]
    by_cases hd : entriesNesting entries ≤ d <;> simp [nesting, hd]

theorem readItem_write_tagged (n : UInt64) (i : Item) (d : Nat) (tail : Bytes)
    (hl : ((tagged n i).write tail).length < 2 ^ 64)
    (hi : (i.write tail).length < 2 ^ 64 → ∀ d,
      readItem d (i.write tail) = if i.nesting ≤ d then some (i, tail) else none) :
    readItem d ((tagged n i).write tail) =
      if (tagged n i).nesting ≤ d then some (tagged n i, tail) else none := by
  rw [write] at hl ⊢
  have hlen := length_head_lt 6 n.toNat (i.write tail)
  obtain ⟨b, rest, hb, ha⟩ := announces_head (by decide : 6 < 8) n.toNat_lt (i.write tail)
  rw [hb]
  cases d with
  | zero => simp [readItem_zero ha (by decide) (by decide), nesting]
  | succ d =>
    rw [readItem_succ ha (by decide) (by decide)]
    simp only [readContainer]
    rw [hi (by omega) d]
    by_cases hd : i.nesting ≤ d <;> simp [nesting, hd]

mutual

/-- An item that nests at most `d` deep is read back, a deeper one is refused. -/
theorem readItem_write (i : Item) (hc : i.Canonical) (d : Nat) (tail : Bytes)
    (hl : (i.write tail).length < 2 ^ 64) :
    readItem d (i.write tail) = if i.nesting ≤ d then some (i, tail) else none := by
  cases i with
  | unsigned n =>
    rw [readItem_write_unsigned]
    simp [nesting]
  | negative n =>
    rw [readItem_write_negative]
    simp [nesting]
  | bytes s =>
    rw [readItem_write_bytes s d tail hl]
    simp [nesting]
  | text s =>
    rw [readItem_write_text s d tail hl]
    simp [nesting]
  | array items =>
    refine readItem_write_array items d tail hl fun hitems d => ?_
    exact readExactly_writeItems items hc d [] tail hitems
  | map short entries =>
    obtain ⟨rfl, hc⟩ := hc
    refine readItem_write_map entries d tail hl fun hentries d => ?_
    exact readExactly_writeEntries entries hc d [] tail hentries
  | tagged n i =>
    refine readItem_write_tagged n i d tail hl fun hi d => ?_
    exact readItem_write i hc d tail hi
  | bool b => cases b <;> simp [write, nesting] <;> exact readItem_simple (by decide) rfl d
  | null =>
    simp only [write, nesting, Nat.zero_le, if_true]
    exact readItem_simple (by decide) rfl d
  | undefined =>
    simp only [write, nesting, Nat.zero_le, if_true]
    exact readItem_simple (by decide) rfl d
  | float x =>
    obtain ⟨b, rest, hb, hm, hr⟩ := readSimple_writeFloat x tail
    rw [write, hb, readItem_simple hm hr]
    simp [nesting]

theorem readExactly_writeItems (items : List Item) (hc : AllCanonical items) (d : Nat)
    (done : List Item) (tail : Bytes) (hl : (writeItems items tail).length < 2 ^ 64) :
    readExactly (readItem d) items.length done (writeItems items tail) =
      if itemsNesting items ≤ d then some (done.reverse ++ items, tail) else none := by
  cases items with
  | nil => simp [readExactly, writeItems, itemsNesting]
  | cons i items =>
    rw [writeItems] at hl ⊢
    have hlen := length_write_lt i (writeItems items tail)
    rw [List.length_cons, readExactly, readItem_write i hc.1 d _ hl]
    by_cases hi : i.nesting ≤ d
    · simp only [hi, if_true]
      rw [readExactly_writeItems items hc.2 d (i :: done) tail (by omega)]
      simp [itemsNesting, hi]
    · simp [itemsNesting, hi]

theorem readExactly_writeEntries (entries : List (Item × Item)) (hc : EntriesCanonical entries)
    (d : Nat) (done : List (Item × Item)) (tail : Bytes)
    (hl : (writeEntries entries tail).length < 2 ^ 64) :
    readExactly (readEntry (readItem d)) entries.length done (writeEntries entries tail) =
      if entriesNesting entries ≤ d then some (done.reverse ++ entries, tail) else none := by
  match entries with
  | [] => simp [readExactly, writeEntries, entriesNesting]
  | (k, v) :: entries =>
    obtain ⟨hk, hv, hc⟩ := hc
    rw [writeEntries] at hl ⊢
    have hlen := length_write_lt k (v.write (writeEntries entries tail))
    have hlen' := length_write_lt v (writeEntries entries tail)
    rw [List.length_cons, readExactly, readEntry, readItem_write k hk d _ hl]
    by_cases hkd : k.nesting ≤ d
    · simp only [hkd, if_true]
      rw [readItem_write v hv d _ (by omega)]
      by_cases hvd : v.nesting ≤ d
      · simp only [hvd, if_true, Option.map_some]
        rw [readExactly_writeEntries entries hc d ((k, v) :: done) tail (by omega)]
        simp [entriesNesting, hkd, hvd]
      · simp [entriesNesting, hvd]
    · simp [entriesNesting, hkd]

end

/-- A whole written item is read back unless it nests too deeply. -/
theorem readAll_write {i : Item} (hc : i.Canonical) (hl : (i.write []).length < 2 ^ 64) :
    readAll (i.write []) = if i.nesting ≤ maxNesting then some i else none := by
  rw [readAll, readItem_write i hc maxNesting [] hl]
  by_cases hn : i.nesting ≤ maxNesting <;> simp [hn]

end IndexedStore.Cbor
