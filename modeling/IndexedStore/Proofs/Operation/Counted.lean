import IndexedStore.Proofs.Index.Planned
import IndexedStore.Proofs.Operation.Delete
import Mathlib.Data.List.Nodup

/-! # The counts of a plan

A plan counts the index keys that it inserts and removes. These are the index keys that the
batch puts and deletes: no key is both, and none is listed twice.
-/
namespace IndexedStore

open Key (IsName Slot)

namespace Key

/-- An equality or geo key of the keyspace. -/
def IsIndex (keyspace key : String) : Prop :=
  (∃ path token id, key = equality keyspace path token id) ∨ ∃ path id, key = geo keyspace path id

variable {keyspace id : String}

theorem isIndex_of_ref? {slot : Slot} {r : IndexRef} (h : slot.ref? keyspace id = some r) :
    IsIndex keyspace r.key := by
  cases slot <;> cases h
  · exact .inl ⟨_, _, _, rfl⟩
  · exact .inr ⟨_, _, rfl⟩

/-- A slot of any entity with so few segments holds no index key. -/
theorem IsIndex.ne_key {k : String} (h : IsIndex keyspace k) (hk : IsName keyspace) (slot : Slot)
    (hslot : (slot.segments id).length ≤ 2) : k ≠ slot.key keyspace id := by
  rintro rfl
  obtain ⟨path, token, id', he⟩ | ⟨path, id', he⟩ := h
  · have hkey : slot.key keyspace id = Slot.key keyspace id' (.equality path token) := he
    have hseg := (Slot.segments_of_key hk hk hkey).2
    rw [hseg] at hslot
    exact absurd hslot (by simp [Slot.segments])
  · have hkey : slot.key keyspace id = Slot.key keyspace id' (.geo path) := he
    have hseg := (Slot.segments_of_key hk hk hkey).2
    rw [hseg] at hslot
    exact absurd hslot (by simp [Slot.segments])

end Key

/-- Exactly `n` texts satisfy `p`. -/
def Counts (p : String → Prop) (n : Nat) : Prop :=
  ∃ l : List String, l.Nodup ∧ (∀ k, k ∈ l ↔ p k) ∧ l.length = n

def Write.Puts (keyspace : String) (writes : List Write) (key : String) : Prop :=
  Key.IsIndex keyspace key ∧ ∃ b, (key, some b) ∈ writes

def Write.Removes (keyspace : String) (writes : List Write) (key : String) : Prop :=
  Key.IsIndex keyspace key ∧ (key, none) ∈ writes

theorem BackRefs.nodup_toList (r : BackRefs) : r.toList.Nodup := by
  refine List.nodup_append.mpr ⟨?_, ?_, fun a ha b hb hab => ?_⟩
  · exact r.equality.nodup_keys.map fun _ _ h => IndexRef.equality.inj h
  · exact r.geo.nodup_keys.map fun _ _ h => IndexRef.geo.inj h
  · obtain ⟨k, -, rfl⟩ := List.mem_map.mp ha
    obtain ⟨k', -, rfl⟩ := List.mem_map.mp hb
    cases hab

namespace IndexPlan

/-- What the plan counts is what the batch does to index keys. -/
structure Counted (p : IndexPlan) (keyspace : String) (b : Batch) : Prop where
  inserts : Counts (Write.Puts keyspace b.writes) p.inserts
  removes : Counts (Write.Removes keyspace b.writes) p.removes

/-- A batch that puts the index keys `written` and deletes those of the plan. -/
theorem counted_of {p : IndexPlan} {keyspace : String} {b : Batch} (written : List String)
    (hwritten : written.Nodup) (hremoved : (p.remove.map IndexRef.key).Nodup)
    (hindex : ∀ k ∈ written ++ p.remove.map IndexRef.key, Key.IsIndex keyspace k)
    (hdisjoint : ∀ k ∈ written, k ∉ p.remove.map IndexRef.key)
    (hlength : written.length = p.inserts)
    (hput : ∀ k ∈ written, ∃ bytes, b.staged k = some (some bytes))
    (hrest : ∀ k, Key.IsIndex keyspace k → k ∉ written →
      b.staged k = if k ∈ p.remove.map IndexRef.key then some none else none) :
    p.Counted keyspace b := by
  constructor
  · refine ⟨written, hwritten, fun k => ⟨fun hk => ?_, ?_⟩, hlength⟩
    · obtain ⟨bytes, hbytes⟩ := hput k hk
      exact ⟨hindex k (List.mem_append_left _ hk), bytes, Batch.staged_eq_some.mp hbytes⟩
    · rintro ⟨hi, bytes, hmem⟩
      by_contra hk
      have hstaged := Batch.staged_eq_some.mpr hmem
      rw [hrest k hi hk] at hstaged
      split at hstaged <;> cases hstaged
  · refine ⟨_, hremoved, fun k => ⟨fun hk => ?_, ?_⟩, List.length_map _⟩
    · have hi := hindex k (List.mem_append_right _ hk)
      have hstaged := hrest k hi fun hw => hdisjoint k hw hk
      rw [if_pos hk] at hstaged
      exact ⟨hi, Batch.staged_eq_some.mp hstaged⟩
    · rintro ⟨hi, hmem⟩
      have hstaged := Batch.staged_eq_some.mpr hmem
      by_cases hk : k ∈ written
      · obtain ⟨bytes, hbytes⟩ := hput k hk
        cases hbytes.symm.trans hstaged
      · rw [hrest k hi hk] at hstaged
        split at hstaged
        · assumption
        · cases hstaged

variable {m : KeyspaceModel} {e : Entity} {id : String} {x : IndexEntries} {owned : BackRefs}
  {b : Batch}

theorem nodup_map_key (hown : owned.Own m.name id) {l : List IndexRef} (hl : l.Nodup)
    (hsub : ∀ r ∈ l, owned.contains r = true) : (l.map IndexRef.key).Nodup := by
  refine hl.map_on fun r hr r' hr' hkey => ?_
  obtain ⟨slot, hslot⟩ := hown r (hsub r hr)
  obtain ⟨slot', hslot'⟩ := hown r' (hsub r' hr')
  have hsame : slot = slot' := Slot.key_left_inj
    ((Slot.key_of_ref? hslot).trans (hkey.trans (Slot.key_of_ref? hslot').symm))
  rw [hsame, hslot'] at hslot
  exact (Option.some.inj hslot).symm

theorem isIndex_of_own (hown : owned.Own m.name id) {l : List IndexRef}
    (hsub : ∀ r ∈ l, owned.contains r = true) {k : String} (hk : k ∈ l.map IndexRef.key) :
    Key.IsIndex m.name k := by
  obtain ⟨r, hr, rfl⟩ := List.mem_map.mp hk
  obtain ⟨slot, hslot⟩ := hown r (hsub r hr)
  exact Key.isIndex_of_ref? hslot

theorem contains_of_mem_remove {r : IndexRef} (h : r ∈ (ofEntries owned x).remove) :
    owned.contains r = true := BackRefs.mem_toList.mp (List.mem_filter.mp h).1

/-- A key that is written stands in the slot of a wanted entry. -/
theorem mem_written (hx : IndexEntries.derive m e id = .ok x) {k : String}
    (h : k ∈ (ofEntries owned x).insert ++ x.geo.keys) :
    ∃ slot r, Slot.ref? m.name id slot = some r ∧ r.key = k ∧
      (m.wanted? e.fields slot).isSome = true := by
  rcases List.mem_append.mp h with hins | hgeo
  · obtain ⟨slot, hr, hw⟩ := KeyspaceModel.contains_refs.mp ((mem_insert hx k).mp hins).1
    exact ⟨slot, _, hr, rfl, hw⟩
  · obtain ⟨p, hp⟩ := Dict.contains_eq_true.mp (Dict.mem_keys.mp hgeo)
    obtain ⟨path, -, -, rfl⟩ := (IndexEntries.get?_geo hx k p).mp hp
    refine ⟨.geo path, _, rfl, rfl, ?_⟩
    have hlookup : Assoc.lookup (Key.geo m.name path id) x.geo.entries = some p := hp
    rw [← lookup_geo hx, hlookup]
    rfl

theorem nodup_written (hx : IndexEntries.derive m e id = .ok x) :
    ((ofEntries owned x).insert ++ x.geo.keys).Nodup := by
  refine List.nodup_append.mpr ⟨x.equality.nodup_keys.filter _, x.geo.nodup_keys, ?_⟩
  rintro k hins _ hgeo rfl
  obtain ⟨p, hp⟩ := Dict.contains_eq_true.mp (Dict.mem_keys.mp hgeo)
  obtain ⟨slot, hr, -⟩ := KeyspaceModel.contains_refs.mp ((mem_insert hx k).mp hins).1
  obtain ⟨path, -, -, hk⟩ := (IndexEntries.get?_geo hx k p).mp hp
  cases Slot.key_left_inj (t := .geo path) ((Slot.key_of_ref? hr).trans hk)
  cases hr

theorem not_mem_remove (hx : IndexEntries.derive m e id = .ok x) (hown : owned.Own m.name id)
    {k : String} (h : k ∈ (ofEntries owned x).insert ++ x.geo.keys) :
    k ∉ (ofEntries owned x).remove.map IndexRef.key := by
  obtain ⟨slot, r, hr, rfl, hw⟩ := mem_written hx h
  rw [mem_remove hx hown hr]
  rintro ⟨-, hn⟩
  rw [hn] at hw
  cases hw

theorem planned_written {keyspace k : String} (h : ¬Key.backRefs keyspace id = k)
    (hk : k ∈ (ofEntries owned x).insert ++ x.geo.keys) :
    ∃ bytes, (ofEntries owned x).planned keyspace id k = some (some bytes) := by
  rw [planned_ofEntries h]
  cases hl : Assoc.lookup k x.geo.entries with
  | some g => exact ⟨_, rfl⟩
  | none =>
    refine ⟨[], if_pos ((List.mem_append.mp hk).resolve_right fun hg => ?_)⟩
    exact Assoc.lookup_eq_none.mp hl hg

theorem planned_not_written {keyspace k : String} (h : ¬Key.backRefs keyspace id = k)
    (hk : k ∉ (ofEntries owned x).insert ++ x.geo.keys) :
    (ofEntries owned x).planned keyspace id k =
      if k ∈ (ofEntries owned x).remove.map IndexRef.key then some none else none := by
  rw [List.mem_append, not_or] at hk
  rw [planned_ofEntries h, Assoc.lookup_eq_none.mpr hk.2]
  exact if_neg hk.1

theorem counted_ofEntries (hk : IsName m.name) (hx : IndexEntries.derive m e id = .ok x)
    (hown : owned.Own m.name id) {b : Batch}
    (hstaged : ∀ k, Key.IsIndex m.name k → b.staged k = (ofEntries owned x).planned m.name id k) :
    (ofEntries owned x).Counted m.name b := by
  have hother : ∀ k, Key.IsIndex m.name k → ¬Key.backRefs m.name id = k := fun k hi =>
    (hi.ne_key hk .backRefs (Nat.le_refl 2)).symm
  have hindex : ∀ k ∈ (ofEntries owned x).insert ++ x.geo.keys, Key.IsIndex m.name k := by
    intro k hmem
    obtain ⟨slot, r, hr, rfl, -⟩ := mem_written hx hmem
    exact Key.isIndex_of_ref? hr
  refine counted_of _ (nodup_written hx)
    (nodup_map_key hown (owned.nodup_toList.filter _) fun r => contains_of_mem_remove)
    (fun k hmem => (List.mem_append.mp hmem).elim (hindex k)
      (isIndex_of_own hown fun r => contains_of_mem_remove))
    (fun k => not_mem_remove hx hown) ?_ (fun k hmem => ?_) fun k hi hmem => ?_
  · rw [List.length_append, Dict.length_keys]
    rfl
  · rw [hstaged k (hindex k hmem)]
    exact planned_written (hother k (hindex k hmem)) hmem
  · rw [hstaged k hi]
    exact planned_not_written (hother k hi) hmem

theorem counted_forDelete (hk : IsName m.name) (hown : owned.Own m.name id) {b : Batch}
    (hstaged : ∀ k, Key.IsIndex m.name k →
      b.staged k = (forDelete owned).planned m.name id k) : (forDelete owned).Counted m.name b := by
  have hsub : ∀ r ∈ owned.toList, owned.contains r = true := fun r => BackRefs.mem_toList.mp
  refine counted_of [] List.nodup_nil (nodup_map_key hown owned.nodup_toList hsub)
    (fun k hmem => isIndex_of_own hown hsub hmem) (List.forall_mem_nil _) rfl
    (List.forall_mem_nil _) fun k hi _ => ?_
  have hother : Key.backRefs m.name id ≠ k :=
    (hi.ne_key hk .backRefs (Nat.le_refl 2)).symm
  rw [hstaged k hi, planned_forDelete]
  simp only [hother, false_or]
  rfl

end IndexPlan

end IndexedStore
