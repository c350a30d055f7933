import IndexedStore.Proofs.Operation.Delete
import IndexedStore.Proofs.Store.Lookup
import IndexedStore.Proofs.Store.Owned

/-! # Removed entities

After a successful delete every slot of the entity is empty, and after a keyspace was emptied
every slot of its entities.
-/
namespace IndexedStore

open Key (Slot IsName)

theorem Consistent.congr {c : Content} {d d' : Entities} (h : Consistent c d)
    (hd : ∀ k i, d'.get? k i = d.get? k i) : Consistent c d' where
  keyed := h.keyed
  named k i fields hf := h.named k i fields (by rwa [hd] at hf)
  live k i fields hf := h.live k i fields (by rwa [hd] at hf)
  absent k i hk hi hn := h.absent k i hk hi (by rwa [hd] at hn)

namespace Deleted

variable {m : KeyspaceModel} {id : String} {c c' : Content} {old : Option Entity}
  {owned : BackRefs} {d : Entities}

theorem isSome_eq (h : Deleted m id c c' old owned) (hc : Consistent c d) (hk : IsName m.name) :
    old.isSome = (d.get? m.name id).isSome := by
  rw [hc.load_eq hk h.loads, Option.isSome_map]

theorem get?_other (h : Deleted m id c c' old owned) (hown : owned.Own m.name id) {k : String}
    (hk : ∀ slot : Slot, k ≠ slot.key m.name id) : c'.get? k = c.get? k := by
  rcases h.removes with ⟨-, -, rfl⟩ | hw
  · rfl
  · rw [hw, if_neg]
    rintro (he | he | he | hmem)
    · exact hk .member he
    · exact hk .record he
    · exact hk .backRefs he
    · obtain ⟨r, hr, rfl⟩ := List.mem_map.mp hmem
      obtain ⟨slot, hslot⟩ := hown r (BackRefs.mem_toList.mp hr)
      exact hk slot (Slot.key_of_ref? hslot).symm

/-- Under the empty id nothing stood before a successful delete. -/
theorem absent_of_empty_id (h : Deleted m "" c c' old owned) (hc : Consistent c d)
    (hk : IsName m.name) : Absent c m.name "" := by
  intro slot
  by_cases hs : slot = .backRefs
  · rw [hs]
    exact (hc.owned_of_empty_id hk h.loads h.owns).2.2
  · exact hc.absent_of_empty_id hk hs

/-- No slot of a deleted entity is left, whatever the model declares. -/
theorem absent (h : Deleted m id c c' old owned) (hc : Consistent c d) (hk : IsName m.name) :
    Absent c' m.name id := by
  intro slot
  by_cases hid : id = ""
  · subst hid
    have hempty := h.absent_of_empty_id hc hk slot
    rcases h.removes with ⟨-, -, rfl⟩ | hw
    · exact hempty
    · rw [hw, hempty]
      split <;> rfl
  · rcases h.removes with ⟨rfl, -, rfl⟩ | hw
    · have hnone : d.get? m.name id = none := by
        have hs := h.isSome_eq hc hk
        simpa using hs.symm
      exact hc.absent m.name id hk hid hnone slot
    · rw [hw]
      cases hr : slot.ref? m.name id with
      | none =>
        rw [if_pos]
        cases slot with
        | record => exact Or.inr (Or.inl rfl)
        | member => exact Or.inl rfl
        | backRefs => exact Or.inr (Or.inr (Or.inl rfl))
        | equality path token => cases hr
        | geo path => cases hr
      | some r =>
        rw [Slot.key_of_ref? hr]
        cases hb : c.get? r.key with
        | none => split <;> rfl
        | some b =>
          rw [if_pos]
          have hmem := (hc.owns hk hid h.loads h.owns).all slot r b hr hb
          exact Or.inr (Or.inr (Or.inr (List.mem_map_of_mem (BackRefs.mem_toList.mpr hmem))))

theorem content_eq_of_empty_id (h : Deleted m "" c c' old owned) (hc : Consistent c d)
    (hk : IsName m.name) : c' = c := by
  obtain ⟨-, rfl, -⟩ := hc.owned_of_empty_id hk h.loads h.owns
  apply Dict.ext_get?
  intro k
  by_cases hs : ∃ slot : Slot, k = slot.key m.name ""
  · obtain ⟨slot, rfl⟩ := hs
    rw [h.absent hc hk slot, h.absent_of_empty_id hc hk slot]
  · exact h.get?_other (fun e he => by simp at he) fun slot he => hs ⟨slot, he⟩

theorem consistent (h : Deleted m id c c' old owned) (hc : Consistent c d)
    (hk : IsName m.name) : Consistent c' (d.erase m.name id) := by
  by_cases hid : id = ""
  · subst hid
    rw [h.content_eq_of_empty_id hc hk]
    exact hc.congr (Entities.get?_erase_of_none (hc.get?_empty_id _))
  · have howns := hc.owns hk hid h.loads h.owns
    refine hc.update hk hid ?_ ?_ ?_ ?_
    · intro k hne
      exact h.get?_other howns.own hne
    · intro k i hne
      rw [Entities.get?_erase, if_neg hne]
    · intro fields hget
      rw [Entities.get?_erase, if_pos ⟨rfl, rfl⟩] at hget
      cases hget
    · intro _
      exact h.absent hc hk

end Deleted

theorem Consistent.clear {c c' : Content} {d : Entities} (h : Consistent c d) {keyspace : String}
    (hk : IsName keyspace) (hc : ∀ k, c'.get? k =
      if Key.hasPrefix (Key.keyspacePrefix keyspace) k then none else c.get? k) :
    Consistent c' (d.clear keyspace) := by
  have hslot : ∀ k i, IsName k → ∀ slot : Slot, c'.get? (slot.key k i) =
      if k = keyspace then none else c.get? (slot.key k i) := by
    intro k i hkn slot
    rw [hc]
    by_cases he : k = keyspace
    · rw [if_pos ((Key.hasPrefix_keyspacePrefix hk hkn i slot).mpr he), if_pos he]
    · rw [if_neg fun hp => he ((Key.hasPrefix_keyspacePrefix hk hkn i slot).mp hp), if_neg he]
  refine ⟨?_, ?_, ?_, ?_⟩
  · intro k b hb
    rw [hc] at hb
    split at hb
    · cases hb
    · exact h.keyed k b hb
  · intro k i fields hf
    rw [Entities.get?_clear] at hf
    split at hf
    · cases hf
    · exact h.named k i fields hf
  · intro k i fields hf
    rw [Entities.get?_clear] at hf
    split at hf
    · cases hf
    · rename_i hne
      obtain ⟨refs, hl⟩ := h.live k i fields hf
      refine ⟨refs, hl.congr fun slot => ?_⟩
      rw [hslot k i (h.named k i fields hf).1, if_neg hne]
  · intro k i hkn hi hn slot
    rw [hslot k i hkn]
    rw [Entities.get?_clear] at hn
    split
    · rfl
    · rename_i hne
      rw [if_neg hne] at hn
      exact h.absent k i hkn hi hn slot

end IndexedStore
