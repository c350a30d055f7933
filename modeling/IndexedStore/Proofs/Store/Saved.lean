import IndexedStore.Proofs.Index.Planned
import IndexedStore.Proofs.Operation.Save
import IndexedStore.Proofs.Store.Owned

/-! # The slots of a saved entity

After a successful save the record, the marker, the list of entries and the geo entries are
those of the saved record. An equality entry that is taken as owned stays as it was.
-/
namespace IndexedStore

open Key (Slot IsName)

/-- What stands in a slot of an entity whose entries are all there. -/
def KeyspaceModel.image? (m : KeyspaceModel) (id : String) (fields : Fields) :
    Slot → Option Bytes
  | .record => some (payload (StoredRecord.mk fields))
  | .member => some []
  | .backRefs => (m.refs fields id).stored
  | slot => m.wanted? fields slot

namespace Saved

variable {m : KeyspaceModel} {e n : Entity} {id : String} {c c' : Content} {owned : BackRefs}

theorem get?_member (h : Saved m e id c c' n owned) :
    c'.get? (Key.member m.name id) = some [] := by
  obtain ⟨x, -, hw⟩ := h.writes
  rw [hw, IndexPlan.saved, if_pos rfl]
  rfl

theorem get?_slot (h : Saved m e id c c' n owned) :
    ∃ x, IndexEntries.derive m (n.withId id) id = .ok x ∧ ∀ slot : Slot, slot ≠ .member →
      slot ≠ .record → c'.get? (slot.key m.name id) =
        ((IndexPlan.ofEntries owned x).planned m.name id (slot.key m.name id)).getD
          (c.get? (slot.key m.name id)) := by
  obtain ⟨x, hx, hw⟩ := h.writes
  refine ⟨x, hx, fun slot hm hr => ?_⟩
  have hm' : ¬Key.member m.name id = slot.key m.name id := fun he =>
    hm (Slot.key_left_inj (s := .member) he).symm
  have hr' : ¬Key.record m.name id = slot.key m.name id := fun he =>
    hr (Slot.key_left_inj (s := .record) he).symm
  rw [hw, IndexPlan.saved, if_neg hm', if_neg hr']

theorem get?_record (h : Saved m e id c c' n owned) :
    c'.get? (Key.record m.name id) = some (payload (StoredRecord.mk n.fields)) := by
  obtain ⟨x, -, hw⟩ := h.writes
  have hm : ¬Key.member m.name id = Key.record m.name id := fun he =>
    nomatch Slot.key_left_inj (s := .member) (t := .record) he
  rw [hw, IndexPlan.saved, if_neg hm, if_pos rfl]
  rfl

theorem get?_backRefs (h : Saved m e id c c' n owned) :
    c'.get? (Key.backRefs m.name id) = (m.refs n.fields id).stored := by
  obtain ⟨x, hx, hw⟩ := h.get?_slot
  have hrefs : x.refs = m.refs n.fields id := IndexEntries.refs_eq (e := n.withId id) hx
  have hk := hw .backRefs nofun nofun
  rw [Slot.key, IndexPlan.planned, if_pos rfl, IndexPlan.ofEntries, hrefs] at hk
  rw [hk]
  rfl

theorem get?_geo (h : Saved m e id c c' n owned) (hown : owned.Own m.name id) (path : String) :
    c'.get? (Key.geo m.name path id) =
      match m.wanted? n.fields (.geo path) with
      | some b => some b
      | none =>
        if owned.contains (.geo (Key.geo m.name path id)) then none
        else c.get? (Key.geo m.name path id) := by
  obtain ⟨x, hx, hw⟩ := h.get?_slot
  have hk := hw (.geo path) nofun nofun
  rw [Slot.key, IndexPlan.planned_geo hx hown] at hk
  rw [hk]
  show Option.getD (match m.wanted? n.fields (.geo path) with | some b => _ | none => _) _ = _
  cases m.wanted? n.fields (.geo path) with
  | some b => rfl
  | none => dsimp only; split <;> rfl

theorem get?_equality (h : Saved m e id c c' n owned) (hown : owned.Own m.name id)
    (path token : String) :
    c'.get? (Key.equality m.name path token id) =
      if owned.contains (.equality (Key.equality m.name path token id)) then
        if (m.wanted? n.fields (.equality path token)).isSome then
          c.get? (Key.equality m.name path token id)
        else none
      else (m.wanted? n.fields (.equality path token)).or
        (c.get? (Key.equality m.name path token id)) := by
  obtain ⟨x, hx, hw⟩ := h.get?_slot
  have hk := hw (.equality path token) nofun nofun
  rw [Slot.key, IndexPlan.planned_equality hx hown] at hk
  rw [hk]
  show Option.getD (if _ then if (m.wanted? n.fields (.equality path token)).isSome then _ else _
    else (m.wanted? n.fields (.equality path token)).map some) _ = _
  split
  · split <;> rfl
  · cases m.wanted? n.fields (.equality path token) <;> rfl

theorem get?_other (h : Saved m e id c c' n owned) (hown : owned.Own m.name id) {k : String}
    (hk : ∀ slot : Slot, k ≠ slot.key m.name id) : c'.get? k = c.get? k := by
  obtain ⟨x, hx, hw⟩ := h.writes
  have hm : ¬Key.member m.name id = k := (hk .member).symm
  have hr : ¬Key.record m.name id = k := (hk .record).symm
  rw [hw, IndexPlan.saved, if_neg hm, if_neg hr, IndexPlan.planned_other hx hown hk]
  rfl

theorem wanted?_of_get? (h : Saved m e id c c' n owned) (ho : Owns c m.name id owned)
    {s : Slot} {r : IndexRef} {b : Bytes} (hr : s.ref? m.name id = some r)
    (hb : c'.get? r.key = some b) : m.wanted? n.fields s = some b := by
  cases s with
  | equality path token =>
    cases hr
    rw [IndexRef.key, h.get?_equality ho.own] at hb
    split at hb
    · split at hb
      · rename_i he
        obtain rfl := ho.marked path token b hb
        obtain ⟨b, he⟩ := Option.isSome_iff_exists.mp he
        rw [he, (Slot.wanted?_equality.mp (KeyspaceModel.wanted?_eq_some.mp he).2).1]
      · cases hb
    · rename_i hn
      rcases Option.or_eq_some_iff.mp hb with he | ⟨-, hb⟩
      · exact he
      · exact absurd (ho.all (.equality path token) _ b rfl hb) hn
  | geo path =>
    cases hr
    rw [IndexRef.key, h.get?_geo ho.own] at hb
    split at hb
    · rename_i b' he
      rw [he, Option.some.inj hb]
    · split at hb
      · cases hb
      · rename_i hn
        exact absurd (ho.all (.geo path) _ b rfl hb) hn
  | _ => cases hr

theorem live (h : Saved m e id c c' n owned) (ho : Owns c m.name id owned)
    (hf : n.fields.Ordered) : Live c' m.name id n.fields (m.refs n.fields id) where
  ordered := hf
  record := h.get?_record
  member := h.get?_member
  stored := h.get?_backRefs
  listed slot r b hr hb := by
    have he := h.wanted?_of_get? ho hr hb
    rw [KeyspaceModel.contains_refs_of_ref? n.fields hr, he]
    exact ⟨rfl, (KeyspaceModel.wanted?_eq_some.mp he).2⟩
  agrees r hr := by
    obtain ⟨slot, hs, he⟩ := KeyspaceModel.contains_refs.mp hr
    obtain ⟨b, hb⟩ := Option.isSome_iff_exists.mp he
    exact ⟨slot, hs, Option.isSome_iff_exists.mpr ⟨b, (KeyspaceModel.wanted?_eq_some.mp hb).2⟩⟩

/-- An equality entry that the record asks for is missing after a save exactly when it was
missing before and taken as owned. -/
theorem get?_equality_eq_none (h : Saved m e id c c' n owned) (hown : owned.Own m.name id)
    {path token : String} (he : (m.wanted? n.fields (.equality path token)).isSome = true) :
    c'.get? (Key.equality m.name path token id) = none ↔
      owned.contains (.equality (Key.equality m.name path token id)) = true ∧
        c.get? (Key.equality m.name path token id) = none := by
  obtain ⟨b, hb⟩ := Option.isSome_iff_exists.mp he
  rw [h.get?_equality hown, if_pos he, hb, Option.some_or]
  split <;> simp_all

theorem geo_eq (h : Saved m e id c c' n owned) (ho : Owns c m.name id owned) (path : String) :
    c'.get? (Key.geo m.name path id) = m.wanted? n.fields (.geo path) := by
  cases he : m.wanted? n.fields (.geo path) with
  | some b => rw [h.get?_geo ho.own, he]
  | none =>
    cases hb : c'.get? (Key.geo m.name path id) with
    | none => rfl
    | some b =>
      have hsome := h.wanted?_of_get? ho (s := .geo path) rfl hb
      rw [he] at hsome
      cases hsome

/-- A save leaves every slot filled unless it skips an equality entry. -/
theorem filled (h : Saved m e id c c' n owned) (ho : Owns c m.name id owned)
    (hskip : ∀ path token, (m.wanted? n.fields (.equality path token)).isSome = true →
      owned.contains (.equality (Key.equality m.name path token id)) = true →
        c.get? (Key.equality m.name path token id) ≠ none) (slot : Slot) :
    c'.get? (slot.key m.name id) = m.image? id n.fields slot := by
  cases slot with
  | record => exact h.get?_record
  | member => exact h.get?_member
  | backRefs => exact h.get?_backRefs
  | equality path token =>
    show c'.get? (Key.equality m.name path token id) = m.wanted? n.fields (.equality path token)
    cases hb : c'.get? (Key.equality m.name path token id) with
    | some b => exact (h.wanted?_of_get? ho (s := .equality path token) rfl hb).symm
    | none =>
      cases he : m.wanted? n.fields (.equality path token) with
      | none => rfl
      | some b =>
        have hs : (m.wanted? n.fields (.equality path token)).isSome = true := by rw [he]; rfl
        obtain ⟨hc, hn⟩ := (h.get?_equality_eq_none ho.own hs).mp hb
        exact absurd hn (hskip path token hs hc)
  | geo path => exact h.geo_eq ho path

theorem consistent {d : Entities} (h : Saved m e id c c' n owned) (hc : Consistent c d)
    (hk : IsName m.name) (hf : n.fields.Ordered) :
    Consistent c' (d.put m.name id n.fields) := by
  obtain ⟨old, hl, ho⟩ := h.owns
  have howns := hc.owns hk h.id_ne hl ho
  refine hc.update hk h.id_ne ?_ ?_ ?_ ?_
  · intro k hne
    exact h.get?_other howns.own hne
  · intro k i hne
    rw [Entities.get?_put, if_neg hne]
  · intro fields hget
    rw [Entities.get?_put, if_pos ⟨rfl, rfl⟩] at hget
    cases hget
    exact ⟨_, h.live howns hf⟩
  · intro hget
    rw [Entities.get?_put, if_pos ⟨rfl, rfl⟩] at hget
    cases hget

end Saved

end IndexedStore
