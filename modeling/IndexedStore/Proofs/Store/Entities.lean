import IndexedStore.Proofs.Index.Derive
import IndexedStore.Storage.Content

/-! # Entities and the content that stands for them

The logical state of a store is a field map for every live entity. A content is `Consistent`
with it when every key stands in a slot of a live entity, and every live entity has its
record, its marker and a list of index entries that agree with the record. An entry that
stands in the content is listed; whether each listed one stands there is not said, because a
change of schema can leave some out.
-/
namespace IndexedStore

open Key (Slot IsName)

/-- The field maps of the live entities, by keyspace and id. -/
def Entities := String → Dict Fields

namespace Entities

def empty : Entities := fun _ => Dict.empty

def get? (d : Entities) (keyspace id : String) : Option Fields := (d keyspace).get? id

def put (d : Entities) (keyspace id : String) (fields : Fields) : Entities :=
  fun k => if k = keyspace then (d k).insert id fields else d k

def erase (d : Entities) (keyspace id : String) : Entities :=
  fun k => if k = keyspace then (d k).erase id else d k

def clear (d : Entities) (keyspace : String) : Entities :=
  fun k => if k = keyspace then Dict.empty else d k

@[simp] theorem get?_empty (keyspace id : String) : empty.get? keyspace id = none := rfl

theorem get?_put (d : Entities) (keyspace id : String) (fields : Fields) (k i : String) :
    (d.put keyspace id fields).get? k i =
      if k = keyspace ∧ i = id then some fields else d.get? k i := by
  unfold get? put
  by_cases hk : k = keyspace
  · rw [if_pos hk, Dict.get?_insert]
    simp [hk, eq_comm]
  · simp [hk]

theorem get?_erase (d : Entities) (keyspace id k i : String) :
    (d.erase keyspace id).get? k i =
      if k = keyspace ∧ i = id then none else d.get? k i := by
  unfold get? erase
  by_cases hk : k = keyspace
  · rw [if_pos hk, Dict.get?_erase]
    simp [hk, eq_comm]
  · simp [hk]

theorem get?_erase_of_none {d : Entities} {keyspace id : String}
    (h : d.get? keyspace id = none) (k i : String) :
    (d.erase keyspace id).get? k i = d.get? k i := by
  rw [get?_erase]
  split
  · rename_i he
    rw [he.1, he.2, h]
  · rfl

theorem get?_clear (d : Entities) (keyspace k i : String) :
    (d.clear keyspace).get? k i = if k = keyspace then none else d.get? k i := by
  unfold get? clear
  by_cases hk : k = keyspace
  · simp [hk, Dict.get?_empty]
  · simp [hk]

end Entities

/-- What is stored under the list of owned entries: nothing for the empty list. -/
def BackRefs.stored (r : BackRefs) : Option Bytes :=
  if r.isEmpty then none else some (payload r)

/-- The slots of a live entity with the given fields and list of entries. -/
structure Live (c : Content) (keyspace id : String) (fields : Fields) (refs : BackRefs) :
    Prop where
  ordered : fields.Ordered
  record : c.get? (Key.record keyspace id) = some (payload (StoredRecord.mk fields))
  member : c.get? (Key.member keyspace id) = some []
  stored : c.get? (Key.backRefs keyspace id) = refs.stored
  /-- An entry that stands in the content is listed and agrees with the record. -/
  listed : ∀ (slot : Slot) (e : IndexRef) (b : Bytes), slot.ref? keyspace id = some e →
    c.get? e.key = some b → refs.contains e = true ∧ slot.wanted? fields = some b
  /-- A listed entry agrees with the record. -/
  agrees : ∀ e, refs.contains e = true →
    ∃ slot : Slot, slot.ref? keyspace id = some e ∧ (slot.wanted? fields).isSome = true

/-- Nothing stands in the slots of an entity. -/
def Absent (c : Content) (keyspace id : String) : Prop :=
  ∀ slot : Slot, c.get? (slot.key keyspace id) = none

/-- The content stands for the entities. -/
structure Consistent (c : Content) (d : Entities) : Prop where
  keyed : ∀ k b, c.get? k = some b →
    ∃ keyspace id, ∃ slot : Slot, IsName keyspace ∧ id ≠ "" ∧ k = slot.key keyspace id
  named : ∀ keyspace id fields, d.get? keyspace id = some fields → IsName keyspace ∧ id ≠ ""
  live : ∀ keyspace id fields, d.get? keyspace id = some fields →
    ∃ refs, Live c keyspace id fields refs
  absent : ∀ keyspace id, IsName keyspace → id ≠ "" → d.get? keyspace id = none →
    Absent c keyspace id

theorem consistent_empty : Consistent Dict.empty Entities.empty where
  keyed k b h := by cases h
  named keyspace id fields h := by cases h
  live keyspace id fields h := by cases h
  absent keyspace id _ _ _ _ := rfl

theorem Live.congr {c c' : Content} {keyspace id : String} {fields : Fields} {refs : BackRefs}
    (h : Live c keyspace id fields refs)
    (hc : ∀ slot : Slot, c'.get? (slot.key keyspace id) = c.get? (slot.key keyspace id)) :
    Live c' keyspace id fields refs where
  ordered := h.ordered
  record := (hc .record).trans h.record
  member := (hc .member).trans h.member
  stored := (hc .backRefs).trans h.stored
  listed slot e b hr hb := by
    rw [← Slot.key_of_ref? hr, hc, Slot.key_of_ref? hr] at hb
    exact h.listed slot e b hr hb
  agrees := h.agrees

namespace Consistent

variable {c c' : Content} {d d' : Entities}

theorem get?_empty_id (h : Consistent c d) (keyspace : String) : d.get? keyspace "" = none := by
  cases hd : d.get? keyspace "" with
  | none => rfl
  | some fields => exact absurd rfl (h.named keyspace "" fields hd).2

theorem absent_of_empty_id (h : Consistent c d) {keyspace : String} (hk : IsName keyspace)
    {s : Slot} (hs : s ≠ .backRefs) : c.get? (s.key keyspace "") = none := by
  cases hb : c.get? (s.key keyspace "") with
  | none => rfl
  | some b =>
    obtain ⟨keyspace', id, t, hk', hid, he⟩ := h.keyed _ b hb
    obtain ⟨-, hseg⟩ := Slot.segments_of_key hk hk' he
    cases s <;> cases t <;> simp_all [Slot.segments]

theorem get?_record (h : Consistent c d) {keyspace : String} (hk : IsName keyspace)
    (id : String) : c.get? (Key.record keyspace id) =
      (d.get? keyspace id).map fun fields => payload (StoredRecord.mk fields) := by
  cases hd : d.get? keyspace id with
  | some fields =>
    obtain ⟨refs, hl⟩ := h.live keyspace id fields hd
    exact hl.record
  | none =>
    by_cases hid : id = ""
    · subst hid
      exact h.absent_of_empty_id hk (s := .record) nofun
    · exact h.absent keyspace id hk hid hd .record

/-- An entity that is not live has no list of entries, but the marker of the id `idx` stands in
the place of one for the empty id. -/
theorem get?_backRefs_of_none (h : Consistent c d) {keyspace id : String} (hk : IsName keyspace)
    (hd : d.get? keyspace id = none) :
    c.get? (Key.backRefs keyspace id) =
      if id = "" ∧ (d.get? keyspace "idx").isSome = true then some [] else none := by
  by_cases hid : id = ""
  · subst hid
    rw [Key.backRefs_empty_id]
    cases hidx : d.get? keyspace "idx" with
    | none => exact h.absent keyspace "idx" hk (by decide) hidx .member
    | some fields =>
      obtain ⟨refs, hlive⟩ := h.live keyspace "idx" fields hidx
      exact hlive.member
  · rw [if_neg fun he => hid he.1]
    exact h.absent keyspace id hk hid hd .backRefs

/-- A change that keeps to the slots of one entity is consistent when that entity is. -/
theorem update (h : Consistent c d) {keyspace id : String} (hk : IsName keyspace)
    (hid : id ≠ "")
    (hother : ∀ k, (∀ slot : Slot, k ≠ slot.key keyspace id) → c'.get? k = c.get? k)
    (hd : ∀ k i, ¬(k = keyspace ∧ i = id) → d'.get? k i = d.get? k i)
    (hlive : ∀ fields, d'.get? keyspace id = some fields →
      ∃ refs, Live c' keyspace id fields refs)
    (habsent : d'.get? keyspace id = none → Absent c' keyspace id) : Consistent c' d' := by
  have hframe : ∀ k i, IsName k → i ≠ "" → ¬(k = keyspace ∧ i = id) → ∀ slot : Slot,
      c'.get? (slot.key k i) = c.get? (slot.key k i) := by
    intro k i hkn hi hne slot
    refine hother _ fun slot' he => hne ?_
    obtain ⟨rfl, rfl, -⟩ := Slot.key_inj hkn hk hi hid he
    exact ⟨rfl, rfl⟩
  refine ⟨?_, ?_, ?_, ?_⟩
  · intro k b hb
    by_cases hs : ∃ slot : Slot, k = slot.key keyspace id
    · obtain ⟨slot, rfl⟩ := hs
      exact ⟨keyspace, id, slot, hk, hid, rfl⟩
    · rw [hother k fun slot he => hs ⟨slot, he⟩] at hb
      exact h.keyed k b hb
  · intro k i fields hf
    by_cases hne : k = keyspace ∧ i = id
    · obtain ⟨rfl, rfl⟩ := hne
      exact ⟨hk, hid⟩
    · rw [hd k i hne] at hf
      exact h.named k i fields hf
  · intro k i fields hf
    by_cases hne : k = keyspace ∧ i = id
    · obtain ⟨rfl, rfl⟩ := hne
      exact hlive fields hf
    · rw [hd k i hne] at hf
      obtain ⟨hkn, hi⟩ := h.named k i fields hf
      obtain ⟨refs, hl⟩ := h.live k i fields hf
      exact ⟨refs, hl.congr (hframe k i hkn hi hne)⟩
  · intro k i hkn hi hn slot
    by_cases hne : k = keyspace ∧ i = id
    · obtain ⟨rfl, rfl⟩ := hne
      exact habsent hn slot
    · rw [hd k i hne] at hn
      rw [hframe k i hkn hi hne]
      exact h.absent k i hkn hi hn slot

end Consistent

end IndexedStore
