import IndexedStore.Key.Layout
import IndexedStore.Proofs.Key.Segment

/-! # The slots of an entity

Every key that belongs to an entity stands in one of five slots. Slots of different
entities, and different slots of one entity, never share a key (`Slot.key_inj`), and an id
behind one of the scan prefixes is read back from exactly one slot (`trailingId?_slot`).
-/
namespace IndexedStore.Key

/-- A keyspace name that can stand in front of a row of segments. -/
def IsName (keyspace : String) : Prop := ':' ∉ keyspace.toList

instance (keyspace : String) : Decidable (IsName keyspace) :=
  inferInstanceAs (Decidable (':' ∉ keyspace.toList))

inductive Slot where
  | record
  | member
  | backRefs
  | equality (path token : String)
  | geo (path : String)
deriving DecidableEq

namespace Slot

def segments (id : String) : Slot → List String
  | record => [id]
  | member => ["", id]
  | backRefs => [id, "idx"]
  | equality path token => [path, token, "index", id]
  | geo path => [path, "geo", id]

def key (keyspace id : String) : Slot → String
  | record => Key.record keyspace id
  | member => Key.member keyspace id
  | backRefs => Key.backRefs keyspace id
  | equality path token => Key.equality keyspace path token id
  | geo path => Key.geo keyspace path id

theorem toList_key (keyspace id : String) (s : Slot) :
    (s.key keyspace id).toList = keyspace.toList ++ row (s.segments id) := by
  cases s <;>
    simp [key, segments, Key.record, Key.member, Key.backRefs, Key.equality, Key.geo,
      keyspacePrefix, membersPrefix, equalityPrefix, geoPrefix, escapeSegment, row, escape,
      escapeChar]

theorem segments_inj {id id' : String} {s s' : Slot} (hid : id ≠ "") (hid' : id' ≠ "")
    (h : s.segments id = s'.segments id') : id = id' ∧ s = s' := by
  cases s <;> cases s' <;> simp_all [segments]

theorem key_left_inj {keyspace id : String} {s t : Slot}
    (h : s.key keyspace id = t.key keyspace id) : s = t := by
  have hl := congrArg String.toList h
  rw [toList_key, toList_key] at hl
  have hseg := row_inj (List.append_cancel_left hl)
  clear h hl
  cases s <;> cases t <;> simp_all [segments]
  case member.backRefs => exact absurd (hseg.1.symm.trans hseg.2) (by decide)
  case backRefs.member => exact absurd (hseg.2.trans hseg.1) (by decide)

theorem segments_of_key {keyspace keyspace' id id' : String} {s s' : Slot}
    (hk : IsName keyspace) (hk' : IsName keyspace')
    (h : s.key keyspace id = s'.key keyspace' id') :
    keyspace = keyspace' ∧ s.segments id = s'.segments id' := by
  have hl := congrArg String.toList h
  rw [toList_key, toList_key] at hl
  obtain ⟨hn, hr⟩ := name_append_inj hk hk' (delimited_row _) (delimited_row _) hl
  exact ⟨String.toList_inj.mp hn, row_inj hr⟩

theorem key_inj {keyspace keyspace' id id' : String} {s s' : Slot} (hk : IsName keyspace)
    (hk' : IsName keyspace') (hid : id ≠ "") (hid' : id' ≠ "")
    (h : s.key keyspace id = s'.key keyspace' id') :
    keyspace = keyspace' ∧ id = id' ∧ s = s' := by
  obtain ⟨hn, hseg⟩ := segments_of_key hk hk' h
  exact ⟨hn, segments_inj hid hid' hseg⟩

end Slot

/-- The list of the empty id has the key of the marker of the id `idx`. -/
theorem backRefs_empty_id (keyspace : String) : backRefs keyspace "" = member keyspace "idx" := by
  apply String.toList_inj.mp
  rw [show backRefs keyspace "" = Slot.key keyspace "" .backRefs from rfl, Slot.toList_key,
    show member keyspace "idx" = Slot.key keyspace "idx" .member from rfl, Slot.toList_key]
  rfl

theorem hasPrefix_of_trailingId? {start key id : String} (h : trailingId? start key = some id) :
    hasPrefix start key = true := by
  unfold trailingId? at h
  split at h
  · assumption
  · cases h

theorem row_of_trailingId? {keyspace keyspace' start key id : String} {a b : List String}
    (hk : IsName keyspace) (hk' : IsName keyspace')
    (hs : start.toList = keyspace.toList ++ (row a ++ [':']))
    (hb : key.toList = keyspace'.toList ++ row b) (h : trailingId? start key = some id) :
    keyspace' = keyspace ∧ b = a ++ [id] ∧ id ≠ "" := by
  have hd : ∀ t, Delimited (row a ++ ':' :: t) := by cases a <;> simp [Delimited]
  unfold trailingId? at h
  split at h
  · rename_i hp
    obtain ⟨t, ht⟩ := List.isPrefixOf_iff_prefix.mp hp
    rw [← ht, List.drop_left] at h
    rw [hs, hb, List.append_assoc, List.append_assoc] at ht
    obtain ⟨hn, hr⟩ := name_append_inj hk hk' (hd t) (delimited_row b) ht
    obtain ⟨s, rest, rfl, rfl⟩ := row_eq_append hr.symm
    rw [unescape_escape_append _ (delimited_row rest)] at h
    split at h
    · rename_i c cs hu
      split at hu
      · rename_i hnil
        obtain rfl : rest = [] := by cases rest <;> simp_all
        have hs' : s.toList = c :: cs := Option.some.inj hu
        obtain rfl : s = id := by rw [← Option.some.inj h, ← hs', String.ofList_toList]
        exact ⟨(String.toList_inj.mp hn).symm, rfl, fun he => by simp [he] at hs'⟩
      · cases hu
    · cases h
  · cases h

theorem trailingId?_of_row {keyspace start key id : String} {a : List String}
    (hs : start.toList = keyspace.toList ++ (row a ++ [':']))
    (hb : key.toList = keyspace.toList ++ row (a ++ [id])) (hid : id ≠ "") :
    trailingId? start key = some id := by
  have hkey : key.toList = start.toList ++ escape id.toList := by
    rw [hs, hb]
    simp
  have hp : hasPrefix start key = true := by
    rw [hasPrefix, List.isPrefixOf_iff_prefix, hkey]
    exact List.prefix_append _ _
  unfold trailingId?
  rw [if_pos hp, hkey, List.drop_left, unescape_escape]
  cases hl : id.toList with
  | nil => exact absurd (String.toList_inj.mp (hl.trans rfl)) hid
  | cons c cs => simp only [← hl, String.ofList_toList]

/-- The id behind the prefix with segments `a` in a key with segments `b`. -/
theorem trailingId?_row {keyspace keyspace' start key id : String} {a b : List String}
    (hk : IsName keyspace) (hk' : IsName keyspace')
    (hs : start.toList = keyspace.toList ++ (row a ++ [':']))
    (hb : key.toList = keyspace'.toList ++ row b) :
    trailingId? start key = some id ↔ keyspace' = keyspace ∧ b = a ++ [id] ∧ id ≠ "" := by
  constructor
  · intro h
    exact row_of_trailingId? hk hk' hs hb h
  · rintro ⟨rfl, rfl, hid⟩
    exact trailingId?_of_row hs hb hid

end IndexedStore.Key
