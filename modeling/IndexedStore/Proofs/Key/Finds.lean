import IndexedStore.Proofs.Key.Slot

/-! # Ids behind a prefix

Each prefix that is scanned for ids belongs to one slot: an id is read behind it from the key
of that slot of the entity and from no other key, whatever characters paths, tokens and ids
hold.
-/
namespace IndexedStore.Key

/-- Behind `start` ids are read from the keys of one slot of a keyspace only. -/
def Finds (start keyspace : String) (slot : Slot) : Prop :=
  ∀ keyspace' id' s, IsName keyspace' → id' ≠ "" → ∀ id,
    trailingId? start (Slot.key keyspace' id' s) = some id ↔
      keyspace' = keyspace ∧ s = slot ∧ id' = id

/-- A prefix made of a row of segments, when only the slot has keys of that form. -/
theorem finds_of_row {start keyspace : String} {slot : Slot} {a : List String}
    (hk : IsName keyspace) (hs : start.toList = keyspace.toList ++ (row a ++ [':']))
    (hslot : ∀ id' s id, id' ≠ "" →
      (Slot.segments id' s = a ++ [id] ↔ s = slot ∧ id' = id)) :
    Finds start keyspace slot := by
  intro keyspace' id' s hk' hid' id
  rw [trailingId?_row hk hk' hs (Slot.toList_key keyspace' id' s), hslot id' s id hid']
  constructor
  · rintro ⟨hkk, ⟨hss, hii⟩, -⟩
    exact ⟨hkk, hss, hii⟩
  · rintro ⟨hkk, hss, rfl⟩
    exact ⟨hkk, ⟨hss, rfl⟩, hid'⟩

theorem finds_members {keyspace : String} (hk : IsName keyspace) :
    Finds (membersPrefix keyspace) keyspace .member := by
  refine finds_of_row (a := [""]) hk (by simp [membersPrefix, row, escape]) fun id' s id hid' => ?_
  cases s <;> simp [Slot.segments, hid']

theorem finds_equality {keyspace : String} (hk : IsName keyspace) (path token : String) :
    Finds (equalityPrefix keyspace path token) keyspace (.equality path token) := by
  refine finds_of_row (a := [path, token, "index"]) hk ?_ fun id' s id hid' => ?_
  · simp [equalityPrefix, keyspacePrefix, escapeSegment, row, escape, escapeChar]
  · cases s <;> simp [Slot.segments, and_assoc]

theorem finds_geo {keyspace : String} (hk : IsName keyspace) (path : String) :
    Finds (geoPrefix keyspace path) keyspace (.geo path) := by
  refine finds_of_row (a := [path, "geo"]) hk ?_ fun id' s id hid' => ?_
  · simp [geoPrefix, keyspacePrefix, escapeSegment, row, escape, escapeChar]
  · cases s <;> simp [Slot.segments]

/-- The key starts with the name of the keyspace and a separator. -/
def Under (keyspace key : String) : Prop := ∃ rest, key = keyspace ++ ":" ++ rest

theorem hasPrefix_iff {start key : String} :
    hasPrefix start key = true ↔ ∃ rest, key = start ++ rest := by
  rw [hasPrefix, List.isPrefixOf_iff_prefix]
  constructor
  · rintro ⟨rest, h⟩
    refine ⟨String.ofList rest, String.toList_inj.mp ?_⟩
    rw [String.toList_append, String.toList_ofList, h]
  · rintro ⟨rest, rfl⟩
    exact ⟨rest.toList, String.toList_append.symm⟩

theorem under_iff {keyspace key : String} :
    Under keyspace key ↔ hasPrefix (keyspacePrefix keyspace) key = true := hasPrefix_iff.symm

namespace Under

theorem append {keyspace key : String} (h : Under keyspace key) (rest : String) :
    Under keyspace (key ++ rest) := by
  obtain ⟨first, rfl⟩ := h
  exact ⟨first ++ rest, String.append_assoc⟩

theorem record (keyspace id : String) : Under keyspace (Key.record keyspace id) := ⟨_, rfl⟩

theorem membersPrefix (keyspace : String) : Under keyspace (Key.membersPrefix keyspace) := by
  refine ⟨":", ?_⟩
  rw [Key.membersPrefix, String.append_assoc]
  rfl

theorem equalityPrefix (keyspace path token : String) :
    Under keyspace (Key.equalityPrefix keyspace path token) :=
  (((record keyspace path).append ":").append _).append ":index:"

theorem geoPrefix (keyspace path : String) : Under keyspace (Key.geoPrefix keyspace path) :=
  (record keyspace path).append ":geo:"

theorem slot (keyspace id : String) (s : Slot) : Under keyspace (s.key keyspace id) := by
  cases s with
  | member => exact (membersPrefix keyspace).append _
  | record => exact record keyspace id
  | backRefs => exact (record keyspace id).append _
  | equality path token => exact (equalityPrefix keyspace path token).append _
  | geo path => exact (geoPrefix keyspace path).append _

/-- No key is under two names, also where one extends the other. -/
theorem unique {keyspace keyspace' key : String} (hk : IsName keyspace)
    (hk' : IsName keyspace') (h : Under keyspace key) (h' : Under keyspace' key) :
    keyspace = keyspace' := by
  obtain ⟨rest, rfl⟩ := h
  obtain ⟨rest', h⟩ := h'
  have hlist := congrArg String.toList h
  simp only [String.toList_append, List.append_assoc] at hlist
  have hd : ∀ s : List Char, Delimited (":".toList ++ s) := fun s => by simp [Delimited]
  exact String.toList_inj.mp (name_append_inj hk hk' (hd _) (hd _) hlist).1

end Under

theorem hasPrefix_keyspacePrefix {keyspace keyspace' : String} (hk : IsName keyspace)
    (hk' : IsName keyspace') (id : String) (s : Slot) :
    hasPrefix (keyspacePrefix keyspace) (s.key keyspace' id) = true ↔ keyspace' = keyspace := by
  rw [← under_iff]
  constructor
  · exact (Under.slot keyspace' id s).unique hk' hk
  · rintro rfl
    exact Under.slot keyspace' id s

end IndexedStore.Key
