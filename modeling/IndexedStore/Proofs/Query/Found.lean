import IndexedStore.Proofs.Key.Spelling
import IndexedStore.Proofs.Query.Evaluate

/-! # Ids found in any content

Whatever the backing store holds, a lookup finds the ids that some stored key spells behind
the scanned prefix. Main statement: these are all spellings of the id, of which the keys that
the store writes use the tight one.
-/
namespace IndexedStore

/-- Some stored key is `start` with a spelling of the id behind it, and its bytes satisfy `P`. -/
def Content.Spelled (c : Content) (start id : String) (P : Bytes → Prop) : Prop :=
  id ≠ "" ∧ ∃ s b, Key.unescapeSegment s = some id ∧ c.get? (start ++ s) = some b ∧ P b

namespace Content

variable {c : Content} {start id : String}

theorem exists_scan_iff {P : Bytes → Prop} :
    (∃ e ∈ c.scan start, Key.trailingId? start e.1 = some id ∧ P e.2) ↔ c.Spelled start id P := by
  constructor
  · rintro ⟨⟨key, b⟩, he, ht, hP⟩
    obtain ⟨hid, s, rfl, hs⟩ := Key.trailingId?_eq_some_iff.mp ht
    exact ⟨hid, s, b, hs, (mem_scan.mp he).1, hP⟩
  · rintro ⟨hid, s, b, hs, hb, hP⟩
    have ht : Key.trailingId? start (start ++ s) = some id :=
      Key.trailingId?_eq_some_iff.mpr ⟨hid, s, rfl, hs⟩
    exact ⟨(start ++ s, b), mem_scan.mpr ⟨hb, Key.hasPrefix_of_trailingId? ht⟩, ht, hP⟩

theorem contains_ids : (c.ids start).contains id = true ↔ c.Spelled start id fun _ => True := by
  rw [ids, TextSet.contains_ofTexts, List.mem_filterMap, ← exists_scan_iff]
  simp only [and_true]

end Content

namespace Task

theorem decodes_of_within {start : String} {center : GeoPoint} {radius : Float} {c : Content}
    {l : List (String × Bytes)} {found : List String}
    (h : (within start center radius l).on c = .ok found) :
    ∀ e ∈ l, ∀ id, Key.trailingId? start e.1 = some id → ∃ p : GeoPoint, decode e.2 = .ok p := by
  induction l generalizing found with
  | nil => exact fun e he => absurd he List.not_mem_nil
  | cons e rest ih =>
    obtain ⟨key, b⟩ := e
    unfold within at h
    split at h
    · rename_i ht
      exact List.forall_mem_cons.mpr ⟨fun id hid => (by cases ht.symm.trans hid), ih h⟩
    · obtain ⟨p, hp, h⟩ := (on_bind_eq_ok (reading_decodeAt _ _) fun _ =>
        (reading_within _ _ _ _).bind fun _ => Reading.pure _).mp h
      obtain ⟨ids, hids, -⟩ := (on_bind_eq_ok (reading_within _ _ _ _) fun _ =>
        Reading.pure _).mp h
      refine List.forall_mem_cons.mpr ⟨fun _ _ => ?_, ih hids⟩
      rw [on_decodeAt] at hp
      cases hd : (decode b : Except CodecError GeoPoint) with
      | error e =>
        rw [hd] at hp
        cases hp
      | ok q => exact ⟨q, rfl⟩

theorem contains_lookupEq {keyspace path id : String} {value : Value} {c : Content}
    {found : TextSet} (h : (lookupEq keyspace path value).on c = .ok found) :
    found.contains id = true ↔ ∃ token, value.token? = some token ∧
      c.Spelled (Key.equalityPrefix keyspace path token) id fun _ => True := by
  rw [on_lookupEq] at h
  cases h
  cases value.token? with
  | none => simp
  | some token => simpa using Content.contains_ids

theorem contains_lookupNear {keyspace path id : String} {center : GeoPoint}
    {distance : Distance} {c : Content} {found : TextSet}
    (h : (lookupNear keyspace path center distance).on c = .ok found) :
    found.contains id = true ↔ c.Spelled (Key.geoPrefix keyspace path) id fun b =>
      center.reaches distance.toMeters b = true := by
  obtain ⟨l, hl, h⟩ := (on_bind_eq_ok (Reading.scan _) fun _ =>
    (reading_within _ _ _ _).bind fun _ => reading_reportLookup _ _ _).mp h
  obtain rfl : c.scan (Key.geoPrefix keyspace path) = l := by simpa using hl
  obtain ⟨ids, hids, ⟨⟩⟩ := (on_bind_eq_ok (reading_within _ _ _ _) fun _ =>
    reading_reportLookup _ _ _).mp h
  rw [on_within (decodes_of_within hids)] at hids
  cases hids
  rw [TextSet.contains_ofTexts, List.mem_filterMap, ← Content.exists_scan_iff]
  simp only [Option.filter_eq_some_iff]

end Task

/-- A text `s` is read as the segment `id` exactly when it spells it, and the escaped form is the
tight spelling: only a needless escape tells another one from it. Behind a prefix an id that is
not empty is read from its spellings, among texts without needless escapes from the escaped form
alone, so that two such keys under one prefix have different ids. In any content the members,
the equality lookups and the radius lookups find the ids that a stored key spells behind their
prefix. -/
theorem ids_read_from_spellings (start s id : String) (e : Engine) :
    (Key.unescapeSegment s = some id ↔ Key.Spells s.toList id.toList) ∧
    (s = Key.escapeSegment id ↔ Key.unescapeSegment s = some id ∧ Key.Tight s.toList = true) ∧
    (∀ key : String, Key.trailingId? start key = some id ↔
      id ≠ "" ∧ ∃ s, key = start ++ s ∧ Key.unescapeSegment s = some id) ∧
    (Key.Tight s.toList = true →
      (Key.trailingId? start (start ++ s) = some id ↔ id ≠ "" ∧ s = Key.escapeSegment id)) ∧
    (∀ s' : String, Key.Tight s.toList = true → Key.Tight s'.toList = true →
      Key.trailingId? start (start ++ s) = some id →
      Key.trailingId? start (start ++ s') = some id → start ++ s = start ++ s') ∧
    (∀ (keyspace : String) (found : TextSet), (Task.lookupMembers keyspace e).1 = .ok found →
      (found.contains id = true ↔
        e.content.Spelled (Key.membersPrefix keyspace) id fun _ => True)) ∧
    (∀ (keyspace path : String) (value : Value) (found : TextSet),
      (Task.lookupEq keyspace path value e).1 = .ok found →
        (found.contains id = true ↔ ∃ token, value.token? = some token ∧
          e.content.Spelled (Key.equalityPrefix keyspace path token) id fun _ => True)) ∧
    (∀ (keyspace path : String) (center : GeoPoint) (distance : Distance) (found : TextSet),
      (Task.lookupNear keyspace path center distance e).1 = .ok found →
        (found.contains id = true ↔ e.content.Spelled (Key.geoPrefix keyspace path) id
          fun b => center.reaches distance.toMeters b = true)) := by
  refine ⟨Key.unescapeSegment_eq_some_iff, Key.eq_escapeSegment_iff,
    fun key => Key.trailingId?_eq_some_iff, Key.trailingId?_of_tight, ?_, ?_, ?_, ?_⟩
  · intro s' hs hs' h h'
    rw [((Key.trailingId?_of_tight hs).mp h).2, ((Key.trailingId?_of_tight hs').mp h').2]
  · intro keyspace found h
    have hon := (Task.reading_lookupMembers keyspace).ok e found h
    cases hon
    exact Content.contains_ids
  · intro keyspace path value found h
    exact Task.contains_lookupEq ((Task.reading_lookupEq keyspace path value).ok e found h)
  · intro keyspace path center distance found h
    exact Task.contains_lookupNear
      ((Task.reading_lookupNear keyspace path center distance).ok e found h)

/-- A foreign key with a needless escape counts as a marker of the id without it. -/
theorem needless_escape_read :
    Key.trailingId? "k::" "k::\\a" = some "a" ∧ "k::\\a" ≠ "k::" ++ Key.escapeSegment "a" ∧
      ∀ found, (Task.lookupMembers "k"
        (.holding (Dict.empty.insert "k::\\a" []))).1 = .ok found → found.contains "a" = true := by
  obtain ⟨-, -, hread, -, -, hmembers, -⟩ := ids_read_from_spellings "k::" "\\a" "a"
    (.holding (Dict.empty.insert "k::\\a" []))
  refine ⟨(hread "k::\\a").mpr ⟨by decide, "\\a", rfl, rfl⟩, by decide, ?_⟩
  intro found h
  exact (hmembers "k" found h).mpr ⟨by decide, "\\a", [], rfl, rfl, trivial⟩

end IndexedStore
