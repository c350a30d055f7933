import IndexedStore.Cbor.Item

/-! # The order of texts

The order of texts, code point by code point, is the order of their bytes, and a text starts with
another exactly when its bytes start with those of the other.
-/
namespace IndexedStore.Cbor

/-- Of two characters the first byte in which they differ decides, whatever follows. -/
theorem utf8EncodeChar_lt {c d : Char} (h : c < d) (a b : Bytes) :
    String.utf8EncodeChar c ++ a < String.utf8EncodeChar d ++ b := by
  have hv : c.val.toNat < d.val.toNat := h
  have hw : d.val.toNat < 0x110000 := by
    rcases d.valid with hd | ⟨-, hd⟩
    · exact Nat.lt_trans hd (by decide)
    · exact hd
  unfold String.utf8EncodeChar
  generalize c.val.toNat = v at *
  generalize d.val.toNat = w at *
  dsimp only
  repeat' split
  all_goals
    simp (disch := omega) only [List.cons_append, List.nil_append, List.cons_lt_cons_iff,
      UInt8.lt_iff_toNat_lt, ← UInt8.toNat_inj, UInt8.toNat_ofNat', Nat.mod_eq_of_lt]
    omega

theorem utf8_eq_flatMap (s : String) : utf8 s = s.toList.flatMap String.utf8EncodeChar := by
  unfold utf8
  show s.toByteArray.data.toList = _
  rw [← String.utf8Encode_toList, List.utf8Encode]
  simp

theorem utf8_lt {s t : String} (h : s < t) : utf8 s < utf8 t := by
  rw [utf8_eq_flatMap, utf8_eq_flatMap]
  have hl : s.toList < t.toList := String.lt_iff.mp h
  generalize s.toList = l at hl
  generalize t.toList = m at hl
  induction l generalizing m with
  | nil =>
    cases m with
    | nil => exact absurd hl (List.not_lt_nil _)
    | cons d m =>
      obtain ⟨x, b, hb⟩ := List.exists_cons_of_ne_nil (String.utf8EncodeChar_ne_nil (c := d))
      rw [List.flatMap_cons, hb]
      exact List.nil_lt_cons _ _
  | cons c l ih =>
    cases m with
    | nil => exact absurd hl (List.not_lt_nil _)
    | cons d m =>
      rw [List.flatMap_cons, List.flatMap_cons]
      rcases List.cons_lt_cons_iff.mp hl with hc | ⟨rfl, hlm⟩
      · exact utf8EncodeChar_lt hc _ _
      · exact List.append_left_lt (ih m hlm)

theorem utf8EncodeChar_append_inj {c d : Char} {a b : Bytes}
    (h : String.utf8EncodeChar c ++ a = String.utf8EncodeChar d ++ b) : c = d ∧ a = b := by
  rcases Std.lt_trichotomy c d with hlt | rfl | hlt
  · exact absurd (h ▸ utf8EncodeChar_lt hlt a b) (List.lt_irrefl _)
  · exact ⟨rfl, List.append_cancel_left h⟩
  · exact absurd (h ▸ utf8EncodeChar_lt hlt b a) (List.lt_irrefl _)

/-- A text starts with another exactly when its bytes start with those of the other. -/
theorem utf8_prefix_iff {s t : String} : utf8 s <+: utf8 t ↔ s.toList <+: t.toList := by
  rw [utf8_eq_flatMap, utf8_eq_flatMap]
  generalize s.toList = l
  generalize t.toList = m
  constructor
  · intro h
    induction l generalizing m with
    | nil => exact List.nil_prefix
    | cons c l ih =>
      obtain ⟨rest, hrest⟩ := h
      rw [List.flatMap_cons, List.append_assoc] at hrest
      cases m with
      | nil => simp [String.utf8EncodeChar_ne_nil] at hrest
      | cons d m =>
        obtain ⟨rfl, htail⟩ := utf8EncodeChar_append_inj hrest
        exact List.cons_prefix_cons.mpr ⟨rfl, ih m ⟨rest, htail⟩⟩
  · rintro ⟨rest, rfl⟩
    exact ⟨rest.flatMap String.utf8EncodeChar, by rw [List.flatMap_append]⟩

end IndexedStore.Cbor
