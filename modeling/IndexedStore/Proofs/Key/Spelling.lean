import IndexedStore.Proofs.Key.Slot

/-! # Spellings of a segment

Reading a segment drops every escape, also one in front of a character that could stand bare.
A segment may therefore be spelled in several ways. Its escaped form is the one spelling that
is tight, and behind a prefix an id is read from its spellings only.
-/
namespace IndexedStore.Key

/-- `s` spells `t`: the characters of `t`, each behind an escape, or bare unless it is the
separator or the escape itself. -/
inductive Spells : List Char → List Char → Prop where
  | nil : Spells [] []
  | bare {c : Char} {s t : List Char} (hesc : c ≠ '\\') (hsep : c ≠ ':') (h : Spells s t) :
      Spells (c :: s) (c :: t)
  | escaped {c : Char} {s t : List Char} (h : Spells s t) : Spells ('\\' :: c :: s) (c :: t)

/-- Nothing is escaped but the separator and the escape. -/
def Tight : List Char → Bool
  | '\\' :: c :: s => (c = '\\' || c = ':') && Tight s
  | _ :: s => Tight s
  | [] => true

theorem tight_bare {c : Char} (hc : c ≠ '\\') (s : List Char) : Tight (c :: s) = Tight s := by
  rw [Tight]
  exact fun _ _ h => absurd h hc

theorem tight_escaped (c : Char) (s : List Char) :
    Tight ('\\' :: c :: s) = ((c = '\\' || c = ':') && Tight s) := by
  rw [Tight]

theorem unescape_eq_some_iff {s t : List Char} : unescape s = some t ↔ Spells s t := by
  constructor
  · intro h
    fun_induction unescape s generalizing t with
    | case1 =>
      cases h
      exact .nil
    | case2 c rest ih =>
      obtain ⟨u, hu, rfl⟩ := Option.map_eq_some_iff.mp h
      exact .escaped (ih hu)
    | case3 => cases h
    | case4 => cases h
    | case5 c rest hpair hlast hsep ih =>
      obtain ⟨u, hu, rfl⟩ := Option.map_eq_some_iff.mp h
      refine .bare (fun hc => ?_) hsep (ih hu)
      -- an escape that is not the last character has been read as a pair before
      cases rest with
      | nil => exact hlast hc rfl
      | cons d rest => exact hpair d rest hc rfl
  · intro h
    induction h with
    | nil => rfl
    | bare hesc hsep _ ih => rw [unescape_plain hesc hsep, ih, Option.map_some]
    | escaped _ ih => rw [unescape, ih, Option.map_some]

theorem tight_escape (t : List Char) : Tight (escape t) = true := by
  induction t with
  | nil => rfl
  | cons c t ih =>
    rw [escape_cons]
    split
    · rename_i hc
      simpa [tight_escaped, ih] using hc
    · rename_i hc
      exact (tight_bare (not_or.mp hc).1 _).trans ih

theorem Spells.eq_escape {s t : List Char} (h : Spells s t) (hs : Tight s = true) :
    s = escape t := by
  induction h with
  | nil => rfl
  | bare hesc hsep _ ih =>
    rw [tight_bare hesc] at hs
    rw [escape_cons, if_neg (not_or.mpr ⟨hesc, hsep⟩), ← ih hs]
    rfl
  | escaped _ ih =>
    rw [tight_escaped, Bool.and_eq_true] at hs
    rw [escape_cons, if_pos (by simpa using hs.1), ← ih hs.2]
    rfl

theorem spells_escape (t : List Char) : Spells (escape t) t :=
  unescape_eq_some_iff.mp (unescape_escape t)

theorem eq_escape_iff {s t : List Char} :
    s = escape t ↔ Spells s t ∧ Tight s = true := by
  constructor
  · rintro rfl
    exact ⟨spells_escape t, tight_escape t⟩
  · rintro ⟨h, hs⟩
    exact h.eq_escape hs

theorem unescapeSegment_eq_some_iff {s t : String} :
    unescapeSegment s = some t ↔ Spells s.toList t.toList := by
  rw [unescapeSegment, ← unescape_eq_some_iff, Option.map_eq_some_iff]
  constructor
  · rintro ⟨u, hu, rfl⟩
    rw [hu, String.toList_ofList]
  · intro h
    exact ⟨t.toList, h, String.ofList_toList⟩

theorem eq_escapeSegment_iff {s t : String} :
    s = escapeSegment t ↔ unescapeSegment s = some t ∧ Tight s.toList = true := by
  rw [unescapeSegment_eq_some_iff, ← eq_escape_iff, ← String.toList_inj, escapeSegment,
    String.toList_ofList]

/-- Behind a prefix an id is read from its spellings and from nothing else. -/
theorem trailingId?_eq_some_iff {start key id : String} :
    trailingId? start key = some id ↔
      id ≠ "" ∧ ∃ s, key = start ++ s ∧ unescapeSegment s = some id := by
  constructor
  · intro h
    obtain ⟨s, hs⟩ := List.isPrefixOf_iff_prefix.mp (hasPrefix_of_trailingId? h)
    rw [trailingId?, if_pos (hasPrefix_of_trailingId? h), ← hs, List.drop_left] at h
    cases hu : unescape s with
    | none => simp [hu] at h
    | some t =>
      cases t with
      | nil => simp [hu] at h
      | cons c cs =>
        simp only [hu, Option.some.injEq] at h
        subst h
        refine ⟨by simp, String.ofList s, ?_, ?_⟩
        · rw [← String.toList_inj, String.toList_append, String.toList_ofList, hs]
        · rw [unescapeSegment, String.toList_ofList, hu, Option.map_some]
  · rintro ⟨hid, s, rfl, hs⟩
    obtain ⟨t, ht, rfl⟩ := Option.map_eq_some_iff.mp hs
    have hp : hasPrefix start (start ++ s) = true := by
      rw [hasPrefix, List.isPrefixOf_iff_prefix, String.toList_append]
      exact List.prefix_append _ _
    rw [trailingId?, if_pos hp, String.toList_append, List.drop_left, ht]
    cases t with
    | nil => exact absurd rfl hid
    | cons c cs => rfl

theorem trailingId?_of_tight {start s id : String} (hs : Tight s.toList = true) :
    trailingId? start (start ++ s) = some id ↔ id ≠ "" ∧ s = escapeSegment id := by
  rw [trailingId?_eq_some_iff, eq_escapeSegment_iff]
  constructor
  · rintro ⟨hid, u, hu, h⟩
    obtain rfl : s = u := by simpa [← String.toList_inj] using hu
    exact ⟨hid, h, hs⟩
  · rintro ⟨hid, h, -⟩
    exact ⟨hid, s, rfl, h⟩

end IndexedStore.Key
