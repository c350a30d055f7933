import IndexedStore.Key.Segment

/-! # Rows of escaped segments

A key behind its keyspace name is a row of segments, each after a separator. The escape
makes the row readable from left to right: a segment ends where the first bare separator
stands, so that a row determines its segments.
-/
namespace IndexedStore.Key

/-- What may follow an escaped segment: nothing, or a separator. -/
def Delimited : List Char → Prop
  | [] => True
  | c :: _ => c = ':'

/-- The segments one after another, each behind a separator. -/
def row (segments : List String) : List Char :=
  segments.flatMap fun s => ':' :: escape s.toList

@[simp] theorem row_nil : row [] = [] := rfl
@[simp] theorem row_cons (s : String) (rest : List String) :
    row (s :: rest) = ':' :: (escape s.toList ++ row rest) := rfl

@[simp] theorem row_append (a b : List String) : row (a ++ b) = row a ++ row b := by
  simp [row]

theorem delimited_row (segments : List String) : Delimited (row segments) := by
  cases segments <;> simp [Delimited]

@[simp] theorem escape_nil : escape [] = [] := rfl

theorem escape_cons (c : Char) (s : List Char) :
    escape (c :: s) = (if c = '\\' ∨ c = ':' then ['\\', c] else [c]) ++ escape s := by
  simp [escape, escapeChar]

theorem unescape_plain {c : Char} (h₁ : c ≠ '\\') (h₂ : c ≠ ':') (rest : List Char) :
    unescape (c :: rest) = (unescape rest).map (c :: ·) := by
  rw [unescape]
  · exact fun _ _ h => absurd h h₁
  · exact fun h => absurd h h₁
  · exact h₂

theorem unescape_escape_append (s : List Char) {rest : List Char} (hr : Delimited rest) :
    unescape (escape s ++ rest) = if rest = [] then some s else none := by
  induction s with
  | nil =>
    cases rest with
    | nil => rfl
    | cons c rest =>
      obtain rfl : c = ':' := hr
      simp [unescape]
  | cons c s ih =>
    rw [escape_cons]
    by_cases hc : c = '\\' ∨ c = ':'
    · rw [if_pos hc]
      simp only [List.cons_append, List.nil_append, unescape, ih]
      split <;> rfl
    · rw [if_neg hc]
      obtain ⟨h₁, h₂⟩ := not_or.mp hc
      simp only [List.cons_append, List.nil_append, unescape_plain h₁ h₂, ih]
      split <;> rfl

theorem unescape_escape (s : List Char) : unescape (escape s) = some s := by
  simpa using unescape_escape_append s (show Delimited [] from trivial)

theorem escape_append_inj {s t r r' : List Char} (hr : Delimited r) (hr' : Delimited r')
    (h : escape s ++ r = escape t ++ r') : s = t ∧ r = r' := by
  induction s generalizing t with
  | nil =>
    cases t with
    | nil => exact ⟨rfl, h⟩
    | cons d t =>
      rw [escape_cons] at h
      split at h <;> subst h <;> simp_all [Delimited]
  | cons c s ih =>
    cases t with
    | nil =>
      rw [escape_cons] at h
      split at h <;> simp at h <;> subst h <;> simp_all [Delimited]
    | cons d t =>
      rw [escape_cons, escape_cons] at h
      have hcd : c = d ∧ escape s ++ r = escape t ++ r' := by
        split at h <;> split at h <;> grind
      obtain ⟨rfl, hst⟩ := hcd
      obtain ⟨rfl, rfl⟩ := ih hst
      exact ⟨rfl, rfl⟩

theorem row_inj {a b : List String} (h : row a = row b) : a = b := by
  induction a generalizing b with
  | nil => cases b <;> simp_all
  | cons s a ih =>
    cases b with
    | nil => simp at h
    | cons t b =>
      simp only [row_cons, List.cons.injEq, true_and] at h
      obtain ⟨hs, hab⟩ := escape_append_inj (delimited_row a) (delimited_row b) h
      rw [String.toList_inj.mp hs, ih hab]

/-- A row that goes on with a separator behind `a` has the segments of `a` and a further
one, which starts behind that separator. -/
theorem row_eq_append {a segments : List String} {t : List Char}
    (h : row segments = row a ++ ':' :: t) :
    ∃ s rest, segments = a ++ s :: rest ∧ t = escape s.toList ++ row rest := by
  induction a generalizing segments with
  | nil =>
    cases segments with
    | nil => simp at h
    | cons s rest =>
      simp only [row_nil, List.nil_append, row_cons, List.cons.injEq, true_and] at h
      exact ⟨s, rest, rfl, h.symm⟩
  | cons u a ih =>
    cases segments with
    | nil => simp at h
    | cons s rest =>
      simp only [row_cons, List.cons_append, List.append_assoc, List.cons.injEq, true_and] at h
      have hd : Delimited (row a ++ ':' :: t) := by cases a <;> simp [Delimited]
      obtain ⟨hs, hrest⟩ := escape_append_inj (delimited_row rest) hd h
      obtain ⟨v, tail, rfl, ht⟩ := ih hrest
      exact ⟨v, tail, by rw [String.toList_inj.mp hs]; rfl, ht⟩

theorem name_append_inj {a b r r' : List Char} (ha : ':' ∉ a) (hb : ':' ∉ b) (hr : Delimited r)
    (hr' : Delimited r') (h : a ++ r = b ++ r') : a = b ∧ r = r' := by
  induction a generalizing b with
  | nil =>
    cases b with
    | nil => exact ⟨rfl, h⟩
    | cons d b =>
      obtain rfl : r = d :: (b ++ r') := h
      obtain rfl : d = ':' := hr
      exact absurd List.mem_cons_self hb
  | cons c a ih =>
    cases b with
    | nil =>
      obtain rfl : r' = c :: (a ++ r) := h.symm
      obtain rfl : c = ':' := hr'
      exact absurd List.mem_cons_self ha
    | cons d b =>
      obtain ⟨rfl, hab⟩ := List.cons.inj h
      obtain ⟨rfl, rfl⟩ := ih (fun hc => ha (List.mem_cons_of_mem _ hc))
        (fun hc => hb (List.mem_cons_of_mem _ hc)) hab
      exact ⟨rfl, rfl⟩

end IndexedStore.Key
