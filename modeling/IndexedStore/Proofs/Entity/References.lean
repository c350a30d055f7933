import IndexedStore.Proofs.Entity.Normalize

/-! # What becomes of reference fields

A reference field may hold null, an id, or a saved entity of the keyspace that its first
declaration names, and an id takes the place of a text or an entity. Normalizing goes through
the declarations one after another: it either does this to every field, or stops at the first
declaration whose field holds anything else.
-/
namespace IndexedStore

/-- What is stored for the value of a field that refers to `target`. A text and the id of an
entity must not be empty; an id that is given as such may be. -/
inductive Value.StoredAs (target : String) : Value → Value → Prop
  | null : StoredAs target .null .null
  | ref (id : String) : StoredAs target (.ref id) (.ref id)
  | text (id : String) (hid : id ≠ "") : StoredAs target (.text id) (.ref id)
  | entity (id : String) (fields : Fields) (hid : id ≠ "") :
      StoredAs target (.entity target (some id) fields) (.ref id)

/-- Null and ids are stored as they are. -/
def Value.Plain (v : Value) : Prop := v = .null ∨ ∃ id, v = .ref id

namespace Value.StoredAs

variable {target : String} {v w : Value}

theorem plain (h : v.StoredAs target w) : w.Plain := by
  cases h with
  | null => exact Or.inl rfl
  | ref id => exact Or.inr ⟨id, rfl⟩
  | text id _ => exact Or.inr ⟨id, rfl⟩
  | entity id _ _ => exact Or.inr ⟨id, rfl⟩

theorem of_plain (target : String) (hv : v.Plain) : v.StoredAs target v := by
  obtain rfl | ⟨id, rfl⟩ := hv
  · exact null
  · exact ref id

theorem eq_of_plain (hv : v.Plain) (h : v.StoredAs target w) : w = v := by
  obtain rfl | ⟨id, rfl⟩ := hv <;> cases h <;> rfl

theorem unique (h : v.StoredAs target w) {w' : Value} (h' : v.StoredAs target w') : w' = w := by
  cases h <;> cases h' <;> rfl

theorem eq_empty_iff (h : v.StoredAs target w) : w = .ref "" ↔ v = .ref "" := by
  cases h <;> simp_all

end Value.StoredAs

theorem foldlM_eq_error {α β ε : Type} {f : β → α → Except ε β} {l : List α} {b : β} {x : ε}
    (h : l.foldlM f b = .error x) :
    ∃ before a after b', l = before ++ a :: after ∧ before.foldlM f b = .ok b' ∧
      f b' a = .error x := by
  induction l generalizing b with
  | nil => cases h
  | cons a l ih =>
    rw [List.foldlM_cons] at h
    cases ha : f b a with
    | error y =>
      rw [ha] at h
      cases h
      exact ⟨[], a, l, b, rfl, rfl, ha⟩
    | ok b₁ =>
      rw [ha] at h
      obtain ⟨before, a', after, b', rfl, hbefore, hx⟩ := ih h
      refine ⟨a :: before, a', after, b', rfl, ?_, hx⟩
      rw [List.foldlM_cons, ha]
      exact hbefore

namespace KeyspaceModel

variable {m : KeyspaceModel} {references : List ReferenceModel} {r : ReferenceModel}
  {fields fields' : Fields} {v : Value}

theorem storedAs_of_referenceId {id : String} (h : referenceId r v = .ok id) :
    v.StoredAs r.target (.ref id) := by
  cases v with
  | text i =>
    simp only [referenceId] at h
    split at h
    · cases h
    · cases h
      exact .text _ ‹_›
  | entity k o fields =>
    simp only [referenceId] at h
    split at h
    · cases h
    · rename_i hk
      obtain rfl : k = r.target := by simpa using hk
      cases o with
      | none => cases h
      | some i =>
        simp only at h
        split at h
        · cases h
        · cases h
          exact .entity _ fields ‹_›
  | _ => cases h

theorem plain_of_storedAs {fault : ReferenceFault} (h : referenceId r v = .error fault)
    {w : Value} (hw : v.StoredAs r.target w) : v.Plain := by
  cases hw with
  | null => exact Or.inl rfl
  | ref id => exact Or.inr ⟨id, rfl⟩
  | text id hid => simp [referenceId, hid] at h
  | entity id fields hid => simp [referenceId, hid] at h

/-- What the declarations make of what stands in a field. -/
def Stores (references : List ReferenceModel) (name : String) (o o' : Option Value) : Prop :=
  match references.find? fun r => r.field = name with
  | none => o' = o
  | some r => Option.Rel (Value.StoredAs r.target) o o'

/-- The first declaration of a field cannot store what stands there. -/
def Offends (references : List ReferenceModel) (fields : Fields) (r : ReferenceModel) : Prop :=
  references.find? (fun r' => r'.field = r.field) = some r ∧
    ∃ v, Assoc.lookup r.field fields = some v ∧ ∀ w, ¬v.StoredAs r.target w

theorem stores_of_normalizeField (h : m.normalizeField fields r = .ok fields') (name : String) :
    Stores [r] name (Assoc.lookup name fields) (Assoc.lookup name fields') := by
  unfold Stores
  by_cases hn : r.field = name
  · rw [List.find?_cons_of_pos (by simpa using hn)]
    subst hn
    obtain ⟨hplain, rfl⟩ | ⟨v, id, hl, hv, rfl⟩ := normalizeField_eq_ok h
    · cases hl : Assoc.lookup r.field fields' with
      | none => exact .none
      | some v => exact .some (.of_plain r.target (hplain v hl))
    · rw [hl, Assoc.lookup_insert, if_pos rfl]
      exact .some (storedAs_of_referenceId hv)
  · rw [List.find?_cons_of_neg (by simpa using hn)]
    obtain ⟨-, rfl⟩ | ⟨v, id, -, -, rfl⟩ := normalizeField_eq_ok h
    · rfl
    · show Assoc.lookup name (Assoc.insert r.field (.ref id) fields) = Assoc.lookup name fields
      rw [Assoc.lookup_insert, if_neg hn]

/-- A field is stored for its first declaration, and the later ones find it plain. -/
theorem Stores.cons {name : String} {o o' o'' : Option Value} (h : Stores [r] name o o')
    (hrest : Stores references name o' o'') : Stores (r :: references) name o o'' := by
  unfold Stores at h hrest ⊢
  by_cases hn : r.field = name
  · rw [List.find?_cons_of_pos (by simpa using hn)] at h ⊢
    cases hr : references.find? fun r => r.field = name with
    | none =>
      rw [hr] at hrest
      obtain rfl : o'' = o' := hrest
      exact h
    | some r' =>
      rw [hr] at hrest
      cases h with
      | none =>
        cases hrest
        exact .none
      | some hv =>
        cases hrest with
        | some hw =>
          rw [hw.eq_of_plain hv.plain]
          exact .some hv
  · rw [List.find?_cons_of_neg (by simpa using hn)] at h ⊢
    obtain rfl : o' = o := h
    exact hrest

theorem stores_of_foldlM (h : references.foldlM m.normalizeField fields = .ok fields')
    (name : String) :
    Stores references name (Assoc.lookup name fields) (Assoc.lookup name fields') := by
  induction references generalizing fields with
  | nil =>
    cases h
    rfl
  | cons r references ih =>
    rw [List.foldlM_cons] at h
    cases hr : m.normalizeField fields r with
    | error x =>
      rw [hr] at h
      cases h
    | ok fields₁ =>
      rw [hr] at h
      exact (stores_of_normalizeField hr name).cons (ih h)

theorem Stores.not_offends {o : Option Value}
    (h : Stores references r.field (Assoc.lookup r.field fields) o) :
    ¬Offends references fields r := by
  rintro ⟨hr, v, hv, hno⟩
  unfold Stores at h
  rw [hr, hv] at h
  cases h with
  | some hw => exact hno _ hw

theorem Stores.unique {name : String} {o o₁ o₂ : Option Value} (h₁ : Stores references name o o₁)
    (h₂ : Stores references name o o₂) : o₁ = o₂ := by
  unfold Stores at h₁ h₂
  cases hfirst : references.find? fun r => r.field = name with
  | none =>
    rw [hfirst] at h₁ h₂
    exact Eq.trans h₁ (Eq.symm h₂)
  | some r =>
    rw [hfirst] at h₁ h₂
    cases h₁ with
    | none =>
      cases h₂
      rfl
    | some hv =>
      cases h₂ with
      | some hw => rw [hv.unique hw]

theorem Offends.of_append {before rest : List ReferenceModel} (hr : r ∈ before)
    (h : Offends (before ++ rest) fields r) : Offends before fields r := by
  refine ⟨?_, h.2⟩
  have hfirst := h.1
  rw [List.find?_append] at hfirst
  cases hb : before.find? fun r' => r'.field = r.field with
  | some r' =>
    rw [hb] at hfirst
    exact hfirst
  | none => simpa using List.find?_eq_none.mp hb r hr

theorem normalizeField_eq_error {x : Error} (h : m.normalizeField fields r = .error x) :
    ∃ v fault, Assoc.lookup r.field fields = some v ∧ ¬v.Plain ∧
      referenceId r v = .error fault ∧ x = .invalidReference m.name r.field fault := by
  unfold normalizeField at h
  split at h
  · cases h
  · cases h
  · cases h
  · rename_i v hnull href hl
    split at h
    · cases h
    · rename_i fault hv
      cases h
      refine ⟨v, fault, hl, ?_, hv, rfl⟩
      rintro (rfl | ⟨id, rfl⟩)
      · exact hnull rfl
      · exact href id rfl

/-- Normalizing stops at the first declaration that offends. -/
theorem first_offence_of_foldlM {x : Error}
    (h : references.foldlM m.normalizeField fields = .error x) :
    ∃ before r after v fault, references = before ++ r :: after ∧
      (∀ r' ∈ before, ¬Offends references fields r') ∧ Offends references fields r ∧
      Assoc.lookup r.field fields = some v ∧ referenceId r v = .error fault ∧
      x = .invalidReference m.name r.field fault := by
  obtain ⟨before, r, after, fields₁, rfl, hbefore, hx⟩ := foldlM_eq_error h
  obtain ⟨v, fault, hv, hplain, hfault, rfl⟩ := normalizeField_eq_error hx
  have hstores := stores_of_foldlM hbefore
  have hown := hstores r.field
  unfold Stores at hown
  rw [hv] at hown
  cases hfirst : before.find? fun r' => r'.field = r.field with
  | some r' =>
    rw [hfirst] at hown
    cases hl : Assoc.lookup r.field fields with
    | none =>
      rw [hl] at hown
      cases hown
    | some w =>
      rw [hl] at hown
      cases hown with
      | some hw => exact absurd hw.plain hplain
  | none =>
    rw [hfirst] at hown
    refine ⟨before, r, after, v, fault, rfl, ?_, ⟨?_, v, hown.symm, ?_⟩, hown.symm, hfault, rfl⟩
    · intro r' hr' hoff
      exact (hstores r'.field).not_offends (hoff.of_append hr')
    · rw [List.find?_append, hfirst, Option.none_or]
      exact List.find?_cons_of_pos (by simp)
    · exact fun w hw => hplain (plain_of_storedAs hfault hw)

theorem stores_of_normalize {e n : Entity} (h : m.normalize e = .ok n) (name : String) :
    Stores m.references name (Assoc.lookup name e.fields) (Assoc.lookup name n.fields) :=
  stores_of_foldlM (foldlM_of_normalize h).2.2 name

/-- Normalizing brings in no empty id and takes none away. -/
theorem Stores.eq_empty_iff {name : String} {o o' : Option Value}
    (h : Stores references name o o') : o' = some (.ref "") ↔ o = some (.ref "") := by
  unfold Stores at h
  cases hfirst : references.find? fun r => r.field = name with
  | none =>
    rw [hfirst] at h
    rw [show o' = o from h]
  | some r =>
    rw [hfirst] at h
    cases h with
    | none => rfl
    | some hw => simpa using hw.eq_empty_iff

theorem normalize_or_offence (m : KeyspaceModel) (e : Entity) :
    (∃ n, m.normalize e = .ok n) ∨
      ∃ before r after v fault, m.references = before ++ r :: after ∧
        (∀ r' ∈ before, ¬Offends m.references e.fields r') ∧ Offends m.references e.fields r ∧
        Assoc.lookup r.field e.fields = some v ∧ referenceId r v = .error fault ∧
        m.normalize e = .error (.invalidReference m.name r.field fault) := by
  unfold normalize
  cases hf : m.references.foldlM m.normalizeField e.fields with
  | ok fields => exact Or.inl ⟨_, rfl⟩
  | error x =>
    obtain ⟨before, r, after, v, fault, hsplit, hbefore, hoff, hv, hfault, rfl⟩ :=
      first_offence_of_foldlM hf
    exact Or.inr ⟨before, r, after, v, fault, hsplit, hbefore, hoff, hv, hfault, rfl⟩

theorem not_offends_of_normalize {e n : Entity} (h : m.normalize e = .ok n) (r : ReferenceModel) :
    ¬Offends m.references e.fields r :=
  (stores_of_normalize h r.field).not_offends

/-- Normalizing is determined by what the declarations make of each field. -/
theorem normalize_eq_ok_iff {e n : Entity} (he : e.Ordered) : m.normalize e = .ok n ↔
    n.keyspace = e.keyspace ∧ n.id = e.id ∧ Assoc.Sorted n.fields ∧
      ∀ name, Stores m.references name (Assoc.lookup name e.fields)
        (Assoc.lookup name n.fields) := by
  constructor
  · intro h
    obtain ⟨hkeyspace, hid, hordered⟩ := normalize_eq_ok h
    exact ⟨hkeyspace, hid, (hordered he).1, stores_of_normalize h⟩
  · rintro ⟨hkeyspace, hid, hsorted, hstores⟩
    obtain ⟨n', hn⟩ | ⟨_, r, _, _, _, -, -, hoff, -⟩ := m.normalize_or_offence e
    · obtain ⟨hkeyspace', hid', hordered⟩ := normalize_eq_ok hn
      have hfields : n'.fields = n.fields := Assoc.ext_lookup (hordered he).1 hsorted
        fun name => (stores_of_normalize hn name).unique (hstores name)
      have hsame : n' = n := by
        obtain ⟨k, i, fields⟩ := n
        obtain ⟨k', i', fields'⟩ := n'
        simp_all
      rw [hn, hsame]
    · exact absurd hoff (hstores r.field).not_offends

end KeyspaceModel

end IndexedStore
