import IndexedStore.Operation.Reference
import IndexedStore.Proofs.Codec.Value

/-! # Normalized entities

Writing references as ids keeps the keyspace, the id and the order of the field names. It leaves
every declared field with an id or without a value, so that nothing is left to do.
-/
namespace IndexedStore

theorem Value.allOrdered_insert {fields : Fields} {v : Value} (name : String) (hv : v.Ordered)
    (h : AllOrdered fields) : AllOrdered (Assoc.insert name v fields) := by
  induction fields with
  | nil => exact ⟨hv, trivial⟩
  | cons f fields ih =>
    obtain ⟨j, w⟩ := f
    obtain ⟨hw, hf⟩ := h
    unfold Assoc.insert
    split
    · exact ⟨hv, hw, hf⟩
    · split
      · exact ⟨hv, hf⟩
      · exact ⟨hw, ih hf⟩

theorem Entity.get?_set (e : Entity) (field : String) (v : Value) (name : String) :
    (e.set field v).get? name = if field = name then some v else e.get? name :=
  Assoc.lookup_insert field name v e.fields

/-- Whatever the field holds is null or an id. -/
def Fields.PlainAt (fields : Fields) (name : String) : Prop :=
  ∀ v, Assoc.lookup name fields = some v → v = .null ∨ ∃ id, v = .ref id

namespace KeyspaceModel

variable {m : KeyspaceModel} {references : List ReferenceModel} {r : ReferenceModel}
  {fields fields' : Fields}

theorem normalizeField_of_plainAt (h : fields.PlainAt r.field) :
    m.normalizeField fields r = .ok fields := by
  unfold normalizeField
  cases hl : Assoc.lookup r.field fields with
  | none => rfl
  | some v => obtain rfl | ⟨id, rfl⟩ := h v hl <;> rfl

theorem normalizeField_of_referenceId {v : Value} {id : String}
    (hl : Assoc.lookup r.field fields = some v) (hv : referenceId r v = .ok id) :
    m.normalizeField fields r = .ok (Assoc.insert r.field (.ref id) fields) := by
  unfold normalizeField
  rw [hl]
  cases v <;> first | cases hv | simp only [hv]

/-- A field that is not plain yet must hold something that stands for an id. -/
theorem normalizeField_eq_ok (h : m.normalizeField fields r = .ok fields') :
    (fields.PlainAt r.field ∧ fields' = fields) ∨
      ∃ v id, Assoc.lookup r.field fields = some v ∧ referenceId r v = .ok id ∧
        fields' = Assoc.insert r.field (.ref id) fields := by
  unfold normalizeField at h
  split at h
  · rename_i hl
    cases h
    refine Or.inl ⟨fun v hv => ?_, rfl⟩
    cases hl.symm.trans hv
  · rename_i hl
    cases h
    exact Or.inl ⟨fun v hv => Or.inl (Option.some.inj (hv.symm.trans hl)), rfl⟩
  · rename_i id hl
    cases h
    exact Or.inl ⟨fun v hv => Or.inr ⟨id, Option.some.inj (hv.symm.trans hl)⟩, rfl⟩
  · rename_i v _ _ hl
    split at h
    · rename_i id hv
      cases h
      exact Or.inr ⟨v, id, hl, hv, rfl⟩
    · cases h

theorem normalizeField_ordered (h : fields.Ordered)
    (hr : m.normalizeField fields r = .ok fields') : fields'.Ordered := by
  obtain ⟨-, rfl⟩ | ⟨v, id, -, -, rfl⟩ := normalizeField_eq_ok hr
  · exact h
  · exact ⟨h.1.insert _ _, Value.allOrdered_insert _ trivial h.2⟩

theorem plainAt_normalizeField (h : m.normalizeField fields r = .ok fields') {name : String}
    (hn : r.field = name ∨ fields.PlainAt name) : fields'.PlainAt name := by
  obtain ⟨hplain, rfl⟩ | ⟨v, id, -, -, rfl⟩ := normalizeField_eq_ok h
  · obtain rfl | hn := hn
    · exact hplain
    · exact hn
  · intro w hw
    rw [Assoc.lookup_insert] at hw
    split at hw
    · exact Or.inr ⟨id, (Option.some.inj hw).symm⟩
    · rename_i hne
      exact hn.resolve_left hne w hw

theorem plainAt_foldlM (h : references.foldlM m.normalizeField fields = .ok fields')
    {name : String} (hn : name ∈ references.map ReferenceModel.field ∨ fields.PlainAt name) :
    fields'.PlainAt name := by
  induction references generalizing fields with
  | nil =>
    cases h
    exact hn.resolve_left List.not_mem_nil
  | cons r references ih =>
    rw [List.foldlM_cons] at h
    cases hf : m.normalizeField fields r with
    | error x =>
      rw [hf] at h
      cases h
    | ok fields₁ =>
      rw [hf] at h
      refine ih h ?_
      rcases hn with hn | hn
      · rcases List.mem_cons.mp hn with rfl | hn
        · exact Or.inr (plainAt_normalizeField hf (Or.inl rfl))
        · exact Or.inl hn
      · exact Or.inr (plainAt_normalizeField hf (Or.inr hn))

/-- Where every declared field is plain nothing is left to do. -/
theorem foldlM_normalizeField_of_plainAt (h : ∀ r ∈ references, fields.PlainAt r.field) :
    references.foldlM m.normalizeField fields = .ok fields := by
  induction references with
  | nil => rfl
  | cons r references ih =>
    obtain ⟨hr, hrest⟩ := List.forall_mem_cons.mp h
    rw [List.foldlM_cons, normalizeField_of_plainAt hr]
    exact ih hrest

theorem foldlM_normalizeField_ordered (h : fields.Ordered)
    (hr : references.foldlM m.normalizeField fields = .ok fields') : fields'.Ordered := by
  induction references generalizing fields with
  | nil =>
    cases hr
    exact h
  | cons r references ih =>
    rw [List.foldlM_cons] at hr
    cases hf : m.normalizeField fields r with
    | error x =>
      rw [hf] at hr
      cases hr
    | ok fields₁ =>
      rw [hf] at hr
      exact ih (normalizeField_ordered h hf) hr

theorem foldlM_of_normalize {e n : Entity} (h : m.normalize e = .ok n) :
    n.keyspace = e.keyspace ∧ n.id = e.id ∧
      m.references.foldlM m.normalizeField e.fields = .ok n.fields := by
  unfold normalize at h
  cases hf : m.references.foldlM m.normalizeField e.fields with
  | error x =>
    rw [hf] at h
    cases h
  | ok fields =>
    rw [hf] at h
    cases h
    exact ⟨rfl, rfl, rfl⟩

theorem normalize_eq_ok {m : KeyspaceModel} {e n : Entity} (h : m.normalize e = .ok n) :
    n.keyspace = e.keyspace ∧ n.id = e.id ∧ (e.Ordered → n.fields.Ordered) := by
  obtain ⟨hk, hid, hf⟩ := foldlM_of_normalize h
  exact ⟨hk, hid, fun ho => foldlM_normalizeField_ordered ho hf⟩

theorem plainAt_of_normalize {e n : Entity} (h : m.normalize e = .ok n)
    (hr : r ∈ m.references) : n.fields.PlainAt r.field :=
  plainAt_foldlM (foldlM_of_normalize h).2.2 (Or.inl (List.mem_map_of_mem hr))

theorem normalize_normalize {e n : Entity} (h : m.normalize e = .ok n) :
    m.normalize n = .ok n := by
  unfold normalize
  rw [foldlM_normalizeField_of_plainAt fun r hr => plainAt_of_normalize h hr]
  rfl

end KeyspaceModel

end IndexedStore
