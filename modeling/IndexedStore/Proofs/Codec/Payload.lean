import IndexedStore.Codec.Payload
import IndexedStore.Proofs.Cbor.View

/-! # Payloads are read back

The bytes of a value are read back as that value when they are not too many and do not nest
too deeply, and never as another value.
-/
namespace IndexedStore

variable {α : Type} [Storable α]

/-- The bytes that stand for a value, whatever their number. -/
def payload (a : α) : Bytes := (Storable.toItem a).write []

theorem encode_eq_ok {a : α} {b : Bytes} :
    encode a = .ok b ↔ b = payload a ∧ (payload a).length ≤ maxPayload := by
  unfold encode
  dsimp only
  split
  · rename_i h
    constructor
    · intro hb
      cases hb
    · rintro ⟨-, hb⟩
      exact absurd hb (Nat.not_le.mpr h)
  · rename_i h
    constructor
    · intro hb
      cases hb
      exact ⟨rfl, Nat.not_lt.mp h⟩
    · rintro ⟨rfl, -⟩
      rfl

theorem decode_eq_ok {a : α} {b : Bytes} :
    decode b = .ok a ↔
      b.length ≤ maxPayload ∧ (Cbor.readAll b).bind Storable.ofItem? = some a := by
  unfold decode
  split
  · rename_i h
    constructor
    · intro hb
      cases hb
    · rintro ⟨hb, -⟩
      exact absurd hb (Nat.not_le.mpr h)
  · rename_i h
    cases (Cbor.readAll b).bind (Storable.ofItem? (α := α)) <;> simp [Nat.not_lt.mp h]

/-- The item of a value stands for that value. -/
structure Faithful (a : α) : Prop where
  canonical : (Storable.toItem a).Canonical
  ofItem? : (Storable.toItem a).nesting ≤ Cbor.maxNesting →
    Storable.ofItem? (Storable.toItem a) = some a

theorem decode_payload {a r : α} (ha : Faithful a) :
    decode (payload a) = .ok r ↔
      r = a ∧ (payload a).length ≤ maxPayload ∧
        (Storable.toItem a).nesting ≤ Cbor.maxNesting := by
  rw [decode_eq_ok]
  have hmax : maxPayload < 2 ^ 64 := by decide
  constructor
  · rintro ⟨hl, hr⟩
    have hlt : ((Storable.toItem a).write []).length < 2 ^ 64 := Nat.lt_of_le_of_lt hl hmax
    rw [payload, Cbor.readAll_write ha.canonical hlt] at hr
    split at hr
    · rename_i hn
      rw [Option.bind_some, ha.ofItem? hn] at hr
      exact ⟨(Option.some.inj hr).symm, hl, hn⟩
    · cases hr
  · rintro ⟨rfl, hl, hn⟩
    have hlt : ((Storable.toItem r).write []).length < 2 ^ 64 := Nat.lt_of_le_of_lt hl hmax
    refine ⟨hl, ?_⟩
    rw [payload, Cbor.readAll_write ha.canonical hlt, if_pos hn]
    exact ha.ofItem? hn

theorem decode_payload_of_deep {a : α} (ha : Faithful a) (hl : (payload a).length ≤ maxPayload)
    (hn : ¬(Storable.toItem a).nesting ≤ Cbor.maxNesting) :
    (decode (payload a) : Except CodecError α) = .error .malformed := by
  have hlt : ((Storable.toItem a).write []).length < 2 ^ 64 :=
    Nat.lt_of_le_of_lt hl (by decide)
  have hread : Cbor.readAll (payload a) = none := by
    rw [payload, Cbor.readAll_write ha.canonical hlt, if_neg hn]
  unfold decode
  rw [if_neg (Nat.not_lt.mpr hl), hread]
  rfl

theorem mapM_map_of_inverse {β γ : Type} {write : β → γ} {read : γ → Option β}
    (h : ∀ b, read (write b) = some b) (l : List β) : (l.map write).mapM read = some l := by
  induction l with
  | nil => rfl
  | cons b l ih =>
    rw [List.map_cons, List.mapM_cons, h, ih]
    rfl

end IndexedStore
